import Rmmtos.Machine

/-!
# Reading what was written

Bytes and words of the machine's memory, after stores and block copies.
-/

namespace Rmmtos

open Library

theorem linear_injective {seg off off' : Word}
    (h : linear seg off = linear seg off') : off = off' := by
  have hoff := off.isLt
  have hoff' := off'.isLt
  unfold linear at h
  apply BitVec.eq_of_toNat_eq
  omega

theorem offsetFrom_injective {base : Word} {i j : Nat} (hi : i < wordCount)
    (hj : j < wordCount) (h : offsetFrom base i = offsetFrom base j) : i = j := by
  unfold wordCount at hi hj
  unfold offsetFrom at h
  have h := congrArg BitVec.toNat h
  rw [BitVec.toNat_add, BitVec.toNat_add, BitVec.toNat_ofNat,
    BitVec.toNat_ofNat] at h
  have hbase := base.isLt
  omega

theorem offsetFrom_add (base : Word) (i j : Nat) :
    offsetFrom base (i + j) = offsetFrom base i + BitVec.ofNat 16 j := by
  unfold offsetFrom
  rw [BitVec.ofNat_add, BitVec.add_assoc]

theorem offsetFrom_none (p : Word) : offsetFrom p 0 = p :=
  BitVec.add_zero p

theorem offsetFrom_offsetFrom (base : Word) (i j : Nat) :
    offsetFrom (offsetFrom base i) j = offsetFrom base (i + j) :=
  (offsetFrom_add base i j).symm

theorem offsetFrom_next (p : Word) (i : Nat) :
    offsetFrom (p + 1) i = offsetFrom p (i + 1) := by
  rw [Nat.add_comm i 1]
  exact offsetFrom_offsetFrom p 1 i

theorem offsetFrom_toNat {base : Word} {i : Nat} (h : base.toNat + i < wordCount) :
    (offsetFrom base i).toNat = base.toNat + i := by
  unfold wordCount at h
  unfold offsetFrom
  rw [BitVec.toNat_add, BitVec.toNat_ofNat]
  omega

theorem offsetFrom_zero_toNat (off : Word) : offsetFrom 0 off.toNat = off := by
  unfold offsetFrom
  rw [BitVec.ofNat_toNat, BitVec.setWidth_eq]
  exact BitVec.zero_add off

/-!
# Words
-/

theorem poke_at (m : Mem) (seg off : Word) (value : Byte) :
    poke m seg off value (linear seg off) = value :=
  Function.update_self ..

theorem poke_other {m : Mem} {seg off : Word} {value : Byte} {x : Nat}
    (h : x ≠ linear seg off) : poke m seg off value x = m x :=
  Function.update_of_ne h ..

theorem succ_ne_self (off : Word) : off + 1 ≠ off := by
  intro h
  bv_omega

theorem pokew_other {m : Mem} {seg off value : Word} {x : Nat}
    (hlow : x ≠ linear seg off) (hhigh : x ≠ linear seg (off + 1)) :
    pokew m seg off value x = m x := by
  unfold pokew
  rw [poke_other hhigh, poke_other hlow]

theorem append_extract (value : Word) :
    value.extractLsb' 8 8 ++ value.extractLsb' 0 8 = value := by
  apply BitVec.eq_of_getLsbD_eq
  intro i hi
  rw [BitVec.getLsbD_append]
  by_cases hlow : i < 8
  · simp [hlow]
  · have hhigh : i - 8 < 8 := by omega
    simp [hlow, hhigh, show 8 + (i - 8) = i by omega]

theorem peekw_pokew (m : Mem) (seg off value : Word) :
    peekw (pokew m seg off value) seg off = value := by
  have hne : linear seg off ≠ linear seg (off + 1) :=
    fun h => succ_ne_self off (linear_injective h).symm
  unfold peekw peek pokew
  rw [poke_at, poke_other hne, poke_at]
  exact append_extract value

theorem peekw_congr {m m' : Mem} {seg off seg' off' : Word}
    (hlow : m (linear seg off) = m' (linear seg' off'))
    (hhigh : m (linear seg (off + 1)) = m' (linear seg' (off' + 1))) :
    peekw m seg off = peekw m' seg' off' := by
  unfold peekw peek
  rw [hlow, hhigh]

theorem peek_pokew_other {m : Mem} {seg off value off' : Word}
    (hlow : off' ≠ off) (hhigh : off' ≠ off + 1) :
    peek (pokew m seg off value) seg off' = peek m seg off' :=
  pokew_other (fun h => hlow (linear_injective h)) fun h => hhigh (linear_injective h)

theorem peekw_pokew_other {m : Mem} {seg off value off' : Word}
    (hsame : off' ≠ off) (hnext : off' ≠ off + 1) (hprev : off' + 1 ≠ off) :
    peekw (pokew m seg off value) seg off' = peekw m seg off' := by
  have hnext' : off' + 1 ≠ off + 1 := by
    intro h
    apply hsame
    bv_omega
  exact peekw_congr (peek_pokew_other hsame hnext) (peek_pokew_other hprev hnext')

/-!
# Blocks
-/

def bytesAt (m : Mem) (buffer : Word) (n : Nat) : List Byte :=
  (List.range n).map fun i => peek m kernelSegment (offsetFrom buffer i)

theorem bytesAt_succ (m : Mem) (buffer : Word) (n : Nat) :
    bytesAt m buffer (n + 1) =
      bytesAt m buffer n ++ [peek m kernelSegment (offsetFrom buffer n)] := by
  unfold bytesAt
  rw [List.range_succ, List.map_append, List.map_singleton]

def SegmentsApart (seg seg' : Word) : Prop :=
  forall off off', linear seg off ≠ linear seg' off'

theorem SegmentsApart.symm {seg seg' : Word} (h : SegmentsApart seg seg') :
    SegmentsApart seg' seg :=
  fun off off' heq => h off' off heq.symm

theorem farmemcpy_other {m : Mem} {dest src count destseg srcseg : Word}
    {x : Nat} (h : forall i, i < count.toNat ->
      x ≠ linear destseg (offsetFrom dest i)) :
    farmemcpy m dest src count destseg srcseg x = m x :=
  copyRun_other h

/-- A copy between segments that do not meet. -/
theorem farmemcpy_at (m : Mem) (dest src count : Word) {destseg srcseg : Word}
    (hapart : SegmentsApart srcseg destseg) {i : Nat} (hi : i < count.toNat) :
    farmemcpy m dest src count destseg srcseg
        (linear destseg (offsetFrom dest i)) =
      m (linear srcseg (offsetFrom src i)) := by
  have hcount : count.toNat < wordCount := count.isLt
  have hinj : forall i j, i < count.toNat -> j < count.toNat ->
      linear destseg (offsetFrom dest i) = linear destseg (offsetFrom dest j) ->
      i = j := by
    intro i j hi hj h
    exact offsetFrom_injective (by omega) (by omega) (linear_injective h)
  unfold farmemcpy
  rw [copyRun_eq_writeRun (fun i j _ _ => hapart _ _)]
  exact writeRun_at hinj hi

/-- A copy to lower places of its segment. -/
theorem farmemcpy_down (m : Mem) {dest src count seg : Word}
    (hle : dest.toNat ≤ src.toNat)
    (hend : src.toNat + count.toNat ≤ wordCount) {i : Nat}
    (hi : i < count.toNat) :
    farmemcpy m dest src count seg seg (linear seg (offsetFrom dest i)) =
      m (linear seg (offsetFrom src i)) := by
  have hinj : forall i j, i < count.toNat -> j < count.toNat ->
      linear seg (offsetFrom dest i) = linear seg (offsetFrom dest j) ->
      i = j := by
    intro i j hi hj h
    exact offsetFrom_injective (by omega) (by omega) (linear_injective h)
  have hahead : forall i j, j < i -> i < count.toNat ->
      linear seg (offsetFrom src i) ≠ linear seg (offsetFrom dest j) := by
    intro i j hj hi h
    have hsame := congrArg BitVec.toNat (linear_injective h)
    rw [offsetFrom_toNat (by omega), offsetFrom_toNat (by omega)] at hsame
    omega
  unfold farmemcpy
  rw [copyRun_eq_writeRun hahead]
  exact writeRun_at hinj hi

theorem farmemsetw_at (m : Mem) {dest value count seg : Word} {i : Nat}
    (hcount : 2 * count.toNat ≤ wordCount) (hi : i < 2 * count.toNat) :
    farmemsetw m dest value count seg (linear seg (offsetFrom dest i)) =
      wordByte value i := by
  refine writeRun_at (fun i j hi hj h => ?_) hi
  exact offsetFrom_injective (by omega) (by omega) (linear_injective h)

theorem farmemsetw_other {m : Mem} {dest value count seg : Word} {x : Nat}
    (h : forall i, i < 2 * count.toNat -> x ≠ linear seg (offsetFrom dest i)) :
    farmemsetw m dest value count seg x = m x :=
  writeRun_other h

end Rmmtos
