import Rmmtos.Kernel.Arithmetic

/-!
# The 64-bit numbers of a program

{lit}`init/uint64.c`, a copy of the kernel's file.  The comparisons and additions are
the same in both.  Where the kernel was changed, the two agree on few numbers only.
-/

namespace Rmmtos
namespace Init

open Library
open Kernel (Uint64 carryOf borrowOf)

/-- The loop over the words of the first number, the lowest one first, with the carry
that each turn leaves to the next one. -/
def carryWords (turn : Nat -> Word -> Word -> Word × Word) (a : Uint64) (carry : Word) :
    Uint64 :=
  let r0 := turn 0 a.i0 carry
  let r1 := turn 1 a.i1 r0.2
  let r2 := turn 2 a.i2 r1.2
  let r3 := turn 3 a.i3 r2.2
  ⟨r0.1, r1.1, r2.1, r3.1⟩

def compareFrom (a b : Uint64) : Nat -> Int
  | 0 => 0
  | i + 1 =>
      if b.word i < a.word i then 1
      else if a.word i < b.word i then -1
      else compareFrom a b i

def cmp64 (a b : Uint64) : Int :=
  compareFrom a b 4

def cmp64_16 (a : Uint64) (b : Word) : Int :=
  if 0 < a.word 3 then 1
  else if 0 < a.word 2 then 1
  else if 0 < a.word 1 then 1
  else if b < a.word 0 then 1
  else if a.word 0 < b then -1
  else 0

def addTurn (a t : Word) : Word × Word :=
  (a + t, carryOf (a + t) t)

def inc64 (a : Uint64) : Uint64 :=
  carryWords (fun _ a carry => addTurn a carry) a 1

/-- The carry is compared with the word that it was taken from. -/
def dec64 (a : Uint64) : Uint64 :=
  carryWords (fun _ a carry => (a - carry, borrowOf (a - carry) carry)) a 1

def add64 (a b : Uint64) : Uint64 :=
  carryWords (fun i a carry => addTurn a (b.word i + carry)) a 0

def add64_16 (a : Uint64) (b : Word) : Uint64 :=
  carryWords (fun i a carry => addTurn a ((if i = 0 then b else 0) + carry)) a 0

/-- The carry is added to the negated word. -/
def sub64 (a b : Uint64) : Uint64 :=
  carryWords (fun i a carry => addTurn a (~~~b.word i + 1 + carry)) a 0

/-- The loop by whole words, with the last word that was shifted out. -/
def shrWords (x : Word × Uint64) : Nat -> Word × Uint64
  | 0 => x
  | turns + 1 => shrWords (x.2.i0, ⟨x.2.i1, x.2.i2, x.2.i3, 0⟩) turns

/-- The bits of the upper word are shifted by {lit}`n` as well. -/
def shrWord (low high : Word) (n : Nat) : Word :=
  (low >>> n) ||| (high <<< n)

def shr64 (p : Uint64) (n : Word) : Word × Uint64 :=
  let turns := (n.toNat - 1) / 16
  let k := n.toNat - 16 * turns
  let x := shrWords (0, p) turns
  let p := x.2
  (shrWord x.1 p.i0 k,
    ⟨shrWord p.i0 p.i1 k, shrWord p.i1 p.i2 k, shrWord p.i2 p.i3 k, p.i3 >>> k⟩)

/-- The bits of the lower word are shifted by {lit}`n` as well. -/
def shlWord (low high : Word) (n : Nat) : Word :=
  (high <<< n) ||| (low >>> n)

def shl64 (p : Uint64) (n : Word) : Uint64 :=
  let turns := (n.toNat - 1) / 16
  let k := n.toNat - 16 * turns
  let p := Kernel.shlWords p turns
  ⟨p.i0 <<< k, shlWord p.i0 p.i1 k, shlWord p.i1 p.i2 k, shlWord p.i2 p.i3 k⟩

/-!
# What both files do
-/

section Same

variable {a b : Uint64} {w : Word}

theorem cmp64_same : cmp64 a b = Kernel.cmp64 a b := by
  have hword : forall x y : Word, forall r : Int,
      (if y < x then 1 else if x < y then -1 else r) =
        if Kernel.compareWords x y ≠ 0 then Kernel.compareWords x y else r := by
    intro x y r
    unfold Kernel.compareWords
    split
    · exact (if_pos (by decide)).symm
    · split
      · exact (if_pos (by decide)).symm
      · exact (if_neg (by decide)).symm
  have hlast : forall r : Int, (if r ≠ 0 then r else 0) = r := by
    intro r
    split
    · rfl
    · next h => exact (Decidable.not_not.mp h).symm
  unfold cmp64 Kernel.cmp64
  simp only [compareFrom, hword]
  rw [hlast]
  rfl

theorem cmp64_16_same : cmp64_16 a w = Kernel.cmp64_16 a w := by
  unfold cmp64_16 Kernel.cmp64_16
  change (if 0 < a.i3 then 1 else if 0 < a.i2 then 1 else if 0 < a.i1 then 1 else
    Kernel.compareWords a.i0 w) = _
  by_cases h3 : 0 < a.i3
  · rw [if_pos h3, if_pos (Or.inl h3)]
  · by_cases h2 : 0 < a.i2
    · rw [if_neg h3, if_pos h2, if_pos (Or.inr (Or.inl h2))]
    · by_cases h1 : 0 < a.i1
      · rw [if_neg h3, if_neg h2, if_pos h1, if_pos (Or.inr (Or.inr h1))]
      · rw [if_neg h3, if_neg h2, if_neg h1, if_neg]
        intro h
        rcases h with h | h | h
        · exact h3 h
        · exact h2 h
        · exact h1 h

theorem inc64_same : inc64 a = Kernel.inc64 a := rfl

theorem add64_same : add64 a b = Kernel.add64 a b := by
  have hzero : b.word 0 + 0 = b.i0 := BitVec.add_zero _
  unfold add64 carryWords addTurn
  dsimp only
  rw [hzero]
  rfl

theorem add64_16_same : add64_16 a w = Kernel.add64_16 a w := by
  have hfirst : (if 0 = 0 then w else 0) + 0 = w := BitVec.add_zero _
  have hlater : forall c : Word, 0 + c = c := BitVec.zero_add
  unfold add64_16 carryWords addTurn
  dsimp only
  rw [hfirst]
  simp only [Nat.succ_ne_zero, if_false, hlater]
  rfl

end Same

/-!
# Where the files differ
-/

section Differences

variable {a b : Uint64} {x y c d : Word} {n : Nat}

def carryOut (turn : Nat -> Word -> Word -> Word × Word) (a : Uint64) (carry : Word) :
    Nat -> Word
  | 0 => carry
  | i + 1 => (turn i (a.word i) (carryOut turn a carry i)).2

theorem carryWords_word (turn : Nat -> Word -> Word -> Word × Word) (a : Uint64)
    (carry : Word) (hn : n < 4) : (carryWords turn a carry).word n =
      (turn n (a.word n) (carryOut turn a carry n)).1 := by
  match n, hn with
  | 0, _ => rfl
  | 1, _ => rfl
  | 2, _ => rfl
  | 3, _ => rfl

/-- A carry that is added and a borrow that is taken off make a difference, unless there
is neither. -/
theorem sub_add_iff (hc : c.toNat ≤ 1) (hd : d.toNat ≤ 1) :
    x + (~~~y + 1 + c) = x + (~~~y + 1 - d) <-> c = 0 ∧ d = 0 := by
  constructor
  · intro h
    constructor <;> bv_omega
  · intro h
    rw [h.1, h.2]
    bv_omega

theorem no_carry_iff (x t : Word) :
    carryOf (x + t) t = 0 ∧ borrowOf (x + t) t = 0 <-> x = 0 := by
  have hself : forall t : Word, 0 + t = t := BitVec.zero_add
  unfold carryOf borrowOf
  constructor
  · intro h
    rcases h with ⟨hcarry, hborrow⟩
    split at hcarry
    · cases hcarry
    · split at hborrow
      · cases hborrow
      · bv_omega
  · intro h
    rw [h, hself]
    exact ⟨if_neg (BitVec.lt_irrefl t), if_neg (BitVec.lt_irrefl t)⟩

def subCarry (a b : Uint64) : Nat -> Word :=
  carryOut (fun i a carry => addTurn a (~~~b.word i + 1 + carry)) a 0

theorem subCarry_le (a b : Uint64) (i : Nat) : (subCarry a b i).toNat ≤ 1 := by
  cases i with
  | zero => exact Nat.zero_le 1
  | succ i => exact Kernel.carryOf_le _ _

/-- The two subtractions agree as long as neither finds a carry or a borrow. -/
theorem sub64_same_iff :
    sub64 a b = Kernel.sub64 a b <-> forall i, i < 3 -> a.word i = 0 := by
  have hwords : sub64 a b = Kernel.sub64 a b <-> forall i, i < 4 ->
      (subCarry a b i, Kernel.subBorrow a b i) = ((0 : Word), (0 : Word)) := by
    rw [Kernel.Uint64.ext_word_iff]
    refine forall_congr' fun i => imp_congr_right fun hi => ?_
    rw [Kernel.sub64_word a b hi, Prod.mk.injEq, ← sub_add_iff (x := a.word i)
      (y := b.word i) (subCarry_le a b i) (Kernel.subBorrow_le a b i)]
    unfold sub64
    rw [carryWords_word _ _ _ hi]
    rfl
  rw [hwords]
  refine carries_right_iff rfl ?_
  intro i _ hnone
  rw [Prod.mk.injEq] at hnone ⊢
  have hadd : forall t : Word, t + 0 = t := BitVec.add_zero
  have hsub : forall t : Word, t - 0 = t := BitVec.sub_zero
  have hcarry : subCarry a b (i + 1) = carryOf (a.word i + (~~~b.word i + 1))
      (~~~b.word i + 1) := by
    change carryOf (a.word i + (~~~b.word i + 1 + subCarry a b i))
      (~~~b.word i + 1 + subCarry a b i) = _
    rw [hnone.1, hadd]
  have hborrow : Kernel.subBorrow a b (i + 1) = borrowOf (a.word i + (~~~b.word i + 1))
      (~~~b.word i + 1) := by
    change borrowOf (a.word i + (~~~b.word i + 1 - Kernel.subBorrow a b i))
      (~~~b.word i + 1 - Kernel.subBorrow a b i) = _
    rw [hnone.2, hsub]
  rw [hcarry, hborrow]
  exact no_carry_iff _ _

theorem borrowOf_one_iff : borrowOf (x - 1) 1 = 0 <-> x = 1 ∨ x = 2 := by
  unfold borrowOf
  split
  · refine iff_of_false (by decide) ?_
    bv_omega
  · refine iff_of_true rfl ?_
    bv_omega

theorem borrowOf_full (x : Word) : borrowOf x 0xffff = 0 := by
  unfold borrowOf
  exact if_neg (by bv_omega)

/-- The two decrements agree as long as the lowest word of the program's one leaves no
carry. -/
theorem dec64_same_iff : dec64 a = Kernel.dec64 a <->
    (a.i0 = 1 ∨ a.i0 = 2) ∧ (a.i1 = 0 ∨ a.i2 = 1 ∨ a.i2 = 2) := by
  have hadd : forall t : Word, t + 0 = t := BitVec.add_zero
  have hsub : forall t : Word, t - 0 = t := BitVec.sub_zero
  have hneg : forall s t : Word, s + (0 - t) = s - t := by
    intro s t
    bv_omega
  have hkernel : Kernel.dec64 a = ⟨a.i0 - 1, a.i1, a.i2 - borrowOf a.i1 0,
      a.i3 - borrowOf (a.i2 - borrowOf a.i1 0) (0 - borrowOf a.i1 0)⟩ := by
    have hlow : a.i0 + 0xffff = a.i0 - 1 := by
      bv_omega
    unfold Kernel.dec64
    dsimp only
    rw [borrowOf_full, hlow]
    simp only [hneg, hsub, hadd]
  have hinit : dec64 a = ⟨a.i0 - 1, a.i1 - borrowOf (a.i0 - 1) 1,
      a.i2 - borrowOf (a.i1 - borrowOf (a.i0 - 1) 1) (borrowOf (a.i0 - 1) 1),
      a.i3 - borrowOf (a.i2 - borrowOf (a.i1 - borrowOf (a.i0 - 1) 1)
          (borrowOf (a.i0 - 1) 1))
        (borrowOf (a.i1 - borrowOf (a.i0 - 1) 1) (borrowOf (a.i0 - 1) 1))⟩ := rfl
  have hlow : dec64 a = Kernel.dec64 a -> borrowOf (a.i0 - 1) 1 = 0 := by
    intro h
    have h1 := congrArg Uint64.i1 h
    rw [hinit, hkernel] at h1
    change a.i1 - _ = a.i1 at h1
    bv_omega
  have hhigh : borrowOf (a.i0 - 1) 1 = 0 ->
      (dec64 a = Kernel.dec64 a <-> a.i1 = 0 ∨ a.i2 = 1 ∨ a.i2 = 2) := by
    intro hnone
    rw [hinit, hkernel, hnone]
    simp only [hsub, Uint64.mk.injEq, true_and]
    rcases eq_or_ne a.i1 0 with hzero | hne
    · have hno : borrowOf (0 : Word) 0 = 0 := by
        decide
      rw [hzero, hno]
      exact iff_of_true rfl (Or.inl rfl)
    · have hone : borrowOf a.i1 0 = 1 := if_pos (by bv_omega)
      have hfull : borrowOf (a.i2 - 1) (0 - 1) = 0 := borrowOf_full _
      rw [hone, hfull, hsub, or_iff_right hne, ← borrowOf_one_iff]
      constructor
      · intro h
        bv_omega
      · intro h
        rw [h, hsub]
  rw [← borrowOf_one_iff]
  constructor
  · intro h
    exact ⟨hlow h, (hhigh (hlow h)).mp h⟩
  · intro h
    exact (hhigh h.1).mpr h.2

/-!
# Shifts
-/

/-- At every bit that the lower word leaves clear, the kernel and the program take the
same bit of the upper one. -/
def RightBitsAgree (k : Nat) (low high : Word) : Prop :=
  forall j, j < 16 -> low.getLsbD (k + j) = false ->
    (decide (16 - k ≤ j) && high.getLsbD (j - (16 - k))) =
      (decide (k ≤ j) && high.getLsbD (j - k))

/-- At every bit that the upper word leaves clear, the kernel and the program take the
same bit of the lower one. -/
def LeftBitsAgree (k : Nat) (low high : Word) : Prop :=
  forall j, j < 16 -> (decide (k ≤ j) && high.getLsbD (j - k)) = false ->
    low.getLsbD (16 - k + j) = low.getLsbD (k + j)

instance (k : Nat) (low high : Word) : Decidable (RightBitsAgree k low high) :=
  inferInstanceAs (Decidable (forall j, j < 16 -> _))

instance (k : Nat) (low high : Word) : Decidable (LeftBitsAgree k low high) :=
  inferInstanceAs (Decidable (forall j, j < 16 -> _))

theorem or_eq_or_iff {p q r : Bool} : (p || q) = (p || r) <-> (p = false -> q = r) := by
  cases p <;> simp

theorem shl_bit (w : Word) (k : Nat) {j : Nat} (hj : j < 16) :
    (w <<< k).getLsbD j = (decide (k ≤ j) && w.getLsbD (j - k)) := by
  rw [BitVec.getLsbD_shiftLeft, decide_eq_true hj, Bool.true_and]
  congr 1
  rw [← decide_not]
  exact decide_eq_decide.mpr Nat.not_lt

theorem shrWord_same_iff (k : Nat) (low high : Word) :
    shrWord low high k = Kernel.shrWord low high k <-> RightBitsAgree k low high := by
  unfold shrWord Kernel.shrWord RightBitsAgree
  rw [BitVec.eq_of_getLsbD_eq_iff]
  refine forall_congr' fun j => imp_congr_right fun hj => ?_
  rw [BitVec.getLsbD_or, BitVec.getLsbD_or, BitVec.getLsbD_ushiftRight, shl_bit _ _ hj,
    shl_bit _ _ hj, or_eq_or_iff]
  exact imp_congr_right fun _ => eq_comm

theorem shlWord_same_iff (k : Nat) (low high : Word) :
    shlWord low high k = Kernel.shlWord low high k <-> LeftBitsAgree k low high := by
  unfold shlWord Kernel.shlWord LeftBitsAgree
  rw [BitVec.eq_of_getLsbD_eq_iff]
  refine forall_congr' fun j => imp_congr_right fun hj => ?_
  rw [BitVec.getLsbD_or, BitVec.getLsbD_or, BitVec.getLsbD_ushiftRight,
    BitVec.getLsbD_ushiftRight, shl_bit _ _ hj, or_eq_or_iff]
  exact imp_congr_right fun _ => eq_comm

/-- The bits that are shifted out: the kernel has them at the low end of the word, the
program at the high end. -/
theorem shifted_same_iff (x : Word) {k : Nat} (hk : k ≤ 16) :
    (x <<< (16 - k)) >>> (16 - k) = shrWord 0 x k <->
      x.toNat % 2 ^ max k (16 - k) = 0 := by
  have hpow : 2 ^ k * 2 ^ (16 - k) = 65536 := by
    rw [← Nat.pow_add, Nat.add_sub_cancel' hk]
  have hkernel : ((x <<< (16 - k)) >>> (16 - k)).toNat = x.toNat % 2 ^ k := by
    rw [BitVec.toNat_ushiftRight, BitVec.toNat_shiftLeft, Nat.shiftRight_eq_div_pow,
      Nat.shiftLeft_eq]
    change x.toNat * 2 ^ (16 - k) % 65536 / _ = _
    rw [← hpow, Nat.mul_mod_mul_right, Nat.mul_div_cancel _ (Nat.two_pow_pos _)]
  have hinit : (shrWord 0 x k).toNat = 2 ^ k * (x.toNat % 2 ^ (16 - k)) := by
    unfold shrWord
    rw [BitVec.toNat_or, BitVec.toNat_ushiftRight, BitVec.toNat_shiftLeft,
      Nat.shiftLeft_eq]
    change 0 >>> k ||| x.toNat * 2 ^ k % 65536 = _
    rw [Nat.zero_shiftRight, Nat.zero_or, ← hpow, Nat.mul_comm x.toNat,
      Nat.mul_mod_mul_left]
  have hparts : (x <<< (16 - k)) >>> (16 - k) = shrWord 0 x k <->
      x.toNat % 2 ^ k = 0 ∧ x.toNat % 2 ^ (16 - k) = 0 := by
    rw [← BitVec.toNat_inj, hkernel, hinit]
    have hlt : x.toNat % 2 ^ k < 2 ^ k := Nat.mod_lt _ (Nat.two_pow_pos k)
    constructor
    · intro h
      have hhigh : x.toNat % 2 ^ (16 - k) = 0 := by
        rcases Nat.eq_zero_or_pos (x.toNat % 2 ^ (16 - k)) with hzero | hpos
        · exact hzero
        · have hle := Nat.le_mul_of_pos_right (2 ^ k) hpos
          omega
      rw [hhigh, Nat.mul_zero] at h
      exact ⟨h, hhigh⟩
    · intro h
      rw [h.1, h.2, Nat.mul_zero]
  have hdvd : forall {i j : Nat}, i ≤ j -> x.toNat % 2 ^ j = 0 -> x.toNat % 2 ^ i = 0 := by
    intro i j hij h
    exact Nat.mod_eq_zero_of_dvd
      (Nat.dvd_trans (Nat.pow_dvd_pow 2 hij) (Nat.dvd_of_mod_eq_zero h))
  rw [hparts]
  rcases Nat.le_total k (16 - k) with hle | hle
  · rw [Nat.max_eq_right hle]
    exact ⟨And.right, fun h => ⟨hdvd hle h, h⟩⟩
  · rw [Nat.max_eq_left hle]
    exact ⟨And.left, fun h => ⟨h, hdvd hle h⟩⟩

theorem shr64_same_iff {k : Word} (hk : k.toNat ≤ 16) :
    Kernel.shr64 a k = .ok (shr64 a k) <->
      a.i0.toNat % 2 ^ max k.toNat (16 - k.toNat) = 0 ∧
        RightBitsAgree k.toNat a.i0 a.i1 ∧ RightBitsAgree k.toNat a.i1 a.i2 ∧
        RightBitsAgree k.toNat a.i2 a.i3 := by
  have hturns : (k.toNat - 1) / 16 = 0 := by
    omega
  have hfits : ¬ 16 < k := by
    bv_omega
  unfold shr64 Kernel.shr64
  rw [if_neg hfits, hturns]
  simp only [Nat.mul_zero, Nat.sub_zero, shrWords, Except.ok.injEq, Prod.mk.injEq,
    Uint64.mk.injEq, and_true]
  rw [shifted_same_iff _ hk, ← shrWord_same_iff, ← shrWord_same_iff, ← shrWord_same_iff,
    eq_comm (a := shrWord a.i0 a.i1 _), eq_comm (a := shrWord a.i1 a.i2 _),
    eq_comm (a := shrWord a.i2 a.i3 _)]

theorem shl64_same_iff {k : Word} (hk : k.toNat ≤ 16) :
    shl64 a k = Kernel.shl64 a k <->
      LeftBitsAgree k.toNat a.i0 a.i1 ∧ LeftBitsAgree k.toNat a.i1 a.i2 ∧
        LeftBitsAgree k.toNat a.i2 a.i3 := by
  have hturns : (k.toNat - 1) / 16 = 0 := by
    omega
  unfold shl64 Kernel.shl64
  rw [hturns]
  simp only [Nat.mul_zero, Nat.sub_zero, Kernel.shlWords, Uint64.mk.injEq, true_and]
  rw [← shlWord_same_iff, ← shlWord_same_iff, ← shlWord_same_iff]

end Differences

/-- Where the program's functions and the kernel's come to the same. -/
theorem libraries_agree_iff (a b : Uint64) (w : Word) {n : Word} (hn : n.toNat ≤ 16) :
    cmp64 a b = Kernel.cmp64 a b ∧ cmp64_16 a w = Kernel.cmp64_16 a w ∧
      inc64 a = Kernel.inc64 a ∧ add64 a b = Kernel.add64 a b ∧
      add64_16 a w = Kernel.add64_16 a w ∧
      (dec64 a = Kernel.dec64 a <->
        (a.i0 = 1 ∨ a.i0 = 2) ∧ (a.i1 = 0 ∨ a.i2 = 1 ∨ a.i2 = 2)) ∧
      (sub64 a b = Kernel.sub64 a b <-> forall i, i < 3 -> a.word i = 0) ∧
      (Kernel.shr64 a n = .ok (shr64 a n) <->
        a.i0.toNat % 2 ^ max n.toNat (16 - n.toNat) = 0 ∧
          RightBitsAgree n.toNat a.i0 a.i1 ∧ RightBitsAgree n.toNat a.i1 a.i2 ∧
          RightBitsAgree n.toNat a.i2 a.i3) ∧
      (shl64 a n = Kernel.shl64 a n <->
        LeftBitsAgree n.toNat a.i0 a.i1 ∧ LeftBitsAgree n.toNat a.i1 a.i2 ∧
          LeftBitsAgree n.toNat a.i2 a.i3) :=
  ⟨cmp64_same, cmp64_16_same, inc64_same, add64_same, add64_16_same, dec64_same_iff,
    sub64_same_iff, shr64_same_iff hn, shl64_same_iff hn⟩

/-- A shift of {lit}`0x100` by 8 bits: the bits that it takes off are none. -/
theorem libraries_agree_at_8 :
    Kernel.shr64 ⟨0x100, 0, 0, 0⟩ 8 = .ok (shr64 ⟨0x100, 0, 0, 0⟩ 8) := by
  have hagree := libraries_agree_iff ⟨0x100, 0, 0, 0⟩ ⟨1, 0, 0, 0⟩ 1 (n := 8) (by decide)
  exact hagree.2.2.2.2.2.2.2.1.mpr (by decide)

/-- A shift of one by one bit: the kernel returns one, the program two. -/
theorem libraries_differ :
    ¬ forall (a b : Uint64) (n : Word), n.toNat ≤ 16 ->
      dec64 a = Kernel.dec64 a ∧ sub64 a b = Kernel.sub64 a b ∧
        Kernel.shr64 a n = .ok (shr64 a n) ∧ shl64 a n = Kernel.shl64 a n := by
  intro hall
  have hsame : Kernel.shr64 ⟨1, 0, 0, 0⟩ 1 = .ok (shr64 ⟨1, 0, 0, 0⟩ 1) :=
    (hall ⟨1, 0, 0, 0⟩ ⟨0, 0, 0, 0⟩ 1 (by decide)).2.2.1
  exact absurd hsame (by decide)

end Init
end Rmmtos
