import Rmmtos.Memory
import Rmmtos.Kernel.Ownership
import Rmmtos.Fs.Block

/-!
# The block cache

Every slot of the cache that is used owns a block of the heap, which holds the
bytes of the device.  A fetch takes nothing from the slots, and a block is put
into a free slot only.
-/

namespace Rmmtos
namespace Fs

open Library Kernel

/-!
# Slots
-/

section Slots

variable {s : BlockState} {blockFile : Word} {block : Uint64}
  {i : Fin cachedBlocks}

theorem findSlot_some {p : Fin cachedBlocks -> Bool} (h : findSlot p = some i) :
    p i = true :=
  List.find?_some h

theorem findSlot_none {p : Fin cachedBlocks -> Bool} :
    findSlot p = none <-> forall i, p i = false := by
  unfold findSlot
  rw [List.find?_eq_none]
  constructor
  · intro h i
    exact Bool.eq_false_of_not_eq_true (h i (List.mem_finRange i))
  · intro h i _
    rw [h i]
    exact Bool.false_ne_true

def Cached (s : BlockState) (blockFile : Word) (b : Nat) : Prop :=
  exists i, (s.cachedBlock i).blockFile = blockFile ∧
    (s.cachedBlock i).block.toNat = b

def Full (s : BlockState) : Prop :=
  forall i, (s.cachedBlock i).buffer ≠ 0

theorem usedSlot_some (h : usedSlot s blockFile block = some i) :
    (s.cachedBlock i).blockFile = blockFile ∧ (s.cachedBlock i).block = block := by
  have hboth := Bool.and_eq_true_iff.mp (findSlot_some h)
  refine ⟨beq_iff_eq.mp hboth.1, ?_⟩
  exact (cmp64_zero_iff.mp (beq_iff_eq.mp hboth.2)).symm

theorem usedSlot_none :
    usedSlot s blockFile block = none <->
      ¬ Cached s blockFile block.toNat := by
  unfold usedSlot
  rw [findSlot_none]
  constructor
  · intro h hcached
    rcases hcached with ⟨i, hfile, hblock⟩
    have hno := h i
    rw [Uint64.eq_of_toNat_eq hblock, hfile, beq_self_eq_true,
      cmp64_zero_iff.mpr rfl] at hno
    cases hno
  · intro h i
    by_contra hyes
    have hboth := Bool.and_eq_true_iff.mp (Bool.eq_true_of_not_eq_false hyes)
    have hblock := cmp64_zero_iff.mp (beq_iff_eq.mp hboth.2)
    exact h ⟨i, beq_iff_eq.mp hboth.1, by rw [hblock]⟩

theorem freeSlot_some (h : freeSlot s = some i) :
    (s.cachedBlock i).buffer = 0 :=
  beq_iff_eq.mp (findSlot_some h)

theorem freeSlot_none : freeSlot s = none <-> Full s := by
  unfold freeSlot Full
  rw [findSlot_none]
  constructor
  · intro h i
    exact beq_eq_false_iff_ne.mp (h i)
  · intro h i
    exact beq_eq_false_iff_ne.mpr (h i)

end Slots

/-!
# Block sizes
-/

theorem BlockFile.blockSize_toNat (f : BlockFile) :
    f.blockSize.toNat = 2 ^ f.blockSizeExponent.toNat :=
  one_shl_toNat f.small

theorem BlockFile.offsetMask_and (f : BlockFile) (w : Word) :
    (w &&& f.offsetMask).toNat = w.toNat % 2 ^ f.blockSizeExponent.toNat := by
  have hmask : forall e, e < 16 ->
      (~~~((0xffff : Word) <<< e)).toNat = 2 ^ e - 1 := by decide
  unfold BlockFile.offsetMask
  rw [BitVec.toNat_and, hmask _ f.small]
  exact Nat.and_two_pow_sub_one_eq_mod _ _

/-!
# Contents
-/

def Holds (f : BlockFile) (m : Mem) (p : Word) (block : Uint64) : Prop :=
  exists read, f.read = some read ∧ forall i,
    i < 2 ^ f.blockSizeExponent.toNat ->
      peek m kernelSegment (offsetFrom p i) = read block i

theorem offset_bound (f : BlockFile) {i : Nat}
    (hi : i < 2 ^ f.blockSizeExponent.toNat) : i < wordCount := by
  have hlt : 2 ^ f.blockSizeExponent.toNat < 2 ^ 16 :=
    Nat.pow_lt_pow_right (by decide) f.small
  unfold wordCount
  omega

theorem readInto_holds {f : BlockFile} {read : Uint64 -> Nat -> Byte}
    (hread : f.read = some read) (p : Word) (block : Uint64) (m : Mem) :
    Holds f (readInto read f p block m) p block := by
  refine ⟨read, hread, ?_⟩
  intro i hi
  unfold readInto peek
  rw [← f.blockSize_toNat] at hi
  apply writeRun_at _ hi
  intro i j hi hj hij
  rw [f.blockSize_toNat] at hi hj
  exact offsetFrom_injective (offset_bound f hi) (offset_bound f hj)
    (linear_injective hij)

theorem Holds.readInto {f g : BlockFile} {m : Mem} {p q : Word}
    {block block' : Uint64} (h : Holds g m q block')
    (read : Uint64 -> Nat -> Byte)
    (hp : p.toNat + 2 ^ f.blockSizeExponent.toNat < 65536)
    (hq : q.toNat + 2 ^ g.blockSizeExponent.toNat < 65536)
    (hapart : p.toNat + 2 ^ f.blockSizeExponent.toNat ≤ q.toNat ∨
      q.toNat + 2 ^ g.blockSizeExponent.toNat ≤ p.toNat) :
    Holds g (readInto read f p block m) q block' := by
  rcases h with ⟨content, hcontent, hbytes⟩
  refine ⟨content, hcontent, ?_⟩
  intro i hi
  rw [← hbytes i hi]
  unfold Fs.readInto peek
  apply writeRun_other
  intro j hj heq
  rw [f.blockSize_toNat] at hj
  have heq := congrArg BitVec.toNat (linear_injective heq)
  unfold offsetFrom at heq
  rw [BitVec.toNat_add, BitVec.toNat_add, BitVec.toNat_ofNat,
    BitVec.toNat_ofNat] at heq
  omega

/-!
# Ownership
-/

/-- The user of a block: a slot, or else a read that keeps it for itself, and
the bytes it needs. -/
abbrev BlockUser := Option (Fin cachedBlocks) × Nat

/-- What a slot that is used owns. -/
structure SlotInv (files : Word -> BlockFile) (s : BlockState)
    (label : Word -> Option BlockUser) (i : Fin cachedBlocks) : Prop where
  owned : label (s.cachedBlock i).buffer = some (some i,
    2 ^ (files (s.cachedBlock i).blockFile).blockSizeExponent.toNat)
  holds : Holds (files (s.cachedBlock i).blockFile) s.mem (s.cachedBlock i).buffer
    (s.cachedBlock i).block

/-- A free slot names no file. -/
structure CacheInv (files : Word -> BlockFile) (s : BlockState)
    (label : Word -> Option BlockUser) : Prop where
  owned : Owned Prod.snd s.heap label
  pool_pos : 0 < s.heap.poolStart.toNat
  unused : forall i, (s.cachedBlock i).buffer = 0 ->
    (s.cachedBlock i).blockFile = 0
  used : forall i, (s.cachedBlock i).buffer ≠ 0 -> SlotInv files s label i

section Ownership

variable {files : Word -> BlockFile} {s : BlockState}
  {label : Word -> Option BlockUser} {blockFile tmp : Word} {block : Uint64}
  {read : Uint64 -> Nat -> Byte}

theorem CacheInv.found (hs : CacheInv files s label) (hfile : blockFile ≠ 0)
    {i : Fin cachedBlocks} (h : (s.cachedBlock i).blockFile = blockFile) :
    (s.cachedBlock i).buffer ≠ 0 :=
  fun hzero => hfile (h.symm.trans (hs.unused i hzero))

theorem fetchBlock_hit (read : Uint64 -> Nat -> Byte) (tmp : Word) (hs : CacheInv files s label) (hfile : blockFile ≠ 0)
    {i : Fin cachedBlocks} (h : usedSlot s blockFile block = some i) :
    fetchBlock read (files blockFile) blockFile s block tmp =
        .ok ((s.cachedBlock i).buffer, some i, s) ∧
      (s.cachedBlock i).buffer ≠ 0 ∧
      Holds (files blockFile) s.mem (s.cachedBlock i).buffer block := by
  rcases usedSlot_some h with ⟨hsame, hblock⟩
  have hne := hs.found hfile hsame
  have hholds := (hs.used i hne).holds
  rw [hsame, hblock] at hholds
  refine ⟨?_, hne, hholds⟩
  unfold fetchBlock
  rw [h]
  exact if_neg hne

theorem fetchBlock_stale {f : BlockFile} (h : usedSlot s blockFile block = none)
    (htmp : tmp ≠ 0) :
    fetchBlock read f blockFile s block tmp = .ok (tmp, none, s) := by
  unfold fetchBlock
  rw [h]
  exact if_neg htmp

theorem fetchBlock_new (hs : CacheInv files s label)
    (hread : (files blockFile).read = some read)
    (h : usedSlot s blockFile block = none) :
    fetchBlock read (files blockFile) blockFile s block 0 = panic .outOfMem ∨
      exists p s', fetchBlock read (files blockFile) blockFile s block 0 =
          .ok (p, none, s') ∧
        p ≠ 0 ∧ s'.cachedBlock = s.cachedBlock ∧
        (forall i, (s.cachedBlock i).buffer ≠ p) ∧
        CacheInv files s' (Function.update label p (some (none,
          2 ^ (files blockFile).blockSizeExponent.toNat))) ∧
        Holds (files blockFile) s'.mem p block := by
  have heq : fetchBlock read (files blockFile) blockFile s block 0 =
      malloc s.heap (files blockFile).blockSize >>= fun x =>
        .ok (x.1, none, { s with
          heap := x.2
          mem := readInto read (files blockFile) x.1 block s.mem }) := by
    unfold fetchBlock
    rw [h]
    exact if_pos rfl
  rw [heq]
  rcases malloc_eq hs.owned.heap.zoneTable (files blockFile).blockSize with
    ⟨b, _, _, _, _, hmalloc⟩ | ⟨_, hmalloc⟩
  · right
    have hne := malloc_ne_zero hs.owned.heap hs.pool_pos hmalloc
    have hstart := malloc_poolStart hmalloc
    rcases hs.owned.malloc hmalloc (o := (none,
      2 ^ (files blockFile).blockSizeExponent.toNat))
        (by rw [BlockFile.blockSize_toNat]) with ⟨hnone, howned⟩
    rw [hmalloc]
    generalize s.heap.address b = p at *
    have hother : forall i, (s.cachedBlock i).buffer ≠ p := by
      intro i hsame
      have hlabel := (hs.used i (by rw [hsame]; exact hne)).owned
      rw [hsame, hnone] at hlabel
      cases hlabel
    refine ⟨p, _, rfl, hne, rfl, hother, ?_, readInto_holds hread p block s.mem⟩
    refine ⟨howned, by rw [← hstart] at *; exact hs.pool_pos, hs.unused, ?_⟩
    intro i hi
    have hslot := hs.used i hi
    have hlabel : Function.update label p (some (none,
        2 ^ (files blockFile).blockSizeExponent.toNat)) (s.cachedBlock i).buffer =
          some (some i, 2 ^ (files (s.cachedBlock i).blockFile).blockSizeExponent.toNat) := by
      rw [Function.update_of_ne (hother i)]
      exact hslot.owned
    have hself : Function.update label p (some (none,
        2 ^ (files blockFile).blockSizeExponent.toNat)) p = _ :=
      Function.update_self ..
    exact ⟨hlabel, hslot.holds.readInto read (howned.inside hself)
      (howned.inside hlabel) (howned.apart hself hlabel (hother i).symm)⟩
  · left
    rw [hmalloc]
    rfl

theorem putBlock_none (hfull : Full s) :
    putBlock blockFile block (tmp, none, s) = (none, s) := by
  unfold putBlock
  dsimp only
  rw [freeSlot_none.mpr hfull]

theorem putBlock_new (block : Uint64) (hs : CacheInv files s label) (htmp : tmp ≠ 0)
    (hlabel : label tmp = some (none,
      2 ^ (files blockFile).blockSizeExponent.toNat))
    (hholds : Holds (files blockFile) s.mem tmp block) :
    (putBlock blockFile block (tmp, none, s) = (none, s) ∧ Full s) ∨
      exists i s', putBlock blockFile block (tmp, none, s) = (some i, s') ∧
        (s.cachedBlock i).buffer = 0 ∧
        s'.cachedBlock = Function.update s.cachedBlock i ⟨block, blockFile, tmp⟩ ∧
        CacheInv files s' (Function.update label tmp (some (some i,
          2 ^ (files blockFile).blockSizeExponent.toNat))) := by
  cases hfree : freeSlot s with
  | none =>
      left
      have hfull := freeSlot_none.mp hfree
      exact ⟨putBlock_none hfull, hfull⟩
  | some i =>
      right
      have hzero := freeSlot_some hfree
      refine ⟨i, { s with
        cachedBlock :=
          Function.update s.cachedBlock i ⟨block, blockFile, tmp⟩ },
        ?_, hzero, rfl, ?_⟩
      · unfold putBlock
        dsimp only
        rw [hfree]
      · refine ⟨hs.owned.relabel hlabel _ (Nat.le_refl _), hs.pool_pos, ?_, ?_⟩
        · intro j hj
          by_cases hij : j = i
          · subst hij
            dsimp only at hj
            rw [Function.update_self] at hj
            exact absurd hj htmp
          · dsimp only at hj ⊢
            rw [Function.update_of_ne hij] at hj ⊢
            exact hs.unused j hj
        · intro j hj
          by_cases hij : j = i
          · subst hij
            have hslot : Function.update s.cachedBlock j ⟨block, blockFile, tmp⟩ j =
                ⟨block, blockFile, tmp⟩ := Function.update_self ..
            constructor
            · dsimp only
              rw [hslot, Function.update_self]
            · dsimp only
              rw [hslot]
              exact hholds
          · have hslot : Function.update s.cachedBlock i ⟨block, blockFile, tmp⟩ j =
                s.cachedBlock j := Function.update_of_ne hij ..
            dsimp only at hj
            rw [hslot] at hj
            have hold := hs.used j hj
            have hne : (s.cachedBlock j).buffer ≠ tmp := by
              intro hsame
              have howned := hold.owned
              rw [hsame, hlabel] at howned
              cases howned
            constructor
            · dsimp only
              rw [hslot, Function.update_of_ne hne]
              exact hold.owned
            · dsimp only
              rw [hslot]
              exact hold.holds

theorem dropBlock_keeps {x : BlockRead} (hs : CacheInv files x.state label)
    (hdrop : x.bufferUsed = none -> exists n, label x.tmp = some (none, n)) :
    exists s' label', dropBlock x = .ok s' ∧ CacheInv files s' label' ∧
      s'.cachedBlock = x.state.cachedBlock := by
  unfold dropBlock
  by_cases h : x.tmp ≠ 0 ∧ x.bufferUsed = none
  · rw [if_pos h]
    rcases hdrop h.2 with ⟨n, hlabel⟩
    rcases hs.owned.free hlabel with ⟨heap, hfree, howned⟩
    have hstart := free_poolStart hfree
    refine ⟨{ x.state with heap := heap }, _, by rw [hfree]; rfl,
      ⟨howned, ?_, hs.unused, ?_⟩, rfl⟩
    · dsimp only
      rw [hstart]
      exact hs.pool_pos
    · intro i hi
      have hslot := hs.used i hi
      refine ⟨?_, hslot.holds⟩
      have hne : (x.state.cachedBlock i).buffer ≠ x.tmp := by
        intro hsame
        have howner := hslot.owned
        rw [hsame, hlabel] at howner
        cases howner
      dsimp only
      rw [Function.update_of_ne hne]
      exact hslot.owned
  · rw [if_neg h]
    exact ⟨x.state, label, rfl, hs, rfl⟩

end Ownership

end Fs
end Rmmtos
