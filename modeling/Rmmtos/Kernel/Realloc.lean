import Rmmtos.Kernel.FirstFit
import Rmmtos.Memory

/-!
# Moving a block

{lit}`realloc` copies as many bytes as the new block is asked for, from the old
block and from whatever lies behind it.  The old block's bytes are copied
before anything of them is written, since the two blocks do not meet.
-/

namespace Rmmtos
namespace Kernel

open Library Zones

def realloc (h : Heap) (m : Mem) (block newSize : Word) :
    Result (Word × Heap × Mem) := do
  let (newBlock, h) ← malloc h newSize
  if newBlock ≠ 0 then
    let m := memcpy m newBlock block newSize
    let h ← free h block
    .ok (newBlock, h, m)
  else .ok (newBlock, h, m)

def Heap.blockByte (h : Heap) (m : Mem) (b i : Nat) : Byte :=
  peek m kernelSegment (offsetFrom (h.address b) i)

/-- What {lit}`realloc` of block {lit}`b` promises: a new block {lit}`c` that holds
the old bytes, and nothing else changed. -/
structure Moved (h : Heap) (m : Mem) (b : Nat) (newSize : Word) (c : Nat)
    (h' : Heap) (m' : Mem) : Prop where
  differs : c ≠ b ∧ h.address c ≠ h.address b
  isBlock : c < blockCount h.layout
  wasFree : h.taken c = false
  large : newSize.toNat ≤ blockSize h.layout c
  contents : forall i, i < min (blockSize h.layout b) newSize.toNat ->
    h'.blockByte m' c i = h.blockByte m b i
  released : h'.taken b = false
  allocated : h'.taken c = true
  others : forall d, d ≠ b -> d ≠ c -> h'.taken d = h.taken d
  places : forall d, h'.address d = h.address d
  frame : forall d, d < blockCount h.layout -> d ≠ c ->
    forall i, i < blockSize h.layout d -> h'.blockByte m' d i = h.blockByte m d i
  outside : forall x, (forall i, i < newSize.toNat ->
    x ≠ linear kernelSegment (offsetFrom (h.address c) i)) -> m' x = m x

/-- {lit}`realloc` of a live block returns its new block. -/
def ReallocPreserves (h : Heap) (m : Mem) (b : Nat) (newSize : Word) : Prop :=
  exists c h' m', realloc h m (h.address b) newSize = .ok (h.address c, h', m') ∧
    Moved h m b newSize c h' m'

/-!
# Bytes of blocks
-/

theorem blockByte_offset {h : Heap} (htable : HeapTable h) {b i : Nat}
    (hb : b < blockCount h.layout) (hi : i < blockSize h.layout b) :
    (offsetFrom (h.address b) i - h.poolStart).toNat = blockStart h.layout b + i := by
  have hend := blockEnd_le_byteCount hb
  have hfit := htable.bytes_fit
  unfold offsetFrom Heap.address
  rw [BitVec.add_assoc, BitVec.add_comm, BitVec.add_sub_cancel, ← BitVec.ofNat_add,
    BitVec.toNat_ofNat]
  omega

theorem blockBytes_apart {h : Heap} (htable : HeapTable h) {b c i j : Nat}
    (hb : b < blockCount h.layout) (hc : c < blockCount h.layout) (hne : b ≠ c)
    (hi : i < blockSize h.layout b) (hj : j < blockSize h.layout c) :
    offsetFrom (h.address b) i ≠ offsetFrom (h.address c) j := by
  intro heq
  have hsame := blockByte_offset htable hb hi
  rw [heq, blockByte_offset htable hc hj] at hsame
  rcases Nat.lt_or_gt_of_ne hne with hlt | hgt
  · have hend := blockEnd_le_blockStart hlt hc
    omega
  · have hend := blockEnd_le_blockStart hgt hb
    omega

theorem memcpy_at (m : Mem) {dest src count : Word} {i : Nat} (hi : i < count.toNat)
    (hahead : forall j, j < i -> offsetFrom src i ≠ offsetFrom dest j) :
    memcpy m dest src count (linear kernelSegment (offsetFrom dest i)) =
      m (linear kernelSegment (offsetFrom src i)) := by
  have hcount : count.toNat < wordCount := count.isLt
  refine copyRun_at (fun j k hj hk heq => ?_) hi
    fun j hj heq => hahead j hj (linear_injective heq)
  exact offsetFrom_injective (Nat.lt_trans hj hcount) (Nat.lt_trans hk hcount)
    (linear_injective heq)

/-!
# The moved block
-/

theorem realloc_eq {h : Heap} (htable : HeapTable h) (m : Mem) {b c : Nat}
    {newSize : Word} (hb : b < blockCount h.layout)
    (hmalloc : malloc h newSize = .ok (h.address c, h.take c))
    (hnull : h.address c ≠ 0) :
    realloc h m (h.address b) newSize =
      .ok (h.address c, (h.take c).release b,
        memcpy m (h.address c) (h.address b) newSize) := by
  have hfree := free_address (h := h.take c) (b := b) htable.take hb
  rw [take_address] at hfree
  unfold realloc
  simp only [hmalloc, ok_bind, ne_eq, hnull, not_false_eq_true, if_true, hfree]

theorem realloc_null {h h₁ : Heap} {newSize : Word} (m : Mem) (block : Word)
    (hmalloc : malloc h newSize = .ok (0, h₁)) :
    realloc h m block newSize = .ok (0, h₁, m) := by
  unfold realloc
  rw [hmalloc]
  rfl

theorem moved_of_copy {h : Heap} (htable : HeapTable h) (m : Mem) {b c : Nat}
    {newSize : Word} (hb : b < blockCount h.layout) (hlive : h.taken b = true)
    (hc : c < blockCount h.layout) (hfree : h.taken c = false)
    (hlarge : newSize.toNat ≤ blockSize h.layout c) :
    Moved h m b newSize c ((h.take c).release b)
      (memcpy m (h.address c) (h.address b) newSize) := by
  have hne : c ≠ b := by
    intro heq
    rw [heq, hlive] at hfree
    cases hfree
  have hother : forall x, (forall i, i < newSize.toNat ->
      x ≠ linear kernelSegment (offsetFrom (h.address c) i)) ->
      memcpy m (h.address c) (h.address b) newSize x = m x :=
    fun x hx => farmemcpy_other hx
  constructor
  · exact ⟨hne, fun heq => hne (address_injective htable hc hb heq)⟩
  · exact hc
  · exact hfree
  · exact hlarge
  · intro i hi
    rcases lt_min_iff.mp hi with ⟨hold, hnew⟩
    refine memcpy_at m hnew fun j hj => ?_
    exact blockBytes_apart htable hb hc hne.symm hold
      (Nat.lt_of_lt_of_le (Nat.lt_trans hj hnew) hlarge)
  · rw [release_taken, take_taken, hlive, decide_eq_true rfl]
    rfl
  · rw [release_taken, take_taken, decide_eq_true rfl, decide_eq_false hne, Bool.or_true]
    rfl
  · intro d hdb hdc
    rw [release_taken, take_taken, decide_eq_false hdb, decide_eq_false hdc,
      Bool.or_false, Bool.xor_false]
  · intro d
    rfl
  · intro d hd hdc i hi
    refine hother _ fun j hj heq => ?_
    exact blockBytes_apart htable hd hc hdc hi (Nat.lt_of_lt_of_le hj hlarge)
      (linear_injective heq)
  · exact hother

/-- {lit}`realloc` preserves the contents of a live block whenever {lit}`malloc`
gives it another block than the one at address zero. -/
theorem realloc_preserves {h : Heap} (htable : HeapTable h) (m : Mem) {b : Nat}
    {newSize q : Word} {h₁ : Heap} (hb : b < blockCount h.layout)
    (hlive : h.taken b = true) (hmalloc : malloc h newSize = .ok (q, h₁))
    (hnull : q ≠ 0) : ReallocPreserves h m b newSize := by
  rcases malloc_block htable.toZoneTable hmalloc with ⟨c, hskip, hc, hfree, rfl, rfl⟩
  have hlarge := le_blockSize_of_sorted htable.sizes_sorted hskip hc
  exact ⟨c, _, _, realloc_eq htable m hb hmalloc hnull,
    moved_of_copy htable m hb hlive hc hfree hlarge⟩

/-- A block of 18 bytes moves to one of 38 bytes. -/
theorem realloc_preserves_18 :
    ReallocPreserves ((initHeap 0x8000 10 0).take 20) (fun _ => 0) 20 30 := by
  have htable : HeapTable ((initHeap 0x8000 10 0).take 20) :=
    (initHeap_table 0x8000 (by decide) (by decide)).take
  have hmalloc : malloc ((initHeap 0x8000 10 0).take 20) 30 = _ :=
    malloc_of_plainScan htable.toZoneTable (b := 50) (by decide)
  exact realloc_preserves htable _ (by decide) (by decide) hmalloc (by decide)

/-- In a heap that begins at address zero the first block is taken for none: it is
allocated, but nothing is copied to it and the old block stays taken. -/
theorem realloc_to_null :
    ¬ forall start finish h,
      Reachable (fun s => mallocInit Heap.boot start finish = .ok s) HeapCalled h ->
        forall m b newSize q h₁, b < blockCount h.layout -> h.taken b = true ->
          malloc h newSize = .ok (q, h₁) -> ReallocPreserves h m b newSize := by
  intro hall
  have hinit : mallocInit Heap.boot 0 0x6000 = .ok (initHeap 0 0 0) :=
    mallocInit_small (by decide)
  have htable : HeapTable (initHeap 0 0 0) :=
    initHeap_table 0 (by decide) (by decide)
  have htwo : HeapTable (((initHeap 0 0 0).take 0).take 1) := htable.take.take
  have hfirst : malloc (initHeap 0 0 0) 4 = _ :=
    malloc_of_plainScan htable.toZoneTable (b := 0) (by decide)
  have hsecond : malloc ((initHeap 0 0 0).take 0) 4 = _ :=
    malloc_of_plainScan htable.take.toZoneTable (b := 1) (by decide)
  have hfree := free_address (b := 0) htwo (by decide)
  have hreached : Reachable (fun s => mallocInit Heap.boot 0 0x6000 = .ok s) HeapCalled
      ((((initHeap 0 0 0).take 0).take 1).release 0) :=
    .step (.step (.step (.start hinit) (heapCalled_malloc hfirst))
      (heapCalled_malloc hsecond)) (heapCalled_free hfree)
  have htable' := (heapCalled_same htwo (heapCalled_free hfree)).table htwo
  have hnull : ((((initHeap 0 0 0).take 0).take 1).release 0).address 0 = 0 := by
    decide
  have hmalloc : malloc ((((initHeap 0 0 0).take 0).take 1).release 0) 4 = _ :=
    malloc_of_plainScan htable'.toZoneTable (b := 0) (by decide)
  rw [hnull] at hmalloc
  rcases hall 0 0x6000 _ hreached (fun _ => 0) 1 4 _ _ (by decide) (by decide) hmalloc with
    ⟨c, h', m', hrun, hmoved⟩
  rw [realloc_null _ _ hmalloc] at hrun
  have hheap : ((((initHeap 0 0 0).take 0).take 1).release 0).take 0 = h' :=
    congrArg (fun r : Word × Heap × Mem => r.2.1) (Except.ok.inj hrun)
  have hreleased := hmoved.released
  rw [← hheap] at hreleased
  exact absurd hreleased (by decide)

end Kernel
end Rmmtos
