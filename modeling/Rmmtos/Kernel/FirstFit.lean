import Rmmtos.Kernel.HeapCalls

/-!
# The choice of a block

{lit}`malloc` passes over full bytes of the bitmap and over single taken
blocks.  It chooses the block that a scan of the single bits would choose.
-/

namespace Rmmtos
namespace Kernel

open Library Zones

def Heap.largeBlocks (h : Heap) (size : Word) : List Nat :=
  List.range' (blockCount (h.layout.takeWhile fun z => z.size < size.toNat))
    (blockCount (h.layout.dropWhile fun z => z.size < size.toNat))

/-- The scan of the bitmap, one bit after the other. -/
def Heap.plainScan (h : Heap) (size : Word) : Option Nat :=
  (h.largeBlocks size).find? fun b => !h.taken b

structure FirstFit (h : Heap) (size : Word) : Prop where
  chosen : malloc h size =
    match h.plainScan size with
    | some b => .ok (h.address b, h.take b)
    | none => panic .outOfMem
  lowest : forall b, h.plainScan size = some b <->
    IsLeast {b | b ∈ h.largeBlocks size ∧ h.taken b = false} b
  panics : malloc h size = panic .outOfMem <->
    forall b, b ∈ h.largeBlocks size -> h.taken b = true
  skipped : exists b, scanBytes h (skipZones size h.zones 0) = .ok b ∧
    forall c, c ∈ h.largeBlocks size -> c < b.toNat -> h.taken c = true
  large : forall b, b ∈ h.largeBlocks size ->
    b < blockCount h.layout ∧ size.toNat ≤ blockSize h.layout b

theorem mem_largeBlocks {h : Heap} {size : Word} {b : Nat} :
    b ∈ h.largeBlocks size <->
      skipCount size.toNat h.layout ≤ b ∧ b < blockCount h.layout := by
  have hsplit := blockCount_append
    (h.layout.takeWhile fun z => z.size < size.toNat)
    (h.layout.dropWhile fun z => z.size < size.toNat)
  rw [List.takeWhile_append_dropWhile] at hsplit
  unfold Heap.largeBlocks
  rw [List.mem_range'_1, skipCount_eq, hsplit]

theorem plainScan_eq_some {h : Heap} {size : Word} {b : Nat} :
    h.plainScan size = some b <->
      (b ∈ h.largeBlocks size ∧ h.taken b = false) ∧
        forall c, c ∈ h.largeBlocks size -> c < b -> h.taken c = true := by
  unfold Heap.plainScan Heap.largeBlocks
  rw [List.find?_range'_eq_some]
  simp only [Bool.not_eq_eq_eq_not, Bool.not_true, Bool.not_not,
    List.mem_range'_1]
  constructor
  · rintro ⟨hfree, hmem, hbefore⟩
    exact ⟨⟨hmem, hfree⟩, fun c hc hcb => hbefore c hc.1 hcb⟩
  · rintro ⟨⟨hmem, hfree⟩, hbefore⟩
    exact ⟨hfree, hmem, fun c hc hcb =>
      hbefore c ⟨hc, Nat.lt_trans hcb hmem.2⟩ hcb⟩

theorem plainScan_eq_none {h : Heap} {size : Word} :
    h.plainScan size = none <->
      forall b, b ∈ h.largeBlocks size -> h.taken b = true := by
  unfold Heap.plainScan
  rw [List.find?_eq_none]
  simp only [Bool.not_eq_true, Bool.not_eq_false']

theorem plainScan_isLeast {h : Heap} {size : Word} (b : Nat) :
    h.plainScan size = some b <->
      IsLeast {b | b ∈ h.largeBlocks size ∧ h.taken b = false} b := by
  rw [plainScan_eq_some]
  constructor
  · rintro ⟨hfree, hbefore⟩
    refine ⟨hfree, fun c hc => ?_⟩
    by_contra hlt
    have htaken := hbefore c hc.1 (Nat.lt_of_not_le hlt)
    exact Bool.false_ne_true (hc.2.symm.trans htaken)
  · rintro ⟨hfree, hleast⟩
    refine ⟨hfree, fun c hc hlt => ?_⟩
    by_contra htaken
    exact Nat.not_le_of_lt hlt (hleast ⟨hc, Bool.eq_false_iff.mpr htaken⟩)

theorem malloc_plainScan {h : Heap} (htable : ZoneTable h) (size : Word) :
    malloc h size =
      match h.plainScan size with
      | some b => .ok (h.address b, h.take b)
      | none => panic .outOfMem := by
  rcases malloc_eq htable size with
    ⟨b, hskip, hb, hfree, hbefore, heq⟩ | ⟨hall, heq⟩
  · have hscan : h.plainScan size = some b :=
      plainScan_eq_some.mpr ⟨⟨mem_largeBlocks.mpr ⟨hskip, hb⟩, hfree⟩,
        fun c hc hcb => hbefore c (mem_largeBlocks.mp hc).1 hcb⟩
    rw [heq, hscan]
  · have hscan : h.plainScan size = none :=
      plainScan_eq_none.mpr fun b hb =>
        hall b (mem_largeBlocks.mp hb).1 (mem_largeBlocks.mp hb).2
    rw [heq, hscan]

theorem malloc_of_plainScan {h : Heap} (htable : ZoneTable h) {size : Word} {b : Nat}
    (hscan : h.plainScan size = some b) :
    malloc h size = .ok (h.address b, h.take b) := by
  rw [malloc_plainScan htable size, hscan]

theorem scanBytes_skipped {h : Heap} (htable : ZoneTable h) (size : Word) :
    exists b, scanBytes h (skipZones size h.zones 0) = .ok b ∧
      forall c, c ∈ h.largeBlocks size -> c < b.toNat -> h.taken c = true := by
  have htotal := htable.totalBlocks_eq
  have hblocks := htable.blocks_fit
  unfold bitmapSize at hblocks
  rcases scanBytes_spec (h := h) (by omega) (skipZones size h.zones 0) with
    ⟨b, hrun, _, htaken⟩
  refine ⟨b, hrun, fun c hc hcb => htaken c ?_ hcb⟩
  rw [skipZones_toNat (by change 0 + blockCount h.layout < 65536; omega)]
  exact Nat.le_trans (Nat.le_of_eq (Nat.zero_add _)) (mem_largeBlocks.mp hc).1

/-- {lit}`malloc` chooses by plain first fit. -/
theorem malloc_first_fit {h : Heap} (htable : ZoneTable h)
    (hsorted : h.layout.Pairwise fun y z => y.size ≤ z.size) (size : Word) :
    FirstFit h size where
  chosen := malloc_plainScan htable size
  lowest := plainScan_isLeast
  panics := by
    rw [← plainScan_eq_none, malloc_plainScan htable size]
    cases h.plainScan size with
    | none => exact iff_of_true rfl rfl
    | some b => exact iff_of_false nofun nofun
  skipped := scanBytes_skipped htable size
  large := by
    intro b hb
    rcases mem_largeBlocks.mp hb with ⟨hskip, hlt⟩
    exact ⟨hlt, le_blockSize_of_sorted hsorted hskip hlt⟩

/-- A heap of 73 blocks, the first one of the third zone taken. -/
theorem malloc_first_fit_third_zone :
    FirstFit ((initHeap 0x8000 10 0).take 20) 18 := by
  have htable : HeapTable ((initHeap 0x8000 10 0).take 20) :=
    (initHeap_table 0x8000 (by decide) (by decide)).take
  exact malloc_first_fit htable.toZoneTable htable.sizes_sorted 18

end Kernel
end Rmmtos
