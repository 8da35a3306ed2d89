import Rmmtos.Kernel.HeapStart

/-!
# Runs of the kernel heap

{lit}`malloc_init` cuts the pool into zones that fit it, and every history of
{lit}`malloc` and {lit}`free` keeps the live blocks apart.
-/

namespace Rmmtos
namespace Kernel

open Library Zones

/-!
# Start-up
-/

theorem mallocInit_spec {start finish : Word} (hle : start ≤ finish)
    (hhigh : finish ≤ 0xf000)
    (hroom : fixedBytes ≤ finish.toNat - start.toNat) :
    exists k m, mallocInit Heap.boot start finish = .ok (initHeap start k m) ∧
      initBytes k m ≤ finish.toNat - start.toNat ∧
      6 * k + m + 13 ≤ bitmapSize * 8 := by
  have hpool : (finish - start).toNat = finish.toNat - start.toNat :=
    BitVec.toNat_sub_of_le hle
  have hmax : finish.toNat ≤ 61440 := hhigh
  rw [← hpool] at hroom ⊢
  exact mallocInit_fits hroom (by unfold wrappedBytes; omega)

theorem initHeap_inv {start finish : Word} {k m : Nat}
    (hfits : initBytes k m ≤ finish.toNat - start.toNat)
    (hhigh : finish ≤ 0xf000) (hblocks : 6 * k + m + 13 ≤ bitmapSize * 8) :
    HeapInv (initHeap start k m) := by
  have hmax : finish.toNat ≤ 61440 := hhigh
  have htable := initHeap_table start hblocks (by omega)
  have hlow : fixedBytes ≤ initBytes k m := by
    unfold initBytes
    omega
  constructor
  · exact htable.sizes_pos
  · exact htable.sizes_sorted
  · exact htable.totalBlocks_eq
  · rw [initHeap_bytes start (by omega)]
    exact ofNat_toNat_of_lt (by omega)
  · exact htable.blocks_fit
  · rw [initHeap_bytes start (by omega)]
    unfold fixedBytes at hlow
    change start.toNat + _ < _
    omega
  · exact (initHeap_accounts start k m).taken_lt
  · exact (initHeap_accounts start k m).usedBytes_eq

/-!
# Histories

A history records next to the heap the live allocations, each with the address
that {lit}`malloc` returned and the size that was asked for.
-/

structure Allocation where
  address : Word
  asked : Word
deriving DecidableEq, Repr

structure HeapRun where
  heap : Heap
  live : List Allocation

inductive HeapStep : HeapRun -> HeapRun -> Prop where
  | malloc {s : HeapRun} {size address : Word} {h : Heap} :
      malloc s.heap size = .ok (address, h) ->
      HeapStep s ⟨h, ⟨address, size⟩ :: s.live⟩
  | free {s : HeapRun} {a : Allocation} {h : Heap} :
      a ∈ s.live -> free s.heap a.address = .ok h ->
      HeapStep s ⟨h, s.live.erase a⟩

def Heap.blockAt (h : Heap) (address : Word) : Nat :=
  blockIndex h.layout (address.toNat - h.poolStart.toNat)

def Heap.capacity (h : Heap) (address : Word) : Nat :=
  blockSize h.layout (h.blockAt address)

def Apart (h : Heap) (p q : Word) : Prop :=
  p.toNat + h.capacity p ≤ q.toNat ∨ q.toNat + h.capacity q ≤ p.toNat

/-- What the heap promises its users in one state of a history. -/
structure HeapSound (start finish : Word) (s : HeapRun) : Prop where
  pool : s.heap.poolStart = start ∧
    start.toNat + s.heap.totalBytes.toNat ≤ finish.toNat
  disjoint : s.live.Pairwise (fun a b => Apart s.heap a.address b.address)
  inside : forall a, a ∈ s.live -> start.toNat ≤ a.address.toNat ∧
    a.address.toNat + s.heap.capacity a.address ≤
      start.toNat + s.heap.totalBytes.toNat
  large : forall a, a ∈ s.live ->
    a.asked.toNat ≤ s.heap.capacity a.address
  fresh : forall size address h, malloc s.heap size = .ok (address, h) ->
    forall a, a ∈ s.live -> a.address ≠ address
  bits : forall b, s.heap.taken b = true <->
    exists a, a ∈ s.live ∧ s.heap.blockAt a.address = b
  used : s.heap.usedBytes.toNat =
    (s.live.map fun a => s.heap.capacity a.address).sum
  release : forall a, a ∈ s.live -> exists h,
    free s.heap a.address = .ok h ∧ h.zones = s.heap.zones ∧
      forall b, h.taken b = true <->
        s.heap.taken b = true ∧ b ≠ s.heap.blockAt a.address
  inverse : forall b : Word, b < s.heap.totalBlocks -> exists a' b' z,
    offsetZone s.heap.zones
        ((blockAddress s.heap.zones 0 b s.heap.poolStart).1 -
          s.heap.poolStart) 0 = some (a', b', z) ∧
      b' + a' / z.size = b

/-- The invariant of a history: the live allocations are the taken blocks. -/
structure HeapRunInv (start finish : Word) (s : HeapRun) : Prop where
  heap : HeapInv s.heap
  pool : s.heap.poolStart = start ∧
    start.toNat + s.heap.totalBytes.toNat ≤ finish.toNat
  live_nodup : (s.live.map Allocation.address).Nodup
  live_taken : forall a, a ∈ s.live -> exists b,
    s.heap.taken b = true ∧ a.address = s.heap.address b ∧
      a.asked.toNat ≤ blockSize s.heap.layout b
  taken_live : forall b, s.heap.taken b = true ->
    exists a, a ∈ s.live ∧ a.address = s.heap.address b
  used : s.heap.usedBytes.toNat =
    (s.live.map fun a => s.heap.capacity a.address).sum

theorem blockAt_address {h : Heap} (hinv : HeapInv h) {b : Nat}
    (hb : b < blockCount h.layout) : h.blockAt (h.address b) = b := by
  unfold Heap.blockAt
  rw [address_toNat hinv hb, Nat.add_sub_cancel_left]
  exact blockIndex_blockStart hinv.sizes_pos hb

theorem capacity_address {h : Heap} (hinv : HeapInv h) {b : Nat}
    (hb : b < blockCount h.layout) :
    h.capacity (h.address b) = blockSize h.layout b := by
  unfold Heap.capacity
  rw [blockAt_address hinv hb]

theorem apart_address {h : Heap} (hinv : HeapInv h) {b c : Nat}
    (hb : b < blockCount h.layout) (hc : c < blockCount h.layout)
    (hne : b ≠ c) : Apart h (h.address b) (h.address c) := by
  unfold Apart
  rw [capacity_address hinv hb, capacity_address hinv hc,
    address_toNat hinv hb, address_toNat hinv hc]
  rcases Nat.lt_or_gt_of_ne hne with hlt | hgt
  · left
    have hend := blockEnd_le_blockStart hlt hc
    omega
  · right
    have hend := blockEnd_le_blockStart hgt hb
    omega

theorem heapRunInv_malloc {start finish : Word} {s : HeapRun}
    (hs : HeapRunInv start finish s) {size address : Word} {h : Heap}
    (hrun : malloc s.heap size = .ok (address, h)) :
    HeapRunInv start finish ⟨h, ⟨address, size⟩ :: s.live⟩ := by
  rcases malloc_block hs.heap.zoneTable hrun with ⟨b, hskip, hb, hfree, rfl, rfl⟩
  have hlarge : size.toNat ≤ blockSize s.heap.layout b :=
    le_blockSize_of_sorted hs.heap.sizes_sorted hskip hb
  have hnew : forall a, a ∈ s.live -> a.address ≠ s.heap.address b := by
    intro a ha hab
    rcases hs.live_taken a ha with ⟨c, hc, hca, _⟩
    have hcb := address_injective hs.heap.table (hs.heap.taken_lt c hc) hb
      (by rw [← hca, hab])
    rw [hcb, hfree] at hc
    exact Bool.noConfusion hc
  constructor
  · exact take_inv hs.heap hb hfree
  · exact hs.pool
  · refine List.nodup_cons.mpr ⟨?_, hs.live_nodup⟩
    intro hmem
    rcases List.mem_map.mp hmem with ⟨a, ha, hab⟩
    exact hnew a ha hab
  · intro a ha
    rcases List.mem_cons.mp ha with rfl | ha
    · exact ⟨b, by simp [take_taken], rfl, hlarge⟩
    · rcases hs.live_taken a ha with ⟨c, hc, hca, hsize⟩
      exact ⟨c, by simp [take_taken, hc], hca, hsize⟩
  · intro c hc
    rw [take_taken, Bool.or_eq_true, decide_eq_true_eq] at hc
    rcases hc with hc | rfl
    · rcases hs.taken_live c hc with ⟨a, ha, hac⟩
      exact ⟨a, by simp [ha], hac⟩
    · exact ⟨⟨s.heap.address c, size⟩, by simp, rfl⟩
  · have hcap : (s.heap.take b).capacity (s.heap.address b) =
        blockSize s.heap.layout b :=
      capacity_address hs.heap hb
    have hle := takenBytes_le (s.heap.take b)
    have hadd := takenBytes_take hb hfree
    have hused := (take_inv hs.heap hb hfree).usedBytes_eq
    have hbefore := hs.heap.usedBytes_eq
    rw [hused, hadd, ← hbefore, hs.used]
    simp only [List.map_cons, List.sum_cons, hcap]
    exact Nat.add_comm _ _

theorem heapRunInv_free {start finish : Word} {s : HeapRun}
    (hs : HeapRunInv start finish s) {a : Allocation} (ha : a ∈ s.live)
    {h : Heap} (hrun : free s.heap a.address = .ok h) :
    HeapRunInv start finish ⟨h, s.live.erase a⟩ := by
  rcases hs.live_taken a ha with ⟨b, hb, hab, _⟩
  have hlt := hs.heap.taken_lt b hb
  rw [hab, free_address hs.heap.table hlt] at hrun
  cases hrun
  have hnodup : s.live.Nodup := List.Nodup.of_map _ hs.live_nodup
  have hother : forall a', a' ∈ s.live.erase a ->
      a'.address ≠ s.heap.address b := by
    intro a' ha' heq
    rcases (List.Nodup.mem_erase_iff hnodup).mp ha' with ⟨hne, hmem⟩
    exact hne (List.inj_on_of_nodup_map hs.live_nodup hmem ha
      (by rw [heq, hab]))
  constructor
  · exact release_inv hs.heap hb
  · exact hs.pool
  · exact hs.live_nodup.sublist (List.erase_sublist.map _)
  · intro a' ha'
    rcases hs.live_taken a' (List.mem_of_mem_erase ha') with
      ⟨c, hc, hca, hsize⟩
    have hne : c ≠ b := by
      intro hcb
      exact hother a' ha' (by rw [hca, hcb])
    exact ⟨c, by simp [release_taken, hc, hne], hca, hsize⟩
  · intro c hc
    have hne : c ≠ b := by
      intro hcb
      simp [hcb, release_taken, hb] at hc
    have hc' : s.heap.taken c = true := by
      simpa [release_taken, hne] using hc
    rcases hs.taken_live c hc' with ⟨a', ha', hac⟩
    refine ⟨a', (List.Nodup.mem_erase_iff hnodup).mpr ⟨?_, ha'⟩, hac⟩
    intro heq
    apply hne
    apply address_injective hs.heap.table (hs.heap.taken_lt c hc') hlt
    rw [← hac, heq, hab]
  · have hsub := takenBytes_release hlt hb
    have hused := (release_inv hs.heap hb).usedBytes_eq
    have hbefore := hs.heap.usedBytes_eq
    have hsum : (s.live.map fun a => s.heap.capacity a.address).sum =
        s.heap.capacity a.address +
          ((s.live.erase a).map fun a => s.heap.capacity a.address).sum :=
      (List.sum_map_erase _ ha).symm
    rw [hab, capacity_address hs.heap hlt] at hsum
    have hrest := hs.used
    change (s.heap.release b).usedBytes.toNat =
      ((s.live.erase a).map fun a => s.heap.capacity a.address).sum
    omega

theorem heapRunInv_step {start finish : Word} {s s' : HeapRun}
    (hs : HeapRunInv start finish s) (hstep : HeapStep s s') :
    HeapRunInv start finish s' := by
  cases hstep with
  | malloc hrun => exact heapRunInv_malloc hs hrun
  | free ha hrun => exact heapRunInv_free hs ha hrun

theorem heapSound_of_inv {start finish : Word} {s : HeapRun}
    (hs : HeapRunInv start finish s) : HeapSound start finish s := by
  have hblock : forall a, a ∈ s.live -> exists b,
      b < blockCount s.heap.layout ∧ s.heap.taken b = true ∧
        a.address = s.heap.address b ∧ s.heap.blockAt a.address = b ∧
        s.heap.capacity a.address = blockSize s.heap.layout b ∧
        a.asked.toNat ≤ blockSize s.heap.layout b := by
    intro a ha
    rcases hs.live_taken a ha with ⟨b, hb, hab, hsize⟩
    have hlt := hs.heap.taken_lt b hb
    refine ⟨b, hlt, hb, hab, ?_, ?_, hsize⟩
    · rw [hab, blockAt_address hs.heap hlt]
    · rw [hab, capacity_address hs.heap hlt]
  constructor
  · exact hs.pool
  · have hpair := List.pairwise_map.mp hs.live_nodup
    apply hpair.imp_of_mem
    intro a a' ha ha' hne
    rcases hblock a ha with ⟨b, hb, _, hab, _⟩
    rcases hblock a' ha' with ⟨c, hc, _, hac, _⟩
    rw [hab, hac]
    apply apart_address hs.heap hb hc
    intro hbc
    exact hne (by rw [hab, hac, hbc])
  · intro a ha
    rcases hblock a ha with ⟨b, hb, _, hab, _, hcap, _⟩
    have hend := blockEnd_le_byteCount hb
    have htotal := hs.heap.totalBytes_eq
    have hnat := address_toNat hs.heap hb
    rw [hcap, hab, hnat, hs.pool.1]
    omega
  · intro a ha
    rcases hblock a ha with ⟨b, _, _, _, _, hcap, hsize⟩
    rw [hcap]
    exact hsize
  · intro size address h hrun a ha
    have hinv := heapRunInv_malloc hs hrun
    intro heq
    have hnodup := List.nodup_cons.mp hinv.live_nodup
    exact hnodup.1 (List.mem_map.mpr ⟨a, ha, heq⟩)
  · intro b
    constructor
    · intro hb
      rcases hs.taken_live b hb with ⟨a, ha, hab⟩
      refine ⟨a, ha, ?_⟩
      rw [hab, blockAt_address hs.heap (hs.heap.taken_lt b hb)]
    · rintro ⟨a, ha, rfl⟩
      rcases hblock a ha with ⟨b, _, htaken, _, hat, _, _⟩
      rw [hat]
      exact htaken
  · exact hs.used
  · intro a ha
    rcases hblock a ha with ⟨b, hb, htaken, hab, hat, _, _⟩
    refine ⟨s.heap.release b, by rw [hab, free_address hs.heap.table hb], rfl, ?_⟩
    intro c
    rw [hat, release_taken]
    by_cases hcb : c = b
    · simp [hcb, htaken]
    · simp [hcb]
  · intro b hb
    have hlt : b.toNat < blockCount s.heap.layout := by
      rw [← hs.heap.totalBlocks_eq]
      exact hb
    rcases offsetZone_address hs.heap.table hlt with ⟨a', b', z, hsome, hindex, _⟩
    refine ⟨a', b', z, ?_, BitVec.eq_of_toNat_eq hindex⟩
    rw [blockAddress_eq hs.heap.zoneTable hlt]
    exact hsome

/-- The kernel heap keeps its live blocks apart, inside the pool and large
enough, with exactly their bits set, through every history. -/
theorem kernel_heap_sound (start finish : Word) (hle : start ≤ finish)
    (hhigh : finish ≤ 0xf000)
    (hroom : fixedBytes ≤ finish.toNat - start.toNat) :
    exists h, mallocInit Heap.boot start finish = .ok h ∧
      forall s, Reachable (fun s => s = ⟨h, []⟩) HeapStep s ->
        HeapSound start finish s := by
  rcases mallocInit_spec hle hhigh hroom with ⟨k, m, hrun, hfits, hfew⟩
  refine ⟨initHeap start k m, hrun, fun s hs => ?_⟩
  have hinv : HeapInv (initHeap start k m) := initHeap_inv hfits hhigh hfew
  have hmax : finish.toNat ≤ 61440 := hhigh
  apply heapSound_of_inv
  apply hs.invariant
  · rintro s rfl
    refine ⟨hinv, ⟨rfl, ?_⟩, List.nodup_nil, by simp, ?_, rfl⟩
    · change start.toNat + (BitVec.ofNat 16 (initBytes k m)).toNat ≤ _
      have hle' : start.toNat ≤ finish.toNat := hle
      rw [ofNat_toNat_of_lt (by omega)]
      omega
    · intro b hb
      rw [initHeap_clear] at hb
      exact Bool.noConfusion hb
  · intro s s' hs hstep
    exact heapRunInv_step hs hstep

theorem kernel_heap_sound_at_9000 :
    exists h, mallocInit Heap.boot 0x9000 0xf000 = .ok h ∧
      forall s, Reachable (fun s => s = ⟨h, []⟩) HeapStep s ->
        HeapSound 0x9000 0xf000 s :=
  kernel_heap_sound 0x9000 0xf000 (by decide) (by decide) (by decide)

end Kernel
end Rmmtos
