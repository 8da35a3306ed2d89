import Rmmtos.Kernel.HeapStart

/-!
# Calls with any pointers

The callers of {lit}`malloc` and {lit}`free` may pass anything.  The zones stay
as they are, so that every block lies where {lit}`malloc_init` has put it, but
the bitmap is right only as long as {lit}`free` is given the addresses of taken
blocks or addresses outside the pool.
-/

namespace Rmmtos
namespace Kernel

open Library Zones

inductive HeapCall where
  | malloc (size : Word)
  | free (block : Word)
deriving DecidableEq, Repr

def heapCall (h : Heap) : HeapCall -> Result Heap
  | .malloc size => malloc h size >>= fun r => .ok r.2
  | .free block => free h block

def HeapCalled (h h' : Heap) : Prop :=
  exists c, heapCall h c = .ok h'

theorem heapCalled_malloc {h h' : Heap} {size p : Word}
    (hrun : malloc h size = .ok (p, h')) : HeapCalled h h' :=
  ⟨.malloc size, ok_bind_iff.mpr ⟨_, hrun, rfl⟩⟩

theorem heapCalled_free {h h' : Heap} {p : Word} (hrun : free h p = .ok h') :
    HeapCalled h h' :=
  ⟨.free p, hrun⟩

def Heap.Outside (h : Heap) (p : Word) : Prop :=
  byteCount h.layout ≤ (p - h.poolStart).toNat

def Heap.Live (h : Heap) (p : Word) : Prop :=
  exists b, b < blockCount h.layout ∧ h.taken b = true ∧ p = h.address b

/-!
# What every call keeps
-/

structure SameZones (h h' : Heap) : Prop where
  zones : h'.zones = h.zones
  totalBlocks : h'.totalBlocks = h.totalBlocks
  poolStart : h'.poolStart = h.poolStart

theorem SameZones.layout {h h' : Heap} (hs : SameZones h h') :
    h'.layout = h.layout :=
  congrArg layoutOf hs.zones

theorem SameZones.address {h h' : Heap} (hs : SameZones h h') (b : Nat) :
    h'.address b = h.address b := by
  unfold Heap.address
  rw [hs.poolStart, hs.layout]

theorem SameZones.table {h h' : Heap} (hs : SameZones h h') (htable : HeapTable h) :
    HeapTable h' := by
  constructor
  · constructor
    · rw [hs.layout, hs.totalBlocks]
      exact htable.totalBlocks_eq
    · rw [hs.layout]
      exact htable.blocks_fit
  · rw [hs.layout]
    exact htable.sizes_pos
  · rw [hs.layout]
    exact htable.sizes_sorted
  · rw [hs.layout]
    exact htable.bytes_fit

theorem HeapTable.take {h : Heap} (htable : HeapTable h) {b : Nat} :
    HeapTable (h.take b) := by
  have hsame : SameZones h (h.take b) := ⟨rfl, rfl, rfl⟩
  exact hsame.table htable

theorem SameZones.trans {h h' h'' : Heap} (hs : SameZones h h')
    (hs' : SameZones h' h'') : SameZones h h'' :=
  ⟨hs'.zones.trans hs.zones, hs'.totalBlocks.trans hs.totalBlocks,
    hs'.poolStart.trans hs.poolStart⟩

/-- What {lit}`free` does with an address in the pool: the bit of the block that
holds the address is inverted. -/
theorem free_inside {h : Heap} (htable : HeapTable h) {p : Word}
    (hp : ¬ h.Outside p) :
    exists b, b < blockCount h.layout ∧ free h p = .ok (h.release b) := by
  have hlt : (p - h.poolStart).toNat < byteCount h.layout := Nat.lt_of_not_le hp
  have hblocks := htable.blocks_fit
  unfold bitmapSize at hblocks
  rcases offsetZone_spec h.zones (p - h.poolStart) 0 hlt htable.sizes_pos
    (by change 0 + blockCount h.layout < 65536; omega) htable.bytes_fit with
    ⟨a, b, z, hsome, hindex, hsize⟩
  have hzsize : z.size = BitVec.ofNat 16 z.size.toNat := by
    rw [BitVec.ofNat_toNat, BitVec.setWidth_eq]
  refine ⟨_, blockIndex_lt hlt, ?_⟩
  have hblock : (b + a / z.size).toNat =
      blockIndex h.layout (p - h.poolStart).toNat :=
    hindex.trans (Nat.zero_add _)
  unfold free
  simp only [hsome, hblock, Heap.release]
  rw [hzsize, hsize]
  rfl

theorem free_outside {h : Heap} {p : Word} (hp : h.Outside p) :
    free h p = panic .invalidFree := by
  unfold free
  rw [offsetZone_none h.zones _ 0 hp]

theorem heapCalled_same {h h' : Heap} (htable : HeapTable h)
    (hcall : HeapCalled h h') : SameZones h h' := by
  rcases hcall with ⟨c, hcall⟩
  cases c with
  | malloc size =>
      rcases ok_bind_iff.mp hcall with ⟨r, hmalloc, hr⟩
      cases hr
      rcases malloc_block htable.toZoneTable hmalloc with ⟨b, _, _, _, _, htake⟩
      rw [htake]
      exact ⟨rfl, rfl, rfl⟩
  | free block =>
      change free h block = .ok h' at hcall
      by_cases hp : h.Outside block
      · rw [free_outside hp] at hcall
        cases hcall
      · rcases free_inside htable hp with ⟨b, _, heq⟩
        rw [heq] at hcall
        cases hcall
        exact ⟨rfl, rfl, rfl⟩

theorem reached_same {h h' : Heap} (htable : HeapTable h)
    (hreached : Reachable (fun s => s = h) HeapCalled h') : SameZones h h' := by
  refine hreached.invariant ?_ ?_
  · rintro s rfl
    exact ⟨rfl, rfl, rfl⟩
  · intro s s' hs hcall
    exact hs.trans (heapCalled_same (hs.table htable) hcall)

/-!
# The heap and its pool
-/

/-- The heap lies in its pool, and so does every block that it may give away. -/
structure HeapFits (start finish : Word) (h : Heap) : Prop where
  totalBytes_eq : h.totalBytes.toNat = byteCount h.layout
  bytes_fit : byteCount h.layout ≤ finish.toNat - start.toNat
  blocks_fit : h.totalBlocks.toNat ≤ bitmapSize * 8
  inside : forall h', Reachable (fun s => s = h) HeapCalled h' ->
    forall size p h'', malloc h' size = .ok (p, h'') ->
      exists b, b < blockCount h'.layout ∧ p = h'.address b ∧
        start.toNat ≤ p.toNat ∧ p.toNat + blockSize h'.layout b ≤ finish.toNat

/-- {lit}`malloc_init` panics or leaves a heap that fits its pool. -/
def PoolFits (start finish : Word) : Prop :=
  (exists reason, mallocInit Heap.boot start finish = panic reason) ∨
    exists h, mallocInit Heap.boot start finish = .ok h ∧ HeapFits start finish h

theorem address_inside {start finish : Word} {h : Heap} (hstart : h.poolStart = start) (hle : start ≤ finish)
    (hbytes : byteCount h.layout ≤ finish.toNat - start.toNat) {b : Nat}
    (hb : b < blockCount h.layout) :
    start.toNat ≤ (h.address b).toNat ∧
      (h.address b).toNat + blockSize h.layout b ≤ finish.toNat := by
  have hend := blockEnd_le_byteCount hb
  have hfinish := finish.isLt
  have hnat : start.toNat ≤ finish.toNat := hle
  have hoffset : (BitVec.ofNat 16 (blockStart h.layout b)).toNat =
      blockStart h.layout b := by
    rw [BitVec.toNat_ofNat]
    omega
  have haddress : (h.address b).toNat = start.toNat + blockStart h.layout b := by
    unfold Heap.address
    rw [hstart, BitVec.toNat_add_of_lt (by rw [hoffset]; omega), hoffset]
  omega

theorem initHeap_fits {start finish : Word} {k m : Nat} (hle : start ≤ finish)
    (hbytes : initBytes k m ≤ finish.toNat - start.toNat)
    (hblocks : 6 * k + m + 13 ≤ bitmapSize * 8) :
    HeapFits start finish (initHeap start k m) := by
  have hfinish := finish.isLt
  have hsmall : initBytes k m < 65536 := by
    omega
  have htable := initHeap_table start hblocks hsmall
  have hcount := initHeap_bytes start hsmall
  constructor
  · rw [hcount]
    exact ofNat_toNat_of_lt hsmall
  · rw [hcount]
    exact hbytes
  · rw [htable.totalBlocks_eq]
    exact htable.blocks_fit
  · intro h' hreached size p h'' hmalloc
    have hsame := reached_same htable hreached
    have htable' := hsame.table htable
    rcases malloc_block htable'.toZoneTable hmalloc with ⟨b, _, hb, _, rfl, _⟩
    refine ⟨b, hb, rfl, address_inside hsame.poolStart hle ?_ hb⟩
    rw [hsame.layout, hcount]
    exact hbytes

theorem poolFits_small {start finish : Word} (hle : start ≤ finish)
    (hsmall : finish.toNat - start.toNat < fixedBytes) : ¬ PoolFits start finish := by
  rw [← BitVec.toNat_sub_of_le hle] at hsmall
  have hinit := mallocInit_small (Nat.lt_add_right 4 hsmall)
  rintro (⟨reason, hpanic⟩ | ⟨h, hrun, hfits⟩)
  · rw [hinit] at hpanic
    cases hpanic
  · rw [hinit] at hrun
    cases hrun
    have hbytes := hfits.bytes_fit
    rw [initHeap_bytes start (by decide), ← BitVec.toNat_sub_of_le hle] at hbytes
    exact Nat.not_lt_of_le hbytes hsmall

theorem poolFits_large {start finish : Word} (hle : start ≤ finish)
    (hlarge : largestBytes ≤ finish.toNat - start.toNat) : ¬ PoolFits start finish := by
  rw [← BitVec.toNat_sub_of_le hle] at hlarge
  have hinit := mallocInit_hangs hlarge
  rintro (⟨reason, hpanic⟩ | ⟨h, hrun, _⟩)
  · rw [hinit] at hpanic
    cases hpanic
  · rw [hinit] at hrun
    cases hrun

/-- The heap fits a pool that holds the fixed zones and is smaller than the
largest sum of the first loop, and no other. -/
theorem malloc_init_fits_iff {start finish : Word} (hle : start ≤ finish) :
    PoolFits start finish <->
      fixedBytes ≤ finish.toNat - start.toNat ∧
        finish.toNat - start.toNat < largestBytes := by
  have hpool : (finish - start).toNat = finish.toNat - start.toNat :=
    BitVec.toNat_sub_of_le hle
  constructor
  · intro hfits
    constructor
    · exact Nat.le_of_not_lt fun hsmall => poolFits_small hle hsmall hfits
    · exact Nat.lt_of_not_le fun hlarge => poolFits_large hle hlarge hfits
  · rintro ⟨hlow, hhigh⟩
    rw [← hpool] at hlow hhigh
    rcases Nat.lt_or_ge (finish - start).toNat wrappedBytes with hfits | hwraps
    · rcases mallocInit_fits hlow hfits with ⟨k, m, hrun, hbytes, hblocks⟩
      rw [hpool] at hbytes
      exact Or.inr ⟨_, hrun, initHeap_fits hle hbytes hblocks⟩
    · exact Or.inl ⟨_, mallocInit_wraps hwraps hhigh⟩

/-- The pool that {lit}`main` leaves for the heap when the kernel ends at 0x9000. -/
theorem malloc_init_fits_at_9000 :
    PoolFits 0x9000 0xf000 <->
      fixedBytes ≤ (0xf000 : Word).toNat - (0x9000 : Word).toNat ∧
        (0xf000 : Word).toNat - (0x9000 : Word).toNat < largestBytes :=
  malloc_init_fits_iff (by decide)

/-- A pool of one page: the fixed zones alone are six times as large. -/
theorem small_pool_overrun :
    ¬ forall start finish : Word, start ≤ finish -> PoolFits start finish := by
  intro hall
  have hle : (0xe000 : Word) ≤ 0xf000 := by
    decide
  exact poolFits_small hle (by decide) (hall 0xe000 0xf000 hle)

/-!
# Wrong pointers
-/

/-- {lit}`free` panics or changes neither the bitmap nor {lit}`used_bytes`. -/
def FreeHarmless (h : Heap) (p : Word) : Prop :=
  (exists reason, free h p = panic reason) ∨
    exists h', free h p = .ok h' ∧ h'.bitmap = h.bitmap ∧ h'.usedBytes = h.usedBytes

/-- {lit}`free` of this address marks no free block as taken, and does no harm
when the address is that of no taken block. -/
structure FreeSound (h : Heap) (p : Word) : Prop where
  harmless : ¬ h.Live p -> FreeHarmless h p
  marks : forall h', free h p = .ok h' -> forall b, h'.taken b = true -> h.taken b = true

/-- A call whose pointer, if it has one, is that of a taken block or lies
outside the pool. -/
def HeapCall.Proper (h : Heap) : HeapCall -> Prop
  | .malloc _ => True
  | .free block => h.Live block ∨ h.Outside block

def ProperlyCalled (h h' : Heap) : Prop :=
  exists c : HeapCall, c.Proper h ∧ heapCall h c = .ok h'

/-- What accounting promises in one state. -/
structure AccountsKept (h : Heap) : Prop where
  used : h.usedBytes.toNat = h.takenBytes
  marked : forall b, h.taken b = true -> b < blockCount h.layout
  sound : forall p, h.Live p ∨ h.Outside p -> FreeSound h p

theorem free_live {h : Heap} (htable : HeapTable h) {p : Word} (hp : h.Live p) :
    exists b, h.taken b = true ∧ free h p = .ok (h.release b) := by
  rcases hp with ⟨b, hb, htaken, rfl⟩
  exact ⟨b, htaken, free_address htable hb⟩

theorem release_marks {h : Heap} {b c : Nat} (htaken : h.taken b = true)
    (hc : (h.release b).taken c = true) : h.taken c = true := by
  rw [release_taken] at hc
  by_cases hcb : c = b
  · rw [hcb]
    exact htaken
  · rw [decide_eq_false hcb, Bool.xor_false] at hc
    exact hc

/-- Giving back an address that is none of a taken block is harmless outside
the pool only. -/
theorem freeHarmless_iff {h : Heap} (htable : HeapTable h) (p : Word) :
    FreeHarmless h p <-> h.Outside p := by
  constructor
  · intro hharmless
    by_contra hp
    rcases free_inside htable hp with ⟨b, _, heq⟩
    rcases hharmless with ⟨reason, hpanic⟩ | ⟨h', hrun, hbitmap, _⟩
    · rw [heq] at hpanic
      cases hpanic
    · rw [heq] at hrun
      cases hrun
      have hbit : (h.release b).taken b = h.taken b :=
        congrArg (fun bitmap => bitAt bitmap b) hbitmap
      rw [release_taken, decide_eq_true rfl, Bool.xor_true] at hbit
      exact Bool.not_ne_self _ hbit
  · intro hp
    exact Or.inl ⟨_, free_outside hp⟩

theorem freeSound_of_proper {h : Heap} (htable : HeapTable h) {p : Word}
    (hp : h.Live p ∨ h.Outside p) : FreeSound h p := by
  constructor
  · intro hlive
    exact (freeHarmless_iff htable p).mpr (hp.resolve_left hlive)
  · intro h' hrun b hb
    rcases hp with hp | hp
    · rcases free_live htable hp with ⟨c, htaken, heq⟩
      rw [heq] at hrun
      cases hrun
      exact release_marks htaken hb
    · rw [free_outside hp] at hrun
      cases hrun

theorem properlyCalled_accounts {h h' : Heap} (htable : HeapTable h)
    (haccounts : HeapAccounts h) (hcall : ProperlyCalled h h') : HeapAccounts h' := by
  rcases hcall with ⟨c, hproper, hcall⟩
  cases c with
  | malloc size =>
      rcases ok_bind_iff.mp hcall with ⟨r, hmalloc, hr⟩
      cases hr
      rcases malloc_block htable.toZoneTable hmalloc with ⟨b, _, hb, hfree, _, htake⟩
      rw [htake]
      exact take_accounts htable haccounts hb hfree
  | free block =>
      change free h block = .ok h' at hcall
      rcases hproper with hlive | houtside
      · rcases free_live htable hlive with ⟨b, htaken, heq⟩
        rw [heq] at hcall
        cases hcall
        exact release_accounts htable haccounts htaken
      · rw [free_outside houtside] at hcall
        cases hcall

/-- In every heap that calls with any pointers lead to, giving back an address
that is none of a taken block is harmless exactly outside the pool.  In every
heap that calls with proper pointers lead to the accounts are kept. -/
theorem wrong_free_harmless_iff (start finish : Word) :
    (forall h, Reachable (fun s => mallocInit Heap.boot start finish = .ok s)
        HeapCalled h ->
      forall p, ¬ h.Live p -> (FreeHarmless h p <-> h.Outside p)) ∧
    forall h, Reachable (fun s => mallocInit Heap.boot start finish = .ok s)
        ProperlyCalled h ->
      AccountsKept h := by
  constructor
  · intro h hreached p _
    refine freeHarmless_iff (hreached.invariant ?_ ?_) p
    · intro s hinit
      exact (mallocInit_ok hinit).1
    · intro s s' htable hcall
      exact (heapCalled_same htable hcall).table htable
  · intro h hreached
    have hkept : HeapTable h ∧ HeapAccounts h := by
      refine hreached.invariant (fun s hinit => mallocInit_ok hinit) ?_
      rintro s s' ⟨htable, haccounts⟩ hcall
      have hcalled : HeapCalled s s' := hcall.imp fun c hc => hc.2
      exact ⟨(heapCalled_same htable hcalled).table htable,
        properlyCalled_accounts htable haccounts hcall⟩
    exact ⟨hkept.2.usedBytes_eq, hkept.2.taken_lt,
      fun p hp => freeSound_of_proper hkept.1 hp⟩

/-- The first block of the heap between 9000 and F000 that has room for 512
bytes. -/
theorem malloc_at_9000 : mallocInit Heap.boot 0x9000 0xf000 =
      .ok (initHeap 0x9000 0 0) ∧ HeapTable (initHeap 0x9000 0 0) ∧
    exists b, b < blockCount (initHeap 0x9000 0 0).layout ∧
      (initHeap 0x9000 0 0).taken b = false ∧
      malloc (initHeap 0x9000 0 0) 512 =
        .ok ((initHeap 0x9000 0 0).address b, (initHeap 0x9000 0 0).take b) := by
  have htable := initHeap_table 0x9000 (k := 0) (m := 0) (by decide) (by decide)
  refine ⟨mallocInit_small (by decide), htable, ?_⟩
  rcases malloc_eq htable.toZoneTable 512 with ⟨b, _, hb, hclear, _, hmalloc⟩ | ⟨htaken, _⟩
  · exact ⟨b, hb, hclear, hmalloc⟩
  · have hfirst := htaken 0 (Nat.zero_le _)
    rw [initHeap_clear, initHeap_blocks 0x9000 (by decide)] at hfirst
    exact absurd (hfirst (by decide)) Bool.false_ne_true

/-- With a block taken and given back, an address in front of the pool is harmless and
the accounts are kept. -/
theorem wrong_free_harmless_iff_at_9000 : exists p h h',
    malloc (initHeap 0x9000 0 0) 512 = .ok (p, h) ∧ free h p = .ok h' ∧
      FreeHarmless h 0x8000 ∧ AccountsKept h' := by
  rcases malloc_at_9000 with ⟨hinit, htable, b, hb, _, hmalloc⟩
  have hfree := free_address (h := (initHeap 0x9000 0 0).take b) (b := b) htable.take hb
  rw [take_address] at hfree
  have hlive : ((initHeap 0x9000 0 0).take b).Live ((initHeap 0x9000 0 0).address b) := by
    refine ⟨b, hb, ?_, rfl⟩
    rw [take_taken, decide_eq_true rfl, Bool.or_true]
  rcases wrong_free_harmless_iff 0x9000 0xf000 with ⟨hwrong, hkept⟩
  have houtside : (initHeap 0x9000 0 0).Outside 0x8000 := by
    unfold Heap.Outside
    decide +kernel
  have hdead : ¬ ((initHeap 0x9000 0 0).take b).Live 0x8000 := by
    rintro ⟨c, hc, _, heq⟩
    rw [take_layout] at hc
    rw [take_address] at heq
    unfold Heap.Outside at houtside
    rw [heq, address_sub htable hc] at houtside
    have hend := blockEnd_le_byteCount hc
    have hsize := blockSize_pos htable.sizes_pos hc
    omega
  refine ⟨_, _, _, hmalloc, hfree, ?_, ?_⟩
  · exact (hwrong _ (.step (.start hinit) (heapCalled_malloc hmalloc)) _ hdead).mpr
      houtside
  · exact hkept _ (.step (.step (.start hinit)
      ⟨.malloc 512, trivial, ok_bind_iff.mpr ⟨_, hmalloc, rfl⟩⟩)
      ⟨.free _, Or.inl hlive, hfree⟩)

/-- A block that is given back twice is marked as taken again. -/
theorem double_free_takes :
    ¬ forall start finish h,
      Reachable (fun s => mallocInit Heap.boot start finish = .ok s) HeapCalled h ->
        forall p, ¬ h.Live p -> FreeHarmless h p := by
  intro hall
  rcases malloc_at_9000 with ⟨hinit, htable, b, hb, hclear, hmalloc⟩
  have hfree := free_address (h := (initHeap 0x9000 0 0).take b) (b := b) htable.take hb
  rw [take_address, take_release hclear] at hfree
  have hreached : Reachable (fun s => mallocInit Heap.boot 0x9000 0xf000 = .ok s)
      HeapCalled (initHeap 0x9000 0 0) :=
    .step (.step (.start hinit) (heapCalled_malloc hmalloc)) (heapCalled_free hfree)
  have hfreed : ¬ (initHeap 0x9000 0 0).Live ((initHeap 0x9000 0 0).address b) := by
    rintro ⟨c, _, htaken, _⟩
    rw [initHeap_clear] at htaken
    cases htaken
  have houtside := (freeHarmless_iff htable _).mp (hall _ _ _ hreached _ hfreed)
  unfold Heap.Outside at houtside
  rw [address_sub htable hb] at houtside
  have hend := blockEnd_le_byteCount hb
  have hsize := blockSize_pos htable.sizes_pos hb
  omega

end Kernel
end Rmmtos
