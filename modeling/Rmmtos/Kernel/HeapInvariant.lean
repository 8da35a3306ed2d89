import Rmmtos.Kernel.Malloc

/-!
# The heap invariant

The bitmap, the zone table and the counters of the heap agree.  The word
arithmetic of {lit}`malloc` and {lit}`free` is related to the zoned layout,
and each operation keeps the invariant.
-/

namespace Rmmtos
namespace Kernel

open Library Zones

/-!
# The layout of a heap
-/

def SizeBlock.zone (z : SizeBlock) : Zone :=
  ⟨z.size.toNat, z.count.toNat⟩

def layoutOf (zs : List SizeBlock) : List Zone :=
  zs.map SizeBlock.zone

def Heap.layout (h : Heap) : List Zone :=
  layoutOf h.zones

def Heap.taken (h : Heap) (b : Nat) : Bool :=
  bitAt h.bitmap b

def Heap.takenBytes (h : Heap) : Nat :=
  ∑ b ∈ Finset.range (blockCount h.layout),
    if h.taken b then blockSize h.layout b else 0

def Heap.address (h : Heap) (b : Nat) : Word :=
  h.poolStart + BitVec.ofNat 16 (blockStart h.layout b)

/-- The blocks are counted and the bitmap has room for them. -/
structure ZoneTable (h : Heap) : Prop where
  totalBlocks_eq : h.totalBlocks.toNat = blockCount h.layout
  blocks_fit : blockCount h.layout ≤ bitmapSize * 8

structure HeapTable (h : Heap) : Prop extends ZoneTable h where
  sizes_pos : forall z, z ∈ h.layout -> 0 < z.size
  sizes_sorted : h.layout.Pairwise (fun y z => y.size ≤ z.size)
  bytes_fit : byteCount h.layout < 65536

structure HeapInv (h : Heap) : Prop where
  sizes_pos : forall z, z ∈ h.layout -> 0 < z.size
  sizes_sorted : h.layout.Pairwise (fun y z => y.size ≤ z.size)
  totalBlocks_eq : h.totalBlocks.toNat = blockCount h.layout
  totalBytes_eq : h.totalBytes.toNat = byteCount h.layout
  blocks_fit : blockCount h.layout ≤ bitmapSize * 8
  pool_fits : h.poolStart.toNat + byteCount h.layout < 65536
  taken_lt : forall b, h.taken b = true -> b < blockCount h.layout
  usedBytes_eq : h.usedBytes.toNat = h.takenBytes

theorem HeapInv.zoneTable {h : Heap} (hinv : HeapInv h) : ZoneTable h :=
  ⟨hinv.totalBlocks_eq, hinv.blocks_fit⟩

theorem HeapInv.table {h : Heap} (hinv : HeapInv h) : HeapTable h where
  toZoneTable := hinv.zoneTable
  sizes_pos := hinv.sizes_pos
  sizes_sorted := hinv.sizes_sorted
  bytes_fit := Nat.lt_of_le_of_lt (Nat.le_add_left _ _) hinv.pool_fits

@[simp] theorem layoutOf_nil : layoutOf [] = [] := rfl

@[simp] theorem layoutOf_cons (z : SizeBlock) (zs : List SizeBlock) :
    layoutOf (z :: zs) = z.zone :: layoutOf zs := rfl

@[simp] theorem zone_size (z : SizeBlock) : z.zone.size = z.size.toNat := rfl

@[simp] theorem zone_count (z : SizeBlock) : z.zone.count = z.count.toNat := rfl

/-!
# Words and numbers

As long as the layout fits the address space the words that {lit}`malloc` and
{lit}`free` compute with do not wrap.
-/

theorem rowBytes_toNat {z : SizeBlock}
    (h : z.size.toNat * z.count.toNat < 65536) :
    (z.count * z.size).toNat = z.size.toNat * z.count.toNat := by
  rw [BitVec.toNat_mul_of_lt (by rw [Nat.mul_comm]; exact h), Nat.mul_comm]

theorem skipZones_toNat {size : Word} {zs : List SizeBlock} {b : Word}
    (hfit : b.toNat + blockCount (layoutOf zs) < 65536) :
    (skipZones size zs b).toNat =
      b.toNat + skipCount size.toNat (layoutOf zs) := by
  induction zs generalizing b with
  | nil => rfl
  | cons z zs ih =>
      simp only [layoutOf_cons, blockCount_cons, zone_count] at hfit
      unfold skipZones
      by_cases hsmall : z.size < size
      · have hsmall' : z.zone.size < size.toNat := hsmall
        have hadd : (b + z.count).toNat = b.toNat + z.count.toNat :=
          BitVec.toNat_add_of_lt (by omega)
        rw [if_pos hsmall, ih (by rw [hadd]; omega), hadd]
        simp only [layoutOf_cons, skipCount, if_pos hsmall', zone_count]
        omega
      · have hlarge : ¬ z.zone.size < size.toNat := hsmall
        rw [if_neg hsmall]
        simp only [layoutOf_cons, skipCount, if_neg hlarge]
        rfl

theorem blockAddress_ofNat (zs : List SizeBlock) (j b address : Word)
    (hj : j.toNat ≤ b.toNat)
    (hb : b.toNat - j.toNat < blockCount (layoutOf zs))
    (hcount : j.toNat + blockCount (layoutOf zs) < 65536) :
    blockAddress zs j b address =
      (address + BitVec.ofNat 16 (blockStart (layoutOf zs) (b.toNat - j.toNat)),
        BitVec.ofNat 16 (blockSize (layoutOf zs) (b.toNat - j.toNat))) := by
  induction zs generalizing j address with
  | nil => simp at hb
  | cons z zs ih =>
      simp only [layoutOf_cons, blockCount_cons, zone_count] at hb hcount
      have hjc : (j + z.count).toNat = j.toNat + z.count.toNat :=
        BitVec.toNat_add_of_lt (by omega)
      have hrow : forall n : Word, BitVec.ofNat 16 (z.size.toNat * n.toNat) =
          z.size * n := by
        intro n
        rw [BitVec.ofNat_mul, BitVec.ofNat_toNat, BitVec.ofNat_toNat,
          BitVec.setWidth_eq, BitVec.setWidth_eq]
      unfold blockAddress
      by_cases hpass : j + z.count ≤ b
      · have hle : (j + z.count).toNat ≤ b.toNat := hpass
        have htail : z.zone.count ≤ b.toNat - j.toNat := by
          rw [zone_count]
          omega
        have hsub : b.toNat - j.toNat - z.count.toNat =
            b.toNat - (j + z.count).toNat := by
          rw [hjc]
          omega
        have hrest := ih (j + z.count) (address + z.count * z.size)
          hle (by rw [← hsub]; omega) (by rw [hjc]; omega)
        rw [if_pos hpass, layoutOf_cons, blockStart_tail htail,
          blockSize_tail htail, zone_count, zone_size, hsub, hrest,
          BitVec.ofNat_add, hrow, BitVec.mul_comm z.count, BitVec.add_assoc]
      · have hnot : ¬ (j + z.count).toNat ≤ b.toNat := hpass
        have hlt : b.toNat - j.toNat < z.zone.count := by
          rw [zone_count]
          omega
        have hsub : (b - j).toNat = b.toNat - j.toNat :=
          BitVec.toNat_sub_of_le hj
        rw [if_neg hpass, layoutOf_cons, blockStart_head hlt,
          blockSize_head hlt, zone_size, ← hsub, hrow, BitVec.ofNat_toNat,
          BitVec.setWidth_eq]

theorem offsetZone_spec (zs : List SizeBlock) (a b : Word)
    (ha : a.toNat < byteCount (layoutOf zs))
    (hpos : forall z, z ∈ layoutOf zs -> 0 < z.size)
    (hcount : b.toNat + blockCount (layoutOf zs) < 65536)
    (hbytes : byteCount (layoutOf zs) < 65536) :
    exists a' b' z, offsetZone zs a b = some (a', b', z) ∧
      (b' + a' / z.size).toNat =
        b.toNat + blockIndex (layoutOf zs) a.toNat ∧
      z.size.toNat =
        blockSize (layoutOf zs) (blockIndex (layoutOf zs) a.toNat) := by
  induction zs generalizing a b with
  | nil => simp at ha
  | cons z zs ih =>
      simp only [layoutOf_cons, blockCount_cons, byteCount_cons, zone_count,
        zone_size] at ha hcount hbytes
      have hz : 0 < z.size.toNat := hpos z.zone (by simp)
      have hrow := rowBytes_toNat (z := z) (by omega)
      unfold offsetZone
      by_cases hpass : z.count * z.size ≤ a
      · have hle : z.size.toNat * z.count.toNat ≤ a.toNat := by
          rw [← hrow]
          exact hpass
        have hsub : (a - z.count * z.size).toNat =
            a.toNat - z.size.toNat * z.count.toNat := by
          rw [BitVec.toNat_sub_of_le hpass, hrow]
        have hadd : (b + z.count).toNat = b.toNat + z.count.toNat :=
          BitVec.toNat_add_of_lt (by omega)
        rcases ih (a - z.count * z.size) (b + z.count)
          (by rw [hsub]; omega) (fun y hy => hpos y (by simp [hy]))
          (by rw [hadd]; omega) (by omega) with
          ⟨a', b', y, hsome, hindex, hsize⟩
        have hfar : ¬ a.toNat < z.size.toNat * z.count.toNat := by omega
        have hidx : blockIndex (layoutOf (z :: zs)) a.toNat =
            z.count.toNat +
              blockIndex (layoutOf zs) (a - z.count * z.size).toNat := by
          rw [hsub]
          simp [blockIndex, hfar]
        refine ⟨a', b', y, by rw [if_pos hpass]; exact hsome, ?_, ?_⟩
        · rw [hindex, hadd, hidx]
          omega
        · rw [hsize, hidx, layoutOf_cons, blockSize_tail (by simp)]
          simp
      · have hlt : a.toNat < z.size.toNat * z.count.toNat := by
          rw [← hrow]
          exact BitVec.not_le.mp hpass
        have hdiv : a.toNat / z.size.toNat < z.count.toNat :=
          Nat.div_lt_of_lt_mul hlt
        have hidx : blockIndex (layoutOf (z :: zs)) a.toNat =
            a.toNat / z.size.toNat := by
          simp [blockIndex, hlt]
        refine ⟨a, b, z, if_neg hpass, ?_, ?_⟩
        · rw [hidx, BitVec.toNat_add_of_lt, BitVec.toNat_udiv]
          rw [BitVec.toNat_udiv]
          omega
        · rw [hidx, layoutOf_cons, blockSize_head (by simpa using hdiv)]
          rfl

theorem offsetZone_none (zs : List SizeBlock) (a b : Word)
    (ha : byteCount (layoutOf zs) ≤ a.toNat) :
    offsetZone zs a b = none := by
  induction zs generalizing a b with
  | nil => rfl
  | cons z zs ih =>
      simp only [layoutOf_cons, byteCount_cons, zone_count, zone_size] at ha
      have hlt := a.isLt
      have hrow := rowBytes_toNat (z := z) (by omega)
      have hpass : z.count * z.size ≤ a := by
        change (z.count * z.size).toNat ≤ a.toNat
        omega
      unfold offsetZone
      rw [if_pos hpass]
      apply ih
      rw [BitVec.toNat_sub_of_le hpass, hrow]
      omega

/-!
# The two scans of the bitmap

Both scans pass over taken blocks only.
-/

def Heap.TakenUpTo (h : Heap) (s b : Nat) : Prop :=
  s ≤ b ∧ forall c, s ≤ c -> c < b -> h.taken c = true

theorem nextByte_toNat {b : Word} (hb : b.toNat + 8 < 65536) :
    ((b + 8) &&& ~~~7 : Word).toNat = b.toNat / 8 * 8 + 8 := by
  have hclear : ((b + 8) &&& ~~~7 : Word) = ((b + 8) >>> 3) <<< 3 := by
    apply BitVec.eq_of_getLsbD_eq
    intro i hi
    interval_cases i <;> simp
  have hadd : (b + 8 : Word).toNat = b.toNat + 8 :=
    BitVec.toNat_add_of_lt hb
  rw [hclear, BitVec.toNat_shiftLeft, BitVec.toNat_ushiftRight, hadd,
    Nat.shiftLeft_eq, Nat.shiftRight_eq_div_pow]
  omega

theorem scanBytes_spec {h : Heap} (hfit : h.totalBlocks.toNat + 8 < 65536)
    (s : Word) :
    exists b, scanBytes h s = .ok b ∧ h.TakenUpTo s.toNat b.toNat := by
  have hstep : forall b : Word, h.TakenUpTo s.toNat b.toNat ->
      (h.bitmap (b.toNat / 8) == 0xff#8 && decide (b < h.totalBlocks)) = true ->
      exists b' : Word, (.ok ((b + 8) &&& ~~~7) : Result Word) = .ok b' ∧
        h.TakenUpTo s.toNat b'.toNat ∧
        h.totalBlocks.toNat - b'.toNat < h.totalBlocks.toNat - b.toNat := by
    intro b hI hcond
    simp only [Bool.and_eq_true, beq_iff_eq, decide_eq_true_eq] at hcond
    rcases hcond with ⟨hfull, hlt⟩
    have hlt' : b.toNat < h.totalBlocks.toNat := hlt
    have hnext := nextByte_toNat (b := b) (by omega)
    refine ⟨_, rfl, ⟨by rw [hnext]; have := hI.1; omega, ?_⟩,
      by rw [hnext]; omega⟩
    intro c hsc hcb
    rw [hnext] at hcb
    rcases Nat.lt_or_ge c b.toNat with hc | hc
    · exact hI.2 c hsc hc
    · -- the rest of a full byte
      apply bitAt_of_byte_full
      rw [show c / 8 = b.toNat / 8 by omega]
      exact hfull
  have hstart : h.TakenUpTo s.toNat s.toNat :=
    ⟨Nat.le_refl _, fun c h₁ h₂ => by omega⟩
  rcases whileLoop_total (e := Stop.hang) (n := wordCount) _ hstep hstart
    (by have := h.totalBlocks.isLt; unfold wordCount; omega) with
    ⟨b, hrun, hI, _⟩
  exact ⟨b, hrun, hI⟩

theorem scanBits_cond_iff {h : Heap} {b : Word} :
    (decide (b < h.totalBlocks) &&
        h.bitmap (b.toNat / 8) &&& byteMask (b.toNat % 8) != 0) = true <->
      b.toNat < h.totalBlocks.toNat ∧ h.taken b.toNat = true := by
  have hmod : b.toNat % 8 < 8 := Nat.mod_lt _ (by decide)
  have hzero := and_byteMask_eq_zero (b := h.bitmap (b.toNat / 8)) hmod
  simp only [Bool.and_eq_true, decide_eq_true_eq, bne_iff_ne, ne_eq, hzero,
    Bool.not_eq_false]
  rfl

theorem scanBits_spec {h : Heap} (s : Word) :
    exists b, scanBits h s = .ok b ∧ h.TakenUpTo s.toNat b.toNat ∧
      (b.toNat < h.totalBlocks.toNat -> h.taken b.toNat = false) := by
  have hstep : forall b : Word, h.TakenUpTo s.toNat b.toNat ->
      (decide (b < h.totalBlocks) &&
        h.bitmap (b.toNat / 8) &&& byteMask (b.toNat % 8) != 0) = true ->
      exists b' : Word, (.ok (b + 1) : Result Word) = .ok b' ∧
        h.TakenUpTo s.toNat b'.toNat ∧
        h.totalBlocks.toNat - b'.toNat < h.totalBlocks.toNat - b.toNat := by
    intro b hI hcond
    rcases scanBits_cond_iff.mp hcond with ⟨hlt, htaken⟩
    have hmax := h.totalBlocks.isLt
    have hnext : (b + 1 : Word).toNat = b.toNat + 1 :=
      BitVec.toNat_add_of_lt (by simp; omega)
    refine ⟨_, rfl, ⟨by rw [hnext]; have := hI.1; omega, ?_⟩,
      by rw [hnext]; omega⟩
    intro c hsc hcb
    rw [hnext] at hcb
    rcases Nat.lt_or_ge c b.toNat with hc | hc
    · exact hI.2 c hsc hc
    · rw [show c = b.toNat by omega]
      exact htaken
  have hstart : h.TakenUpTo s.toNat s.toNat :=
    ⟨Nat.le_refl _, fun c h₁ h₂ => by omega⟩
  rcases whileLoop_total (e := Stop.hang) (n := wordCount) _ hstep hstart
    (by have := h.totalBlocks.isLt; unfold wordCount; omega) with
    ⟨b, hrun, hI, hexit⟩
  refine ⟨b, hrun, hI, fun hlt => ?_⟩
  by_contra htaken
  rw [scanBits_cond_iff.mpr ⟨hlt, by simpa using htaken⟩] at hexit
  exact Bool.noConfusion hexit

/-!
# What the operations do

A successful {lit}`malloc` takes one block and {lit}`free` of its address gives
that block back.
-/

def Heap.take (h : Heap) (b : Nat) : Heap :=
  { h with
    bitmap := setBit h.bitmap b
    usedBytes := h.usedBytes + BitVec.ofNat 16 (blockSize h.layout b) }

def Heap.release (h : Heap) (b : Nat) : Heap :=
  { h with
    bitmap := flipBit h.bitmap b
    usedBytes := h.usedBytes - BitVec.ofNat 16 (blockSize h.layout b) }

@[simp] theorem take_layout (h : Heap) (b : Nat) :
    (h.take b).layout = h.layout := rfl

@[simp] theorem release_layout (h : Heap) (b : Nat) :
    (h.release b).layout = h.layout := rfl

@[simp] theorem take_address (h : Heap) (b c : Nat) :
    (h.take b).address c = h.address c := rfl

theorem take_taken (h : Heap) (b c : Nat) :
    (h.take b).taken c = (h.taken c || decide (c = b)) :=
  bitAt_setBit h.bitmap b c

theorem release_taken (h : Heap) (b c : Nat) :
    (h.release b).taken c = (h.taken c ^^ decide (c = b)) :=
  bitAt_flipBit h.bitmap b c

theorem take_release {h : Heap} {b : Nat} (hfree : h.taken b = false) :
    (h.take b).release b = h := by
  have hbits : flipBit (setBit h.bitmap b) b = h.bitmap := flipBit_setBit hfree
  have hused : forall x y : Word, x + y - y = x := by
    intro x y
    exact BitVec.add_sub_cancel x y
  unfold Heap.take Heap.release
  dsimp only
  rw [hbits]
  exact congrArg (fun used => { h with usedBytes := used }) (hused _ _)

theorem address_toNat_of_fits {h : Heap}
    (hfit : h.poolStart.toNat + byteCount h.layout < 65536) {b : Nat}
    (hb : b < blockCount h.layout) :
    (h.address b).toNat = h.poolStart.toNat + blockStart h.layout b := by
  have hend := blockEnd_le_byteCount hb
  have hoff : (BitVec.ofNat 16 (blockStart h.layout b)).toNat =
      blockStart h.layout b := by
    rw [BitVec.toNat_ofNat]
    omega
  unfold Heap.address
  rw [BitVec.toNat_add_of_lt (by omega), hoff]

theorem address_toNat {h : Heap} (hinv : HeapInv h) {b : Nat}
    (hb : b < blockCount h.layout) :
    (h.address b).toNat = h.poolStart.toNat + blockStart h.layout b :=
  address_toNat_of_fits hinv.pool_fits hb

theorem blockAddress_eq {h : Heap} (htable : ZoneTable h) {b : Word}
    (hb : b.toNat < blockCount h.layout) :
    blockAddress h.zones 0 b h.poolStart =
      (h.address b.toNat, BitVec.ofNat 16 (blockSize h.layout b.toNat)) := by
  have hblocks := htable.blocks_fit
  unfold bitmapSize at hblocks
  exact blockAddress_ofNat h.zones 0 b h.poolStart (Nat.zero_le _) hb
    (by change 0 + blockCount h.layout < 65536; omega)

theorem address_sub {h : Heap} (htable : HeapTable h) {b : Nat}
    (hb : b < blockCount h.layout) :
    (h.address b - h.poolStart).toNat = blockStart h.layout b := by
  have hend := blockEnd_le_byteCount hb
  have hfit := htable.bytes_fit
  unfold Heap.address
  rw [BitVec.add_comm, BitVec.add_sub_cancel, BitVec.toNat_ofNat]
  omega

theorem address_injective {h : Heap} (htable : HeapTable h) {b c : Nat}
    (hb : b < blockCount h.layout) (hc : c < blockCount h.layout)
    (heq : h.address b = h.address c) : b = c := by
  apply blockStart_injective htable.sizes_pos hb hc
  rw [← address_sub htable hb, ← address_sub htable hc, heq]

theorem offsetZone_address {h : Heap} (htable : HeapTable h) {b : Nat}
    (hb : b < blockCount h.layout) :
    exists a' b' z, offsetZone h.zones (h.address b - h.poolStart) 0 =
        some (a', b', z) ∧
      (b' + a' / z.size).toNat = b ∧
      z.size = BitVec.ofNat 16 (blockSize h.layout b) := by
  have hoff := address_sub htable hb
  have hend := blockEnd_le_byteCount hb
  have hsize := blockSize_pos htable.sizes_pos hb
  have hblocks := htable.blocks_fit
  unfold bitmapSize at hblocks
  rcases offsetZone_spec h.zones (h.address b - h.poolStart) 0
    (by rw [hoff]; change _ < byteCount h.layout; omega)
    htable.sizes_pos (by change 0 + blockCount h.layout < 65536; omega)
    htable.bytes_fit with
    ⟨a', b', z, hsome, hindex, hzsize⟩
  have hinverse : blockIndex (layoutOf h.zones) (blockStart h.layout b) = b :=
    blockIndex_blockStart htable.sizes_pos hb
  rw [hoff, hinverse] at hindex hzsize
  refine ⟨a', b', z, hsome, ?_, ?_⟩
  · rw [hindex]
    exact Nat.zero_add b
  · have hnat : z.size.toNat = blockSize h.layout b := hzsize
    rw [← hnat, BitVec.ofNat_toNat, BitVec.setWidth_eq]

theorem malloc_eq {h : Heap} (htable : ZoneTable h) (size : Word) :
    (exists b, skipCount size.toNat h.layout ≤ b ∧
        b < blockCount h.layout ∧ h.taken b = false ∧
        (forall c, skipCount size.toNat h.layout ≤ c -> c < b ->
          h.taken c = true) ∧
        malloc h size = .ok (h.address b, h.take b)) ∨
      ((forall c, skipCount size.toNat h.layout ≤ c ->
          c < blockCount h.layout -> h.taken c = true) ∧
        malloc h size = panic .outOfMem) := by
  have htotal := htable.totalBlocks_eq
  have hblocks := htable.blocks_fit
  unfold bitmapSize at hblocks
  have hskip : (skipZones size h.zones 0).toNat =
      skipCount size.toNat h.layout := by
    rw [skipZones_toNat (by
      change 0 + blockCount h.layout < 65536
      omega)]
    exact Nat.zero_add _
  rcases scanBytes_spec (h := h) (by omega) (skipZones size h.zones 0) with
    ⟨b₁, hrun₁, htaken₁⟩
  rcases scanBits_spec (h := h) b₁ with ⟨b, hrun, htaken, hfree⟩
  rw [hskip] at htaken₁
  have hpassed : forall c, skipCount size.toNat h.layout ≤ c ->
      c < b.toNat -> h.taken c = true := by
    intro c hc hcb
    rcases Nat.lt_or_ge c b₁.toNat with hlt | hge
    · exact htaken₁.2 c hc hlt
    · exact htaken.2 c hge hcb
  have hfrom : skipCount size.toNat h.layout ≤ b.toNat :=
    Nat.le_trans htaken₁.1 htaken.1
  by_cases hlt : b < h.totalBlocks
  · have hb : b.toNat < blockCount h.layout := by
      rw [← htotal]
      exact hlt
    left
    refine ⟨b.toNat, hfrom, hb, hfree hlt, hpassed, ?_⟩
    unfold malloc
    simp only [hrun₁, hrun, ok_bind, if_pos hlt, blockAddress_eq htable hb]
    rfl
  · right
    constructor
    · intro c hc hcb
      have hle : h.totalBlocks.toNat ≤ b.toNat := BitVec.not_lt.mp hlt
      exact hpassed c hc (by omega)
    · unfold malloc
      simp only [hrun₁, hrun, ok_bind, if_neg hlt]

theorem malloc_block {h h' : Heap} (htable : ZoneTable h) {size p : Word}
    (hrun : malloc h size = .ok (p, h')) :
    exists b, skipCount size.toNat h.layout ≤ b ∧ b < blockCount h.layout ∧
      h.taken b = false ∧ p = h.address b ∧ h' = h.take b := by
  rcases malloc_eq htable size with ⟨b, hskip, hb, hfree, _, heq⟩ | ⟨_, heq⟩
  · rw [heq] at hrun
    cases hrun
    exact ⟨b, hskip, hb, hfree, rfl, rfl⟩
  · rw [heq] at hrun
    cases hrun

theorem free_address {h : Heap} (htable : HeapTable h) {b : Nat}
    (hb : b < blockCount h.layout) :
    free h (h.address b) = .ok (h.release b) := by
  rcases offsetZone_address htable hb with ⟨a', b', z, hsome, hindex, hz⟩
  unfold free
  simp only [hsome, hindex, Heap.release]
  rw [hz]

/-!
# The operations keep the invariant
-/

/-- Freeing the null pointer is noticed when the pool starts behind it. -/
theorem free_null {h : Heap} (hinv : HeapInv h) (hpos : 0 < h.poolStart.toNat) :
    free h 0 = panic .invalidFree := by
  have hfit := hinv.pool_fits
  have hoff : byteCount (layoutOf h.zones) ≤ (0 - h.poolStart).toNat := by
    change byteCount h.layout ≤ _
    bv_omega
  unfold free
  rw [offsetZone_none h.zones _ 0 hoff]

theorem takenBytes_take {h : Heap} {b : Nat} (hb : b < blockCount h.layout)
    (hfree : h.taken b = false) :
    (h.take b).takenBytes = h.takenBytes + blockSize h.layout b := by
  have hmem : b ∈ Finset.range (blockCount h.layout) :=
    Finset.mem_range.mpr hb
  unfold Heap.takenBytes
  rw [take_layout, ← Finset.add_sum_erase _ _ hmem,
    ← Finset.add_sum_erase (Finset.range (blockCount h.layout)) _ hmem]
  have hrest : ∑ c ∈ (Finset.range (blockCount h.layout)).erase b,
        (if (h.take b).taken c = true then blockSize h.layout c else 0) =
      ∑ c ∈ (Finset.range (blockCount h.layout)).erase b,
        (if h.taken c = true then blockSize h.layout c else 0) := by
    apply Finset.sum_congr rfl
    intro c hc
    have hne : c ≠ b := Finset.ne_of_mem_erase hc
    simp [take_taken, hne]
  rw [hrest]
  simp [take_taken, hfree]
  omega

theorem takenBytes_release {h : Heap} {b : Nat}
    (hb : b < blockCount h.layout) (htaken : h.taken b = true) :
    (h.release b).takenBytes + blockSize h.layout b = h.takenBytes := by
  have hfree : (h.release b).taken b = false := by
    simp [release_taken, htaken]
  have hback := takenBytes_take (h := h.release b) hb hfree
  have hsame : forall c, ((h.release b).take b).taken c = h.taken c := by
    intro c
    rw [take_taken, release_taken]
    by_cases hc : c = b
    · simp [hc, htaken]
    · simp [hc]
  rw [release_layout] at hback
  rw [← hback]
  unfold Heap.takenBytes
  simp only [hsame, take_layout, release_layout]

theorem takenBytes_le (h : Heap) : h.takenBytes ≤ byteCount h.layout := by
  rw [← sum_blockSize]
  apply Finset.sum_le_sum
  intro b _
  split
  · exact Nat.le_refl _
  · exact Nat.zero_le _

/-- Only blocks are marked, and {lit}`used_bytes` counts them. -/
structure HeapAccounts (h : Heap) : Prop where
  taken_lt : forall b, h.taken b = true -> b < blockCount h.layout
  usedBytes_eq : h.usedBytes.toNat = h.takenBytes

theorem HeapInv.accounts {h : Heap} (hinv : HeapInv h) : HeapAccounts h :=
  ⟨hinv.taken_lt, hinv.usedBytes_eq⟩

theorem blockSize_toNat {h : Heap} (htable : HeapTable h) {b : Nat}
    (hb : b < blockCount h.layout) :
    (BitVec.ofNat 16 (blockSize h.layout b)).toNat = blockSize h.layout b := by
  have hend := blockEnd_le_byteCount hb
  have hfit := htable.bytes_fit
  rw [BitVec.toNat_ofNat]
  omega

theorem take_accounts {h : Heap} (htable : HeapTable h) (haccounts : HeapAccounts h)
    {b : Nat} (hb : b < blockCount h.layout) (hfree : h.taken b = false) :
    HeapAccounts (h.take b) where
  taken_lt := by
    intro c hc
    rw [take_taken] at hc
    by_cases hcb : c = b
    · rw [hcb]
      exact hb
    · exact haccounts.taken_lt c (by simpa [hcb] using hc)
  usedBytes_eq := by
    have hle := takenBytes_le (h.take b)
    have hadd := takenBytes_take hb hfree
    have hfit := htable.bytes_fit
    have hused := haccounts.usedBytes_eq
    have hsize := blockSize_toNat htable hb
    rw [take_layout] at hle
    change (h.usedBytes + BitVec.ofNat 16 (blockSize h.layout b)).toNat = _
    rw [BitVec.toNat_add_of_lt (by rw [hsize]; omega), hsize, hadd, hused]

theorem release_accounts {h : Heap} (htable : HeapTable h) (haccounts : HeapAccounts h)
    {b : Nat} (htaken : h.taken b = true) : HeapAccounts (h.release b) where
  taken_lt := by
    intro c hc
    rw [release_taken] at hc
    by_cases hcb : c = b
    · rw [hcb, htaken] at hc
      simp at hc
    · exact haccounts.taken_lt c (by simpa [hcb] using hc)
  usedBytes_eq := by
    have hsub := takenBytes_release (haccounts.taken_lt b htaken) htaken
    have hused := haccounts.usedBytes_eq
    have hsize := blockSize_toNat htable (haccounts.taken_lt b htaken)
    change (h.usedBytes - BitVec.ofNat 16 (blockSize h.layout b)).toNat = _
    rw [BitVec.toNat_sub_of_le (by
      change (BitVec.ofNat 16 (blockSize h.layout b)).toNat ≤ h.usedBytes.toNat
      omega), hsize]
    omega

theorem take_inv {h : Heap} (hinv : HeapInv h) {b : Nat}
    (hb : b < blockCount h.layout) (hfree : h.taken b = false) :
    HeapInv (h.take b) where
  sizes_pos := hinv.sizes_pos
  sizes_sorted := hinv.sizes_sorted
  totalBlocks_eq := hinv.totalBlocks_eq
  totalBytes_eq := hinv.totalBytes_eq
  blocks_fit := hinv.blocks_fit
  pool_fits := hinv.pool_fits
  taken_lt := (take_accounts hinv.table hinv.accounts hb hfree).taken_lt
  usedBytes_eq := (take_accounts hinv.table hinv.accounts hb hfree).usedBytes_eq

theorem release_inv {h : Heap} (hinv : HeapInv h) {b : Nat}
    (htaken : h.taken b = true) : HeapInv (h.release b) where
  sizes_pos := hinv.sizes_pos
  sizes_sorted := hinv.sizes_sorted
  totalBlocks_eq := hinv.totalBlocks_eq
  totalBytes_eq := hinv.totalBytes_eq
  blocks_fit := hinv.blocks_fit
  pool_fits := hinv.pool_fits
  taken_lt := (release_accounts hinv.table hinv.accounts htaken).taken_lt
  usedBytes_eq := (release_accounts hinv.table hinv.accounts htaken).usedBytes_eq

end Kernel
end Rmmtos
