import Rmmtos.Kernel.HeapInvariant

/-!
# The start of the kernel heap

{lit}`malloc_init` gives the pool to the zones in two loops whose sums are words
and may wrap.  What it does depends on the size of the pool alone.
-/

namespace Rmmtos
namespace Kernel

open Library Zones

/-!
# The zones of a start

The zone table after {lit}`k` rounds of the first phase and {lit}`m` more
blocks in the first zone.
-/

def initZones (k m : Nat) : List SizeBlock :=
  [⟨4, BitVec.ofNat 16 (k + m), 1⟩, ⟨8, BitVec.ofNat 16 k, 1⟩,
    ⟨18, BitVec.ofNat 16 (3 * k), 3⟩, ⟨38, BitVec.ofNat 16 k, 1⟩,
    ⟨512, 8, 0⟩, ⟨kernelStackBytes, 5, 0⟩]

def fixedBytes : Nat := 24576

def initBytes (k m : Nat) : Nat :=
  fixedBytes + 104 * k + 4 * m

def initHeap (start : Word) (k m : Nat) : Heap where
  usedBytes := 0
  totalBytes := BitVec.ofNat 16 (initBytes k m)
  totalBlocks := BitVec.ofNat 16 (6 * k + m + 13)
  poolStart := start
  zones := initZones k m
  bitmap := fun _ => 0

theorem grow_initZones (k : Nat) :
    (initZones k 0).map SizeBlock.grow = initZones (k + 1) 0 := by
  simp [initZones, SizeBlock.grow, BitVec.ofNat_add, Nat.mul_add]

theorem growFirst_initZones (k m : Nat) :
    growFirst (initZones k m) = initZones k (m + 1) := by
  simp [initZones, growFirst, ← Nat.add_assoc, BitVec.ofNat_add]

theorem ofNat_toNat_of_lt {n : Nat} (h : n < 65536) :
    (BitVec.ofNat 16 n).toNat = n := by
  rw [BitVec.toNat_ofNat]
  omega

/-!
# The two loops

Both loops go through the zone tables above, with the sums of their bytes taken
as words.
-/

theorem initBytes_round (k m : Nat) : initBytes (k + 1) m = initBytes k m + 104 := by
  unfold initBytes
  omega

theorem initBytes_block (k m : Nat) : initBytes k (m + 1) = initBytes k m + 4 := by
  unfold initBytes
  omega

theorem ofNat_le_iff {n : Nat} {w : Word} :
    BitVec.ofNat 16 n ≤ w <-> n % 65536 ≤ w.toNat := by
  rw [BitVec.le_def, BitVec.toNat_ofNat]

/-- The state of the first loop after {lit}`k` rounds. -/
def roundState (k : Nat) : List SizeBlock × Word :=
  (initZones k 0, BitVec.ofNat 16 (initBytes k 0))

theorem firstPhase_eq (poolSize : Word) :
    firstPhase poolSize zones (allocatedSize zones) =
      whileLoop .hang (fun s => decide (s.2 + 104 ≤ poolSize))
        (fun s => .ok (s.1.map SizeBlock.grow, s.2 + 104)) wordCount
        (roundState 0) := by
  have hincrement : firstPhaseIncrement zones = 104 := by
    decide
  have hstart : (zones, allocatedSize zones) = roundState 0 := by
    decide
  unfold firstPhase
  rw [hincrement, hstart]

theorem round_step (k : Nat) :
    ((roundState k).1.map SizeBlock.grow, (roundState k).2 + 104) =
      roundState (k + 1) := by
  unfold roundState
  rw [initBytes_round, BitVec.ofNat_add, ← grow_initZones]
  rfl

theorem round_goes_iff {poolSize : Word} {k : Nat} :
    decide ((roundState k).2 + 104 ≤ poolSize) = true <->
      initBytes (k + 1) 0 % 65536 ≤ poolSize.toNat := by
  rw [decide_eq_true_eq, ← ofNat_le_iff, initBytes_round, BitVec.ofNat_add]
  rfl

theorem firstPhase_ok {poolSize : Word} {k : Nat}
    (hgo : forall j, j < k -> initBytes (j + 1) 0 % 65536 ≤ poolSize.toNat)
    (hend : poolSize.toNat < initBytes (k + 1) 0 % 65536) (hk : k ≤ wordCount) :
    firstPhase poolSize zones (allocatedSize zones) = .ok (roundState k) := by
  rw [firstPhase_eq]
  refine whileLoop_sequence (u := roundState) ?_ ?_ ?_ hk
  · intro j
    exact congrArg Except.ok (round_step j)
  · intro j hj
    exact round_goes_iff.mpr (hgo j hj)
  · exact Bool.eq_false_iff.mpr fun hgoes =>
      Nat.not_le_of_lt hend (round_goes_iff.mp hgoes)

/-- A first loop whose sums never exceed the pool does not end, however many
turns it is given. -/
theorem firstPhase_never {poolSize : Word}
    (hgo : forall j, initBytes (j + 1) 0 % 65536 ≤ poolSize.toNat) (n : Nat) :
    whileLoop Stop.hang (fun s => decide (s.2 + 104 ≤ poolSize))
      (fun s => .ok (s.1.map SizeBlock.grow, s.2 + 104)) n (roundState 0) =
        .error .hang := by
  refine whileLoop_diverges (I := fun s => exists k, s = roundState k) ?_ ?_ n
    ⟨0, rfl⟩
  · rintro s ⟨k, rfl⟩
    exact round_goes_iff.mpr (hgo k)
  · rintro s ⟨k, rfl⟩
    exact ⟨_, rfl, k + 1, round_step k⟩

theorem secondPhase_ok {poolSize : Word} {k m : Nat}
    (hgo : forall j, j < m -> initBytes k (j + 1) % 65536 ≤ poolSize.toNat)
    (hend : poolSize.toNat < initBytes k (m + 1) % 65536) (hm : m ≤ wordCount) :
    secondPhase poolSize (initZones k 0) (BitVec.ofNat 16 (initBytes k 0)) =
      .ok (initZones k m, BitVec.ofNat 16 (initBytes k m)) := by
  have hsum : forall j, BitVec.ofNat 16 (initBytes k j) + 4 =
      BitVec.ofNat 16 (initBytes k (j + 1)) := by
    intro j
    rw [initBytes_block, BitVec.ofNat_add]
    rfl
  have hcond : forall j, decide (BitVec.ofNat 16 (initBytes k j) +
      firstSize (initZones k j) ≤ poolSize) = true <->
        initBytes k (j + 1) % 65536 ≤ poolSize.toNat := by
    intro j
    rw [decide_eq_true_eq, ← ofNat_le_iff, ← hsum]
    rfl
  unfold secondPhase
  refine whileLoop_sequence
    (u := fun j => (initZones k j, BitVec.ofNat 16 (initBytes k j)))
    (fun j => ?_) (fun j hj => (hcond j).mpr (hgo j hj)) ?_ hm
  · rw [← hsum, ← growFirst_initZones]
    rfl
  · exact Bool.eq_false_iff.mpr fun hgoes =>
      Nat.not_le_of_lt hend ((hcond m).mp hgoes)

theorem secondPhase_spec (poolSize : Word) (k : Nat)
    (hsum : initBytes k 0 % 65536 ≤ poolSize.toNat) (hhigh : poolSize.toNat < 65532) :
    exists m, secondPhase poolSize (initZones k 0)
          (BitVec.ofNat 16 (initBytes k 0)) =
        .ok (initZones k m, BitVec.ofNat 16 (initBytes k m)) ∧
      initBytes k 0 % 65536 + 4 * m ≤ poolSize.toNat ∧
      poolSize.toNat < initBytes k 0 % 65536 + 4 * m + 4 := by
  have hbytes : forall j, initBytes k j = initBytes k 0 + 4 * j := by
    intro j
    unfold initBytes
    omega
  refine ⟨(poolSize.toNat - initBytes k 0 % 65536) / 4,
    secondPhase_ok (fun j hj => ?_) ?_ ?_, by omega, by omega⟩
  · rw [hbytes]
    omega
  · rw [hbytes]
    omega
  · unfold wordCount
    omega

/-!
# What {lit}`malloc_init` does

A pool smaller than the fixed zones is overrun.  In a pool of nearly a whole
segment the sums wrap: the zones become more than the bitmap has room for, or
the first loop never ends.
-/

theorem initZones_blocks (k m : Nat) :
    ((initZones k m).foldl (fun n z => n + z.count) 0 : Word) =
      BitVec.ofNat 16 (6 * k + m + 13) := by
  have hsplit : 6 * k + m + 13 = k + m + k + 3 * k + k + 8 + 5 := by
    omega
  rw [hsplit]
  simp only [BitVec.ofNat_add]
  change 0#16 + BitVec.ofNat 16 (k + m) + BitVec.ofNat 16 k +
    BitVec.ofNat 16 (3 * k) + BitVec.ofNat 16 k + 8 + 5 = _
  rw [BitVec.zero_add, BitVec.ofNat_add]
  rfl

theorem mallocInit_eq {start finish : Word} {k m : Nat}
    (hfirst : firstPhase (finish - start) zones (allocatedSize zones) =
      .ok (roundState k))
    (hsecond : secondPhase (finish - start) (initZones k 0)
        (BitVec.ofNat 16 (initBytes k 0)) =
      .ok (initZones k m, BitVec.ofNat 16 (initBytes k m)))
    (hblocks : 6 * k + m + 13 < 65536) :
    mallocInit Heap.boot start finish =
      if bitmapSize * 8 < 6 * k + m + 13 then panic .mallocBitmap
      else .ok (initHeap start k m) := by
  have hroom : BitVec.ofNat 16 (bitmapSize * 8) < BitVec.ofNat 16 (6 * k + m + 13) <->
      bitmapSize * 8 < 6 * k + m + 13 := by
    rw [BitVec.lt_def, ofNat_toNat_of_lt (by decide), ofNat_toNat_of_lt hblocks]
  have hclear : (fun i => if i < bitmapSize then (0 : Byte) else 0) = fun _ => 0 :=
    funext fun i => ite_self 0
  have hboot : Heap.boot.zones = zones := rfl
  have hbits : Heap.boot.bitmap = fun _ => 0 := rfl
  unfold mallocInit
  simp only [hboot, hfirst, ok_bind, roundState, hsecond, initZones_blocks, hroom, hbits,
    hclear]
  rfl

/-- The sum of the first loop past which a whole round wraps. -/
def wrappedBytes : Nat := 65448

def largestBytes : Nat := 65528

theorem mallocInit_small {start finish : Word}
    (hsmall : (finish - start).toNat < fixedBytes + 4) :
    mallocInit Heap.boot start finish = .ok (initHeap start 0 0) := by
  unfold fixedBytes at hsmall
  have hround : (finish - start).toNat < initBytes 1 0 % 65536 :=
    Nat.lt_of_lt_of_le hsmall (by decide)
  have hblock : (finish - start).toNat < initBytes 0 1 % 65536 :=
    Nat.lt_of_lt_of_le hsmall (by decide)
  have hnone : forall {p : Nat -> Prop} (j : Nat), j < 0 -> p j :=
    fun j hj => absurd hj (Nat.not_lt_zero j)
  rw [mallocInit_eq (firstPhase_ok hnone hround (Nat.zero_le _))
    (secondPhase_ok hnone hblock (Nat.zero_le _)) (by decide)]
  exact if_neg (by decide)

theorem mallocInit_fits {start finish : Word}
    (hlow : fixedBytes ≤ (finish - start).toNat)
    (hhigh : (finish - start).toNat < wrappedBytes) :
    exists k m, mallocInit Heap.boot start finish = .ok (initHeap start k m) ∧
      initBytes k m ≤ (finish - start).toNat ∧
      6 * k + m + 13 ≤ bitmapSize * 8 := by
  unfold fixedBytes at hlow
  unfold wrappedBytes at hhigh
  have hbytes : forall j, initBytes j 0 = 24576 + 104 * j := fun j => rfl
  generalize hp : (finish - start).toNat = p at hlow hhigh ⊢
  have hfirst : firstPhase (finish - start) zones (allocatedSize zones) =
      .ok (roundState ((p - 24576) / 104)) := by
    refine firstPhase_ok (fun j hj => ?_) ?_ ?_
    · rw [hbytes, hp]
      omega
    · rw [hbytes, hp]
      omega
    · unfold wordCount
      omega
  have hsum : initBytes ((p - 24576) / 104) 0 % 65536 =
      24576 + 104 * ((p - 24576) / 104) := by
    rw [hbytes]
    omega
  rcases secondPhase_spec (finish - start) ((p - 24576) / 104)
    (by rw [hsum, hp]; omega) (by omega) with ⟨m, hsecond, hle, hlt⟩
  rw [hsum, hp] at hle hlt
  have hfew : 6 * ((p - 24576) / 104) + m + 13 ≤ bitmapSize * 8 := by
    unfold bitmapSize
    omega
  refine ⟨(p - 24576) / 104, m, ?_, hle, hfew⟩
  rw [mallocInit_eq hfirst hsecond (by unfold bitmapSize at hfew; omega)]
  exact if_neg (Nat.not_lt_of_le hfew)

/-- The zones of a pool in which the sums wrap are too many. -/
theorem mallocInit_wraps {start finish : Word}
    (hlow : wrappedBytes ≤ (finish - start).toNat)
    (hhigh : (finish - start).toNat < largestBytes) :
    mallocInit Heap.boot start finish = panic .mallocBitmap := by
  unfold wrappedBytes at hlow
  unfold largestBytes at hhigh
  have hbytes : forall j, initBytes j 0 = 24576 + 104 * j := fun j => rfl
  generalize hp : (finish - start).toNat = p at hlow hhigh
  have hlargest : p < initBytes 5435 0 % 65536 := by
    have hsum : initBytes 5435 0 % 65536 = 65528 := by
      decide
    rw [hsum]
    exact hhigh
  have hstops : exists k, p < initBytes (k + 1) 0 % 65536 := ⟨5434, hlargest⟩
  have hend := Nat.find_spec hstops
  have hgo : forall j, j < Nat.find hstops -> initBytes (j + 1) 0 % 65536 ≤ p :=
    fun j hj => Nat.not_lt.mp (Nat.find_min hstops hj)
  have hfew : Nat.find hstops ≤ 5434 := Nat.find_min' hstops hlargest
  generalize Nat.find hstops = k at hend hgo hfew
  have hmany : 1653 ≤ k := by
    by_contra hless
    rw [hbytes] at hend
    have hturn : (24576 + 104 * (k + 1)) / 65536 = 0 ∨
        (24576 + 104 * (k + 1)) / 65536 = 1 ∨ (24576 + 104 * (k + 1)) / 65536 = 2 := by
      omega
    rcases hturn with hturn | hturn | hturn <;> omega
  have hlast := hgo (k - 1) (by omega)
  rw [Nat.sub_add_cancel (by omega)] at hlast
  have hfirst : firstPhase (finish - start) zones (allocatedSize zones) =
      .ok (roundState k) := by
    refine firstPhase_ok (fun j hj => ?_) ?_ ?_
    · rw [hp]
      exact hgo j hj
    · rw [hp]
      exact hend
    · unfold wordCount
      omega
  rcases secondPhase_spec (finish - start) k
    (by rw [hp]; exact hlast) (by omega) with ⟨m, hsecond, hle, hlt⟩
  rw [mallocInit_eq hfirst hsecond (by omega)]
  exact if_pos (by unfold bitmapSize; omega)

/-- In a pool as large as the largest sum the first loop goes on for ever. -/
theorem mallocInit_hangs {start finish : Word}
    (hhigh : largestBytes ≤ (finish - start).toNat) :
    mallocInit Heap.boot start finish = .error .hang := by
  have hgo : forall j, initBytes (j + 1) 0 % 65536 ≤ (finish - start).toNat := by
    intro j
    have hsum : initBytes (j + 1) 0 = 24576 + 104 * (j + 1) := rfl
    unfold largestBytes at hhigh
    omega
  have hboot : Heap.boot.zones = zones := rfl
  unfold mallocInit
  simp only [hboot, firstPhase_eq, firstPhase_never hgo, error_bind]

/-!
# The heap that is left
-/

theorem initHeap_layout (start : Word) (k m : Nat)
    (hsmall : initBytes k m < 65536) :
    (initHeap start k m).layout =
      [⟨4, k + m⟩, ⟨8, k⟩, ⟨18, 3 * k⟩, ⟨38, k⟩, ⟨512, 8⟩, ⟨4096, 5⟩] := by
  unfold initBytes at hsmall
  have hkm := ofNat_toNat_of_lt (n := k + m) (by omega)
  have hk := ofNat_toNat_of_lt (n := k) (by omega)
  have h3k := ofNat_toNat_of_lt (n := 3 * k) (by omega)
  simp only [Heap.layout, initHeap, initZones, layoutOf, List.map_cons,
    List.map_nil, SizeBlock.zone, hkm, hk, h3k]
  rfl

theorem initHeap_blocks (start : Word) {k m : Nat} (hsmall : initBytes k m < 65536) :
    blockCount (initHeap start k m).layout = 6 * k + m + 13 := by
  rw [initHeap_layout start k m hsmall]
  simp only [blockCount_cons, blockCount_nil]
  omega

theorem initHeap_bytes (start : Word) {k m : Nat} (hsmall : initBytes k m < 65536) :
    byteCount (initHeap start k m).layout = initBytes k m := by
  rw [initHeap_layout start k m hsmall]
  simp only [byteCount_cons, byteCount_nil, initBytes, fixedBytes]
  omega

theorem initHeap_clear (start : Word) (k m b : Nat) :
    (initHeap start k m).taken b = false :=
  byteBit_zero (b % 8)

theorem initHeap_table (start : Word) {k m : Nat}
    (hblocks : 6 * k + m + 13 ≤ bitmapSize * 8) (hsmall : initBytes k m < 65536) :
    HeapTable (initHeap start k m) where
  totalBlocks_eq := by
    rw [initHeap_blocks start hsmall]
    unfold bitmapSize at hblocks
    exact ofNat_toNat_of_lt (by omega)
  blocks_fit := by
    rw [initHeap_blocks start hsmall]
    exact hblocks
  sizes_pos := by
    rw [initHeap_layout start k m hsmall]
    simp
  sizes_sorted := by
    rw [initHeap_layout start k m hsmall]
    simp
  bytes_fit := by
    rw [initHeap_bytes start hsmall]
    exact hsmall

theorem initHeap_accounts (start : Word) (k m : Nat) :
    HeapAccounts (initHeap start k m) where
  taken_lt := by
    intro b hb
    rw [initHeap_clear] at hb
    cases hb
  usedBytes_eq := by
    simp only [Heap.takenBytes, initHeap_clear]
    exact (Finset.sum_eq_zero fun b _ => if_neg Bool.false_ne_true).symm

theorem mallocInit_ok {start finish : Word} {h : Heap}
    (hinit : mallocInit Heap.boot start finish = .ok h) :
    HeapTable h ∧ HeapAccounts h := by
  have hbytes := (finish - start).isLt
  rcases Nat.lt_or_ge (finish - start).toNat fixedBytes with hsmall | hlow
  · rw [mallocInit_small (Nat.lt_add_right 4 hsmall)] at hinit
    cases hinit
    exact ⟨initHeap_table start (by decide) (by decide), initHeap_accounts start 0 0⟩
  · rcases Nat.lt_or_ge (finish - start).toNat wrappedBytes with hfits | hwraps
    · rcases mallocInit_fits hlow hfits with ⟨k, m, hrun, hle, hfew⟩
      rw [hrun] at hinit
      cases hinit
      exact ⟨initHeap_table start hfew (Nat.lt_of_le_of_lt hle hbytes),
        initHeap_accounts start k m⟩
    · rcases Nat.lt_or_ge (finish - start).toNat largestBytes with hmany | hhigh
      · rw [mallocInit_wraps hwraps hmany] at hinit
        cases hinit
      · rw [mallocInit_hangs hhigh] at hinit
        cases hinit

end Kernel
end Rmmtos
