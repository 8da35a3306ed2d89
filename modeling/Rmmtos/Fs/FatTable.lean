import Rmmtos.Boot.Loader
import Rmmtos.Fs.Fat
import Rmmtos.Library.Bitmap
import Mathlib.Data.List.GetD

/-!
# The allocation table

The boot loader and the kernel follow the same chains of clusters: both find
the entries of the packed allocation table, and both find the data of a cluster
in the same place.
-/

namespace Rmmtos
namespace Fs

open Library Kernel

/-!
# Geometry
-/

theorem shl64_blocks (w : Word) :
    (shl64 (init64 0 0 0 w) 9).toNat = 512 * w.toNat := by
  have hlt := w.isLt
  have hshl := shl64_toNat (init64 0 0 0 w) 9
  change _ = (init64 0 0 0 w).toNat * 512 % 2 ^ 64 at hshl
  rw [Uint64.toNat_init64] at hshl
  rw [hshl]
  omega

theorem isEven_iff (w : Word) : (w &&& 1 == 0) = true <-> w.toNat % 2 = 0 := by
  rw [beq_iff_eq, BitVec.toNat_eq, BitVec.toNat_and]
  change w.toNat &&& 1 = 0 <-> _
  rw [Nat.and_one_is_mod]

def PotInv (b : Word) (x : Byte × Word) : Prop :=
  0 < x.2.toNat ∧ b.toNat = x.2.toNat * 2 ^ x.1.toNat ∧ x.1.toNat < 16

theorem PotInv.turn {b : Word} {x : Byte × Word} (hx : PotInv b x)
    (heven : x.2.toNat % 2 = 0) :
    PotInv b (x.1 + 1, x.2 >>> 1) ∧ (x.2 >>> 1).toNat < x.2.toNat := by
  rcases x with ⟨pot, rest⟩
  rcases hx with ⟨hrest, heq, hpot⟩
  have hhalf : (rest >>> 1).toNat = rest.toNat / 2 := by
    rw [BitVec.toNat_ushiftRight, Nat.shiftRight_eq_div_pow]
  have hsucc : (pot + 1).toNat = pot.toNat + 1 := by
    dsimp only at hpot
    bv_omega
  have hdouble : b.toNat = rest.toNat / 2 * 2 ^ (pot.toNat + 1) := by
    rw [heq, Nat.pow_succ, Nat.mul_comm (2 ^ pot.toNat), ← Nat.mul_assoc,
      Nat.div_mul_cancel (Nat.dvd_of_mod_eq_zero heven)]
  have hsmall : pot.toNat + 1 < 16 := by
    by_contra hlarge
    have hpot16 : pot.toNat + 1 = 16 := by
      dsimp only at hpot
      omega
    have hle : 1 * 2 ^ 16 ≤ rest.toNat / 2 * 2 ^ 16 := by
      apply Nat.mul_le_mul_right
      dsimp only at hrest heven
      omega
    rw [hpot16] at hdouble
    have hlt := b.isLt
    omega
  unfold PotInv
  dsimp only at *
  rw [hhalf, hsucc]
  exact ⟨⟨by omega, hdouble, hsmall⟩, by omega⟩

theorem countPot_eq {b : Word} (hb : b ≠ 0) :
    exists pot rest, countPot b = .ok (pot, rest) ∧ PotInv b (pot, rest) ∧
      rest.toNat % 2 = 1 := by
  have hpos : 0 < b.toNat := by
    apply Nat.pos_of_ne_zero
    intro h
    exact hb (BitVec.eq_of_toNat_eq h)
  have hstart : PotInv b (0, b) :=
    ⟨hpos, (Nat.mul_one _).symm, by change 0 < 16; omega⟩
  have hturn : forall x : Byte × Word, PotInv b x ->
      (x.2 &&& 1 == 0) = true -> exists y : Byte × Word,
        (.ok (x.1 + 1, x.2 >>> 1) : Result _) = .ok y ∧ PotInv b y ∧
          y.2.toNat < x.2.toNat := by
    intro x hx hcond
    rcases hx.turn ((isEven_iff x.2).mp hcond) with ⟨hinv, hlt⟩
    exact ⟨_, rfl, hinv, hlt⟩
  rcases whileLoop_total (e := Stop.hang) (fun x => x.2.toNat) hturn hstart
    (Nat.le_of_lt b.isLt) with ⟨⟨pot, rest⟩, hrun, hinv, hexit⟩
  refine ⟨pot, rest, hrun, hinv, ?_⟩
  have hodd : ¬ rest.toNat % 2 = 0 := by
    intro h
    rw [(isEven_iff rest).mpr h] at hexit
    cases hexit
  omega

theorem countPot_zero : countPot 0 = .error .hang := by
  apply whileLoop_diverges (I := fun x : Byte × Word => x.2 = 0)
  · rintro ⟨pot, rest⟩ rfl
    change (0#16 &&& 1 == 0) = true
    decide
  · rintro ⟨pot, rest⟩ rfl
    refine ⟨_, rfl, ?_⟩
    change 0#16 >>> 1 = 0
    decide
  · rfl

theorem parseParams_eq {params : Parameters} {root : FatGeometry}
    (hrun : parseParams params = .ok root) :
    root.fatBegin.toNat = 512 * params.reservedSectors.toNat ∧
      root.rootBegin.toNat = 512 * (params.reservedSectors +
        params.fats.setWidth 16 * params.sectorsPerFat).toNat ∧
      root.rootEnd.toNat = root.rootBegin.toNat + ((params.rootEntries * 32 +
        params.bytesPerSector - 1) / params.bytesPerSector *
          params.bytesPerSector).toNat ∧
      exists rest, countPot (params.sectorsPerCluster.setWidth 16 *
        params.bytesPerSector) = .ok (root.clusterPot, rest) := by
  rcases ok_bind_iff.mp hrun with ⟨⟨pot, rest⟩, hpot, hrun⟩
  rcases ok_bind_iff.mp hrun with ⟨sectors, hdivide, hroot⟩
  cases hroot
  unfold divideWords at hdivide
  split at hdivide
  · cases hdivide
  cases hdivide
  refine ⟨shl64_blocks _, shl64_blocks _, ?_, rest, hpot⟩
  generalize (params.rootEntries * 32 + params.bytesPerSector - 1) /
    params.bytesPerSector * params.bytesPerSector = size
  have hsize := size.isLt
  rw [add64_16_toNat]
  rw [shl64_blocks]
  have hlt := (params.reservedSectors +
    params.fats.setWidth 16 * params.sectorsPerFat).isLt
  omega

/-!
# The layout of a volume

Where the parameter block says that the parts of a volume are, whatever the
driver computes.
-/

/-- The bytes of a cluster, before they are cut to a word. -/
def Parameters.clusterBytes (p : Parameters) : Nat :=
  p.sectorsPerCluster.toNat * p.bytesPerSector.toNat

def Parameters.rootSector (p : Parameters) : Nat :=
  p.reservedSectors.toNat + p.fats.toNat * p.sectorsPerFat.toNat

/-- The bytes of the root directory, in whole sectors. -/
def Parameters.rootSize (p : Parameters) : Nat :=
  (32 * p.rootEntries.toNat + p.bytesPerSector.toNat - 1) /
    p.bytesPerSector.toNat * p.bytesPerSector.toNat

def Parameters.layout (p : Parameters) : FatGeometry where
  rootBegin := Uint64.ofNat (p.rootSector * p.bytesPerSector.toNat)
  rootEnd := Uint64.ofNat (p.rootSector * p.bytesPerSector.toNat + p.rootSize)
  fatBegin := Uint64.ofNat (p.reservedSectors.toNat * p.bytesPerSector.toNat)
  clusterPot := BitVec.ofNat 8 (Nat.log2 p.clusterBytes)

section Layout

variable (p : Parameters)

theorem rootSector_lt : p.rootSector < 2 ^ 24 := by
  have hreserved := p.reservedSectors.isLt
  have hfats := p.fats.isLt
  have hsectors := p.sectorsPerFat.isLt
  have hprod : p.fats.toNat * p.sectorsPerFat.toNat ≤ 255 * 65535 :=
    Nat.mul_le_mul (by omega) (by omega)
  unfold Parameters.rootSector
  omega

theorem rootSize_lt : p.rootSize < 2 ^ 22 := by
  have hentries := p.rootEntries.isLt
  have hbytes := p.bytesPerSector.isLt
  have hle : p.rootSize ≤ 32 * p.rootEntries.toNat + p.bytesPerSector.toNat - 1 :=
    Nat.div_mul_le_self _ _
  omega

theorem layout_fatBegin : p.layout.fatBegin.toNat =
    p.reservedSectors.toNat * p.bytesPerSector.toNat := by
  have hprod : p.reservedSectors.toNat * p.bytesPerSector.toNat ≤ 65535 * 65535 :=
    Nat.mul_le_mul (Nat.le_of_lt_succ p.reservedSectors.isLt)
      (Nat.le_of_lt_succ p.bytesPerSector.isLt)
  unfold Parameters.layout
  rw [Uint64.toNat_ofNat, Nat.mod_eq_of_lt (by omega)]

theorem layout_places : p.layout.rootBegin.toNat =
      p.rootSector * p.bytesPerSector.toNat ∧
    p.layout.rootEnd.toNat = p.layout.rootBegin.toNat + p.rootSize := by
  have hsize := rootSize_lt p
  have hprod : p.rootSector * p.bytesPerSector.toNat ≤ 2 ^ 24 * 65535 :=
    Nat.mul_le_mul (Nat.le_of_lt (rootSector_lt p))
      (Nat.le_of_lt_succ p.bytesPerSector.isLt)
  unfold Parameters.layout
  dsimp only
  rw [Uint64.toNat_ofNat, Uint64.toNat_ofNat, Nat.mod_eq_of_lt (by omega),
    Nat.mod_eq_of_lt (by omega)]
  exact ⟨rfl, rfl⟩

theorem rootSector_toNat {p : Parameters} (h : p.rootSector < 65536) :
    (p.reservedSectors + p.fats.setWidth 16 * p.sectorsPerFat).toNat =
      p.rootSector := by
  have hfats := p.fats.isLt
  unfold Parameters.rootSector at h ⊢
  rw [BitVec.toNat_add, BitVec.toNat_mul, BitVec.toNat_setWidth,
    Nat.mod_eq_of_lt (a := p.fats.toNat) (by omega), Nat.add_mod_mod,
    Nat.mod_eq_of_lt h]

/-- The size of the root directory, with a count of its bytes that wraps. -/
theorem rootSize_word {p : Parameters} (hpos : 0 < p.bytesPerSector.toNat) :
    ((p.rootEntries * 32 + p.bytesPerSector - 1) / p.bytesPerSector *
        p.bytesPerSector).toNat =
      (32 * p.rootEntries.toNat + p.bytesPerSector.toNat - 1) % 65536 /
        p.bytesPerSector.toNat * p.bytesPerSector.toNat := by
  have hentries := p.rootEntries.isLt
  have hone : (p.rootEntries * 32 + p.bytesPerSector - 1).toNat =
      (32 * p.rootEntries.toNat + p.bytesPerSector.toNat - 1) % 65536 := by
    bv_omega
  have hfloor := Nat.div_mul_le_self
    (p.rootEntries * 32 + p.bytesPerSector - 1).toNat p.bytesPerSector.toNat
  have hword := (p.rootEntries * 32 + p.bytesPerSector - 1).isLt
  rw [BitVec.toNat_mul, BitVec.toNat_udiv,
    Nat.mod_eq_of_lt (Nat.lt_of_le_of_lt hfloor hword), hone]

/-- With sectors of 512 bytes the tables are where they should be. -/
theorem fatBegin_eq_layout {p : Parameters} {root : FatGeometry}
    (hroot : parseParams p = .ok root) (hsector : p.bytesPerSector = 512) :
    root.fatBegin.toNat = p.layout.fatBegin.toNat := by
  rw [(parseParams_eq hroot).1, layout_fatBegin, hsector, Nat.mul_comm]
  rfl

/-- So are the data, unless the numbers wrap. -/
theorem rootEnd_eq_layout {p : Parameters} {root : FatGeometry}
    (hroot : parseParams p = .ok root) (hsector : p.bytesPerSector = 512)
    (hsectors : p.rootSector < 65536)
    (hentries : 32 * p.rootEntries.toNat + 511 < 65536) :
    root.rootEnd.toNat = p.layout.rootEnd.toNat := by
  have hbytes : p.bytesPerSector.toNat = 512 := by
    rw [hsector]
    rfl
  rcases parseParams_eq hroot with ⟨_, hbegin, hend, _⟩
  rw [hend, hbegin, rootSector_toNat hsectors,
    rootSize_word (by rw [hbytes]; decide), (layout_places p).2, (layout_places p).1]
  unfold Parameters.rootSize
  rw [hbytes, Nat.mod_eq_of_lt (by omega), Nat.mul_comm]

end Layout

/-!
# Entries
-/

def Stored (bytes : Bytes) (table : List Byte) : Prop :=
  forall i, i < table.length -> bytes i = table.getD i 0

/-- Entry {lit}`n` of the packed table. -/
def fatEntry (table : List Byte) (n : Nat) : Nat :=
  packedEntry 12 (table.map BitVec.toNat) n

/-- The entry in the word that holds it. -/
def entryOfWord (n word : Word) : Word :=
  if n % 2 ≠ 0 then word >>> 4 else word &&& 0x0fff

theorem entryOfWord_toNat {table : List Byte} {n : Word}
    (hn : 12 * (n.toNat + 1) ≤ 8 * table.length) :
    (entryOfWord n (table.getD (3 * n.toNat / 2 + 1) 0 ++
      table.getD (3 * n.toNat / 2) 0)).toNat = fatEntry table n.toNat := by
  generalize hq : 3 * n.toNat / 2 = q
  have hbytes : forall b, b ∈ table.map BitVec.toNat -> b < 256 := by
    intro b hb
    rcases List.mem_map.mp hb with ⟨c, _, rfl⟩
    exact c.isLt
  have hget : forall i, (table.map BitVec.toNat).getD i 0 =
      (table.getD i 0).toNat := by
    intro i
    exact List.getD_map table 0 BitVec.toNat
  have hlen : q + 1 < (table.map BitVec.toNat).length := by
    rw [List.length_map]
    omega
  have hword : (table.getD (q + 1) 0 ++ table.getD q 0).toNat =
      (table.getD q 0).toNat + 256 * (table.getD (q + 1) 0).toNat := by
    have hlow := (table.getD q 0).isLt
    rw [BitVec.toNat_append, ← Nat.shiftLeft_add_eq_or_of_lt hlow,
      Nat.shiftLeft_eq]
    omega
  have hparity : n % 2 ≠ 0 <-> n.toNat % 2 = 1 := by
    rw [Ne, BitVec.toNat_eq, BitVec.toNat_umod]
    change ¬ n.toNat % 2 = 0 <-> _
    omega
  unfold entryOfWord fatEntry packedEntry
  split
  · next hodd =>
      have hodd := hparity.mp hodd
      have hplace : 12 * n.toNat = 8 * q + 4 := by omega
      have hlt := (table.getD (q + 1) 0).isLt
      have hlt' := (table.getD q 0).isLt
      rw [hplace, bitField_eq hbytes hlen (by decide), hget, hget,
        BitVec.toNat_ushiftRight, Nat.shiftRight_eq_div_pow, hword]
      omega
  · next heven =>
      have heven : n.toNat % 2 = 0 := by
        by_contra h
        exact heven (hparity.mpr (by omega))
      have hplace : 12 * n.toNat = 8 * q + 0 := by omega
      rw [hplace, bitField_eq hbytes hlen (by decide), hget, hget,
        BitVec.toNat_and, hword]
      change _ &&& (2 ^ 12 - 1) = _
      rw [Nat.and_two_pow_sub_one_eq_mod, Nat.pow_zero, Nat.div_one]

theorem nextCluster_toNat {root : FatGeometry} {v : Volume} {table : List Byte}
    {n : Word} (hroot : root.fatBegin.toNat < 2 ^ 31)
    (hlen : table.length ≤ 6144)
    (hv : Stored (fun i => v.image (root.fatBegin.toNat + i)) table)
    (hn : 12 * (n.toNat + 1) ≤ 8 * table.length) :
    (nextCluster root v n).1.toNat = fatEntry table n.toNat := by
  have hplace : (n + n / 2).toNat = 3 * n.toNat / 2 := by
    have hhalf : (n / 2).toNat = n.toNat / 2 := BitVec.toNat_udiv
    have hsum : n.toNat + n.toNat / 2 = 3 * n.toNat / 2 := by omega
    rw [BitVec.toNat_add, hhalf, hsum]
    omega
  have hposition : (fatPosition root n).toNat =
      root.fatBegin.toNat + 3 * n.toNat / 2 := by
    unfold fatPosition
    rw [add64_toNat_of_lt hroot, Uint64.toNat_init64, hplace]
    omega
  have hbyte : forall i, i < 2 ->
      (v.seek (fatPosition root n)).data i =
        table.getD (3 * n.toNat / 2 + i) 0 := by
    intro i hi
    have hstored := hv (3 * n.toNat / 2 + i) (by omega)
    unfold Volume.data Volume.seek
    dsimp only
    rw [hposition, ← hstored, Nat.mod_eq_of_lt (by omega), Nat.add_assoc]
  have hword : wordAt (v.seek (fatPosition root n)).data 0 =
      table.getD (3 * n.toNat / 2 + 1) 0 ++ table.getD (3 * n.toNat / 2) 0 := by
    unfold wordAt
    rw [hbyte 0 (by decide), hbyte 1 (by decide)]
    rfl
  rw [← entryOfWord_toNat hn, ← hword]
  rfl

theorem bootNextCluster_toNat {m : Mem} {table : List Byte} {n : Word}
    (hlen : table.length ≤ 6144)
    (hm : Stored (fun i => m (linear Boot.bootSegment (offsetFrom Boot.fat i)))
      table)
    (hn : 12 * (n.toNat + 1) ≤ 8 * table.length) :
    (Boot.nextCluster m n).toNat = fatEntry table n.toNat := by
  have hthree : (n * 3).toNat = 3 * n.toNat := by
    have hmul : (n * 3).toNat = n.toNat * 3 % 65536 := BitVec.toNat_mul ..
    omega
  have hplace : n * 3 / 2 + Boot.fat =
      offsetFrom Boot.fat (3 * n.toNat / 2) := by
    have hhalf : (n * 3 / 2).toNat = (n * 3).toNat / 2 := BitVec.toNat_udiv
    have hnat : n * 3 / 2 = BitVec.ofNat 16 (3 * n.toNat / 2) := by
      apply BitVec.eq_of_toNat_eq
      rw [hhalf, hthree, BitVec.toNat_ofNat]
      omega
    unfold offsetFrom
    rw [hnat, BitVec.add_comm]
  have hsucc : offsetFrom Boot.fat (3 * n.toNat / 2) + 1 =
      offsetFrom Boot.fat (3 * n.toNat / 2 + 1) :=
    (offsetFrom_add Boot.fat _ 1).symm
  have hword : peekw m Boot.bootSegment (n * 3 / 2 + Boot.fat) =
      table.getD (3 * n.toNat / 2 + 1) 0 ++ table.getD (3 * n.toNat / 2) 0 := by
    unfold peekw peek
    rw [hplace, hsucc, ← hm (3 * n.toNat / 2) (by omega),
      ← hm (3 * n.toNat / 2 + 1) (by omega)]
  have hparity : n * 3 % 2 = 0 <-> ¬ n % 2 ≠ 0 := by
    have hmod : forall w : Word, (w % 2).toNat = w.toNat % 2 :=
      fun w => BitVec.toNat_umod
    rw [Ne, not_not, BitVec.toNat_eq, BitVec.toNat_eq, hmod, hmod, hthree]
    change 3 * n.toNat % 2 = 0 <-> n.toNat % 2 = 0
    omega
  rw [← entryOfWord_toNat hn, ← hword]
  unfold Boot.nextCluster entryOfWord
  by_cases hodd : n % 2 ≠ 0
  · rw [if_pos hodd]
    exact congrArg BitVec.toNat (if_neg fun h => hparity.mp h hodd)
  · rw [if_neg hodd]
    exact congrArg BitVec.toNat (if_pos (hparity.mpr hodd))

/-!
# The same file
-/

def bootParameters : Parameters where
  bytesPerSector := Boot.bytesPerSector
  sectorsPerCluster := Boot.sectorsPerCluster
  reservedSectors := Boot.reservedSectorCount
  fats := Boot.fatCount
  rootEntries := Boot.rootEntryCount
  sectorsPerFat := Boot.sectorsPerFat
  hiddenSectors := 0
  totalSectors := 0

def fatBytes : Nat := 9 * 512

theorem clusterPosition_boot {root : FatGeometry}
    (hroot : parseParams bootParameters = .ok root) {n : Word}
    (h2 : 2 ≤ n.toNat) (hn : 12 * (n.toNat + 1) ≤ 8 * fatBytes) :
    (clusterPosition root n).toNat = 512 * (Boot.clusterLba n).toNat := by
  have hfat : fatBytes = 4608 := rfl
  rcases parseParams_eq hroot with ⟨_, hbegin, hend, rest, hpot⟩
  have hpot9 : countPot 512 = .ok (9, 1) := by decide
  have hpot : root.clusterPot = 9 := by
    change countPot 512 = _ at hpot
    rw [hpot9] at hpot
    exact (Prod.mk.inj (Except.ok.inj hpot)).1.symm
  have hroot : root.rootEnd.toNat = 512 * 33 := by
    rw [hend, hbegin]
    rfl
  have hback : (n - 2).toNat = n.toNat - 2 := by
    bv_omega
  have hlba : (Boot.clusterLba n).toNat = n.toNat + 31 := by
    have hstart : Boot.clustersStart.toNat = 31 := by decide
    unfold Boot.clusterLba
    rw [BitVec.toNat_add, hstart]
    omega
  have hshift : (shl64 (init64 0 0 0 (n - 2)) (root.clusterPot.setWidth 16)).toNat =
      512 * (n.toNat - 2) := by
    rw [hpot]
    change (shl64 (init64 0 0 0 (n - 2)) 9).toNat = _
    rw [shl64_blocks, hback]
  unfold clusterPosition
  rw [add64_toNat_of_lt (by rw [hroot]; decide), hshift, hroot, hlba]
  omega

/-- For a table of nine sectors that both hold, the boot loader and the kernel
read the same entries; with the geometry of the boot sector they also find the
clusters in the same places. -/
theorem boot_reads_same_file {params : Parameters} {root : FatGeometry}
    (hroot : parseParams params = .ok root) {table : List Byte}
    (hlen : table.length = fatBytes) {m : Mem}
    (hm : Stored (fun i => m (linear Boot.bootSegment (offsetFrom Boot.fat i)))
      table)
    {v : Volume}
    (hv : Stored (fun i => v.image (root.fatBegin.toNat + i)) table)
    {n : Word} (h2 : 2 ≤ n.toNat) (hn : 12 * (n.toNat + 1) ≤ 8 * fatBytes) :
    (Boot.nextCluster m n).toNat = fatEntry table n.toNat ∧
      (nextCluster root v n).1.toNat = fatEntry table n.toNat ∧
      (params = bootParameters ->
        (clusterPosition root n).toNat = 512 * (Boot.clusterLba n).toNat) := by
  have hsmall : table.length ≤ 6144 := by
    rw [hlen]
    decide
  have hplace : root.fatBegin.toNat < 2 ^ 31 := by
    have hlt := params.reservedSectors.isLt
    rw [(parseParams_eq hroot).1]
    omega
  rw [← hlen] at hn
  refine ⟨bootNextCluster_toNat hsmall hm hn,
    nextCluster_toNat hplace hsmall hv hn, ?_⟩
  rintro rfl
  rw [hlen] at hn
  exact clusterPosition_boot hroot h2 hn

/-!
# Both tables come from one disk
-/

def diskTable (disk : Boot.Disk) : List Byte :=
  (List.range fatBytes).map fun i => disk (512 + i)

theorem diskTable_length (disk : Boot.Disk) :
    (diskTable disk).length = fatBytes := by
  unfold diskTable
  rw [List.length_map, List.length_range]

theorem diskTable_getD (disk : Boot.Disk) {i : Nat} (hi : i < fatBytes) :
    (diskTable disk).getD i 0 = disk (512 + i) := by
  unfold diskTable
  rw [List.getD_eq_getElem _ _ (by simpa using hi)]
  simp

theorem fatRead_stored (disk : Boot.Disk) (m : Mem) :
    Stored (fun i => Boot.fatRead disk m
      (linear Boot.bootSegment (offsetFrom Boot.fat i))) (diskTable disk) := by
  intro i hi
  rw [diskTable_length] at hi
  rw [diskTable_getD disk hi]
  exact Boot.readBlocks_at (by decide) (by decide) hi

theorem diskVolume_stored {v : Volume} {root : FatGeometry}
    (hroot : root.fatBegin.toNat = 512) :
    Stored (fun i => v.image (root.fatBegin.toNat + i))
      (diskTable v.image) := by
  intro i hi
  rw [diskTable_length] at hi
  rw [diskTable_getD v.image hi, hroot]

def countingDisk : Boot.Disk :=
  fun i => BitVec.ofNat 8 i

def bootRoot : FatGeometry where
  rootBegin := init64 0 0 0 0x2600
  rootEnd := init64 0 0 0 0x4200
  fatBegin := init64 0 0 0 0x200
  clusterPot := 9

theorem boot_reads_same_file_counting :
    (Boot.nextCluster (Boot.fatRead countingDisk fun _ => 0) 5).toNat =
        fatEntry (diskTable countingDisk) 5 ∧
      (nextCluster bootRoot ⟨countingDisk, init64 0 0 0 0⟩ 5).1.toNat =
        fatEntry (diskTable countingDisk) 5 ∧
      (bootParameters = bootParameters ->
        (clusterPosition bootRoot 5).toNat =
          512 * (Boot.clusterLba 5).toNat) :=
  boot_reads_same_file (rfl : parseParams bootParameters = .ok bootRoot)
    (diskTable_length countingDisk) (fatRead_stored countingDisk fun _ => 0)
    (v := ⟨countingDisk, init64 0 0 0 0⟩) (diskVolume_stored rfl) (n := 5)
    (by decide) (by decide)

end Fs
end Rmmtos
