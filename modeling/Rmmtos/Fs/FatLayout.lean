import Rmmtos.Fs.FatTable
import Rmmtos.Fs.FailedMounts

/-!
# The layout of a volume

The numbers of a boot sector are turned into the places of the parts of its
volume.  The sector size of the volume is used for the root directory only, and
the loop that counts the shifts needs a product that is not zero.
-/

namespace Rmmtos
namespace Fs

open Library Kernel

/-!
# Shifts
-/

theorem bytesPerCluster_toNat (p : Parameters) :
    (p.sectorsPerCluster.setWidth 16 * p.bytesPerSector).toNat =
      p.clusterBytes % 65536 := by
  have hlt := p.sectorsPerCluster.isLt
  rw [BitVec.toNat_mul, BitVec.toNat_setWidth,
    Nat.mod_eq_of_lt (a := p.sectorsPerCluster.toNat) (by omega)]
  rfl

theorem bytesPerCluster_zero_iff (p : Parameters) :
    p.sectorsPerCluster.setWidth 16 * p.bytesPerSector = 0 <->
      65536 ∣ p.clusterBytes := by
  rw [BitVec.toNat_eq, bytesPerCluster_toNat]
  exact Nat.dvd_iff_mod_eq_zero.symm

theorem bytesPerSector_ne_zero {p : Parameters} (h : ¬ 65536 ∣ p.clusterBytes) :
    p.bytesPerSector ≠ 0 := by
  intro hzero
  apply h
  unfold Parameters.clusterBytes
  rw [hzero]
  exact Nat.dvd_zero _

theorem countPot_pow {b : Word} {j : Nat} (hb : b.toNat = 2 ^ j) :
    exists pot, countPot b = .ok (pot, 1) ∧ pot.toNat = j := by
  have hne : b ≠ 0 := by
    intro hzero
    rw [hzero] at hb
    exact absurd hb.symm (Nat.two_pow_pos j).ne'
  rcases countPot_eq hne with ⟨pot, odd, hcount, ⟨_, heq, _⟩, hodd⟩
  dsimp only at heq hodd
  rw [hb] at heq
  have hone : odd.toNat = 1 := by
    have hdvd : odd.toNat ∣ 2 ^ j := ⟨2 ^ pot.toNat, heq⟩
    rcases (Nat.dvd_prime_pow Nat.prime_two).mp hdvd with ⟨i, _, hi⟩
    cases i with
    | zero => exact hi
    | succ i =>
        rw [hi, Nat.pow_succ] at hodd
        omega
  rw [hone, Nat.one_mul] at heq
  refine ⟨pot, ?_, (Nat.pow_right_injective (Nat.le_refl 2) heq).symm⟩
  rw [hcount]
  exact congrArg (fun w => Except.ok (pot, w)) (BitVec.eq_of_toNat_eq hone)

/-!
# Any boot sector
-/

theorem parseParams_ok {p : Parameters} (h : ¬ 65536 ∣ p.clusterBytes) :
    exists root, parseParams p = .ok root ∧ root.clusterPot.toNat < 16 := by
  have hne := mt (bytesPerCluster_zero_iff p).mp h
  rcases countPot_eq hne with ⟨pot, odd, hcount, hinv, _⟩
  have hdivide : divideWords (p.rootEntries * 32 + p.bytesPerSector - 1)
      p.bytesPerSector = .ok ((p.rootEntries * 32 + p.bytesPerSector - 1) /
        p.bytesPerSector) := by
    unfold divideWords
    rw [if_neg (bytesPerSector_ne_zero h)]
  unfold parseParams
  dsimp only
  rw [hcount, ok_bind, hdivide]
  exact ⟨_, rfl, hinv.2.2⟩

theorem parseParams_hang {p : Parameters} (h : 65536 ∣ p.clusterBytes) :
    parseParams p = .error .hang := by
  unfold parseParams
  dsimp only
  rw [(bytesPerCluster_zero_iff p).mpr h, countPot_zero]
  rfl

def volumeSteps (s : PathState) (data : Word) :
    Result (Word × Word × Word × Word × PathState) := do
  let (directory, s) ← s.directoryCreateNode [] 0 .fatRoot
  let (handle, s) ← s.fileOpen data handleRead
  let (params, s) ← s.malloc parametersSize
  let (rootDirectory, s) ← s.reallocNode directory fatRootDirectorySize
  .ok (directory, handle, params, rootDirectory, s)

/-- {lit}`create_fat_fs` has memory, and has read a boot sector. -/
structure SectorRead (read : DeviceState.ReadOp) (s : PathState) (data : Word)
    (sector : Bytes) (handle params rootDirectory : Word) (t : PathState) : Prop where
  steps : exists directory u,
    volumeSteps s data = .ok (directory, handle, params, rootDirectory, u) ∧
      directory ≠ 0 ∧ params ≠ 0 ∧ handle ≠ 0 ∧
      u.fatReadParameters read handle = .ok (parametersOf sector, t)

def mountedRoot (t : PathState) (rootDirectory : Word) (root : FatGeometry)
    (handle : Word) : PathState :=
  let t := t.setFatRoot rootDirectory
    { t.fatRoot rootDirectory with geometry := root }
  t.setFatRoot rootDirectory { t.fatRoot rootDirectory with handle := handle }

theorem createFatFs_eq {read : DeviceState.ReadOp} {s t : PathState}
    {data handle params rootDirectory : Word} {sector : Bytes}
    (h : SectorRead read s data sector handle params rootDirectory t) :
    s.createFatFs read data = parseParams (parametersOf sector) >>= fun root =>
      (mountedRoot t rootDirectory root handle).free params >>= fun u =>
        .ok (rootDirectory, u) := by
  rcases h.steps with ⟨directory, u, hsteps, hdirectory, hparams, hhandle, hread⟩
  rcases ok_bind_iff.mp hsteps with ⟨⟨_, s₁⟩, hcreate, hsteps⟩
  rcases ok_bind_iff.mp hsteps with ⟨⟨_, s₂⟩, hopen, hsteps⟩
  rcases ok_bind_iff.mp hsteps with ⟨⟨_, s₃⟩, hmalloc, hsteps⟩
  rcases ok_bind_iff.mp hsteps with ⟨⟨_, s₄⟩, hrealloc, hsteps⟩
  cases hsteps
  unfold PathState.createFatFs
  rw [hcreate, ok_bind]
  dsimp only
  rw [hopen, ok_bind]
  dsimp only
  rw [hmalloc, ok_bind]
  dsimp only
  rw [hrealloc, ok_bind]
  dsimp only
  rw [if_pos ⟨hdirectory, hparams, hhandle⟩, hread, ok_bind]
  dsimp only
  cases parseParams (parametersOf sector) with
  | error e => rfl
  | ok root => rfl

/-- The numbers of a boot sector are found when the bytes of a cluster are not
zero as a word, and a mount goes on for ever when they are. -/
theorem boot_sector_parsed (sector : Bytes) :
    ((exists root, parseParams (parametersOf sector) = .ok root ∧
        root.clusterPot.toNat < 16) <->
      ¬ 65536 ∣ (parametersOf sector).clusterBytes) ∧
    parseParams (parametersOf sector) ≠ .error .divideError ∧
    forall read s data handle params rootDirectory t,
      SectorRead read s data sector handle params rootDirectory t ->
        (¬ 65536 ∣ (parametersOf sector).clusterBytes ->
          exists root, root.clusterPot.toNat < 16 ∧
            s.createFatFs read data =
              ((mountedRoot t rootDirectory root handle).free params >>= fun u =>
                .ok (rootDirectory, u))) ∧
        (65536 ∣ (parametersOf sector).clusterBytes ->
          s.createFatFs read data = .error .hang) := by
  refine ⟨⟨?_, parseParams_ok⟩, ?_, ?_⟩
  · rintro ⟨root, hroot, _⟩ hzero
    rw [parseParams_hang hzero] at hroot
    cases hroot
  · intro herror
    by_cases hzero : 65536 ∣ (parametersOf sector).clusterBytes
    · rw [parseParams_hang hzero] at herror
      cases herror
    · rcases parseParams_ok hzero with ⟨root, hroot, _⟩
      rw [hroot] at herror
      cases herror
  · intro read s data handle params rootDirectory t hread
    rw [createFatFs_eq hread]
    constructor
    · intro hzero
      rcases parseParams_ok hzero with ⟨root, hroot, hpot⟩
      rw [hroot]
      exact ⟨root, hpot, rfl⟩
    · intro hzero
      rw [parseParams_hang hzero]
      rfl

def sectorRead (sector : Bytes) : DeviceState.ReadOp :=
  fun _ _ size s => .ok (size, sector, s)

/-- The numbers that {lit}`create_fat_fs` has when it comes to the shifts. -/
def parametersRead (read : DeviceState.ReadOp) (s : PathState) (data : Word) :
    Result (Word × Word × Word × Parameters) := do
  let (directory, handle, params, _, s) ← volumeSteps s data
  let (parameters, _) ← s.fatReadParameters read handle
  .ok (directory, handle, params, parameters)

theorem parametersRead_sector {read : DeviceState.ReadOp} {s : PathState}
    {data directory handle params : Word} {sector : Bytes}
    (hrun : (parametersRead read s data).toOption =
      some (directory, handle, params, parametersOf sector))
    (hdirectory : directory ≠ 0) (hparams : params ≠ 0) (hhandle : handle ≠ 0) :
    exists rootDirectory t,
      SectorRead read s data sector handle params rootDirectory t := by
  cases hcase : parametersRead read s data with
  | error e =>
      rw [hcase] at hrun
      cases hrun
  | ok r =>
      rw [hcase] at hrun
      cases hrun
      rcases ok_bind_iff.mp hcase with ⟨⟨_, _, _, rootDirectory, u⟩, hsteps, hcase⟩
      rcases ok_bind_iff.mp hcase with ⟨⟨_, t⟩, hread, hcase⟩
      cases hcase
      exact ⟨rootDirectory, t, directory, u, hsteps, hdirectory, hparams, hhandle,
        hread⟩

/-- A disk of zeros keeps the mount going for ever. -/
theorem unformatted_disk_hangs :
    smallPaths.createFatFs (sectorRead fun _ => 0) 20 = .error .hang := by
  have hrun : (parametersRead (sectorRead fun _ => 0) smallPaths 20).toOption =
      some (0x9000, 0x9200, 0x9400, parametersOf fun _ => 0) := by
    decide +kernel
  rcases parametersRead_sector hrun (by decide) (by decide) (by decide) with
    ⟨rootDirectory, t, hread⟩
  exact ((boot_sector_parsed fun _ => 0).2.2 _ _ _ _ _ _ _ hread).2
    (Nat.dvd_zero _)

theorem unformatted_disk_unparsed :
    ¬ exists root, parseParams (parametersOf fun _ => 0) = .ok root ∧
      root.clusterPot.toNat < 16 := by
  rintro ⟨root, hroot, _⟩
  rw [parseParams_hang (p := parametersOf fun _ => 0) (Nat.dvd_zero _)] at hroot
  cases hroot

/-!
# Legal volumes
-/

/-- The parameter block of a legal volume. -/
structure LegalVolume (p : Parameters) : Prop where
  sector : p.bytesPerSector = 512 ∨ p.bytesPerSector = 1024 ∨
    p.bytesPerSector = 2048 ∨ p.bytesPerSector = 4096
  cluster : exists k, p.sectorsPerCluster.toNat = 2 ^ k
  clusterBytes : p.clusterBytes ≤ 32768
  sectors : p.rootSector < 65536
  entries : p.rootEntries.toNat ≤ 4096

/-- The places of the parts of a volume, as exact numbers. -/
structure LaidOut (p : Parameters) (root : FatGeometry) : Prop where
  fat : root.fatBegin.toNat = p.reservedSectors.toNat * p.bytesPerSector.toNat
  start : root.rootBegin.toNat = p.rootSector * p.bytesPerSector.toNat
  data : root.rootEnd.toNat = root.rootBegin.toNat + p.rootSize
  cluster : 2 ^ root.clusterPot.toNat = p.clusterBytes

section Legal

variable {p : Parameters}

theorem LegalVolume.bytes (h : LegalVolume p) :
    exists k, p.bytesPerSector.toNat = 2 ^ k ∧ 9 ≤ k ∧ k ≤ 12 := by
  rcases h.sector with hb | hb | hb | hb
  · exact ⟨9, by rw [hb]; rfl, by decide, by decide⟩
  · exact ⟨10, by rw [hb]; rfl, by decide, by decide⟩
  · exact ⟨11, by rw [hb]; rfl, by decide, by decide⟩
  · exact ⟨12, by rw [hb]; rfl, by decide, by decide⟩

theorem LegalVolume.pow (h : LegalVolume p) : exists k, p.clusterBytes = 2 ^ k := by
  rcases h.bytes with ⟨i, hi, _, _⟩
  rcases h.cluster with ⟨k, hk⟩
  refine ⟨k + i, ?_⟩
  unfold Parameters.clusterBytes
  rw [hk, hi, Nat.pow_add]

theorem LegalVolume.laidOut (h : LegalVolume p) : LaidOut p p.layout := by
  rcases layout_places p with ⟨hstart, hdata⟩
  refine ⟨layout_fatBegin p, hstart, hdata, ?_⟩
  rcases h.pow with ⟨k, hk⟩
  have hlow : k < 256 := by
    have hle := h.clusterBytes
    rw [hk] at hle
    have hexp : k ≤ 15 := (Nat.pow_le_pow_iff_right (a := 2) (by decide)).mp hle
    omega
  unfold Parameters.layout
  rw [hk, Nat.log2_two_pow, BitVec.toNat_ofNat, Nat.mod_eq_of_lt hlow]

theorem LegalVolume.parsed (h : LegalVolume p) :
    exists root, parseParams p = .ok root ∧
      2 ^ root.clusterPot.toNat = p.clusterBytes := by
  rcases h.pow with ⟨k, hpow⟩
  have hlt : p.clusterBytes < 65536 :=
    Nat.lt_of_le_of_lt h.clusterBytes (by decide)
  have hword := bytesPerCluster_toNat p
  rw [Nat.mod_eq_of_lt hlt, hpow] at hword
  rcases countPot_pow hword with ⟨pot, hcount, hpot⟩
  have hsome : ¬ 65536 ∣ p.clusterBytes := by
    intro hdvd
    have hpos : 0 < p.clusterBytes := by
      rw [hpow]
      exact Nat.two_pow_pos _
    exact absurd (Nat.le_of_dvd hpos hdvd) (Nat.not_le_of_lt hlt)
  rcases parseParams_ok hsome with ⟨root, hroot, _⟩
  rcases parseParams_eq hroot with ⟨_, _, _, rest, hpot'⟩
  rw [hcount] at hpot'
  cases hpot'
  exact ⟨root, hroot, by rw [hpot, hpow]⟩

theorem LegalVolume.rootSize_iff (h : LegalVolume p) :
    ((p.rootEntries * 32 + p.bytesPerSector - 1) / p.bytesPerSector *
        p.bytesPerSector).toNat = p.rootSize <->
      32 * p.rootEntries.toNat + p.bytesPerSector.toNat - 1 < 65536 := by
  rcases h.bytes with ⟨i, hi, hi9, hi12⟩
  have hpos : 0 < p.bytesPerSector.toNat := by
    rw [hi]
    exact Nat.two_pow_pos i
  rw [rootSize_word hpos]
  unfold Parameters.rootSize
  constructor
  · intro heq
    by_contra hlarge
    -- the exact size is at least the whole sectors of 2 ^ 16 bytes
    have hdvd : 65536 / p.bytesPerSector.toNat * p.bytesPerSector.toNat = 65536 := by
      apply Nat.div_mul_cancel
      rw [hi]
      exact Nat.pow_dvd_pow 2 (n := 16) (by omega)
    have hle : 65536 / p.bytesPerSector.toNat ≤
        (32 * p.rootEntries.toNat + p.bytesPerSector.toNat - 1) /
          p.bytesPerSector.toNat :=
      Nat.div_le_div_right (Nat.le_of_not_lt hlarge)
    have hmul := Nat.mul_le_mul_right p.bytesPerSector.toNat hle
    rw [hdvd, ← heq] at hmul
    have hfloor := Nat.div_mul_le_self
      ((32 * p.rootEntries.toNat + p.bytesPerSector.toNat - 1) % 65536)
      p.bytesPerSector.toNat
    omega
  · intro hsmall
    rw [Nat.mod_eq_of_lt hsmall]

/-- The places are exact when sectors have 512 bytes, or when nothing stands in
front of the root directory, and its bytes can be counted with a word. -/
theorem layout_exact_iff (h : LegalVolume p) :
    (exists root, parseParams p = .ok root ∧ LaidOut p root) <->
      (p.bytesPerSector = 512 ∨ p.rootSector = 0) ∧
        32 * p.rootEntries.toNat + p.bytesPerSector.toNat - 1 < 65536 := by
  rcases h.parsed with ⟨root, hroot, hpot⟩
  rcases parseParams_eq hroot with ⟨hfat, hbegin, hend, _⟩
  rw [rootSector_toNat h.sectors] at hbegin
  have hreserved : p.reservedSectors.toNat ≤ p.rootSector := Nat.le_add_right _ _
  constructor
  · rintro ⟨root', hroot', hlaid⟩
    rw [hroot] at hroot'
    cases hroot'
    have hsize : ((p.rootEntries * 32 + p.bytesPerSector - 1) / p.bytesPerSector *
        p.bytesPerSector).toNat = p.rootSize := by
      have hdata := hlaid.data
      rw [hend] at hdata
      exact Nat.add_left_cancel hdata
    refine ⟨?_, h.rootSize_iff.mp hsize⟩
    have hsame : 512 * p.rootSector = p.bytesPerSector.toNat * p.rootSector := by
      rw [← hbegin, hlaid.start, Nat.mul_comm]
    rcases Nat.eq_zero_or_pos p.rootSector with hzero | hpos
    · exact Or.inr hzero
    · left
      apply BitVec.eq_of_toNat_eq
      exact (Nat.eq_of_mul_eq_mul_right hpos hsame).symm
  · rintro ⟨hsector, hsmall⟩
    refine ⟨root, hroot, ?_, ?_, ?_, hpot⟩
    · rw [hfat]
      rcases hsector with hsector | hzero
      · rw [hsector, Nat.mul_comm]
        rfl
      · rw [hzero] at hreserved
        rw [Nat.le_zero.mp hreserved, Nat.zero_mul]
    · rw [hbegin]
      rcases hsector with hsector | hzero
      · rw [hsector, Nat.mul_comm]
        rfl
      · rw [hzero, Nat.zero_mul]
    · rw [hend, h.rootSize_iff.mpr hsmall]

end Legal

theorem bootParameters_legal : LegalVolume bootParameters where
  sector := Or.inl rfl
  cluster := ⟨0, rfl⟩
  clusterBytes := by decide
  sectors := by decide
  entries := by decide

theorem layout_exact_boot :
    (exists root, parseParams bootParameters = .ok root ∧
        LaidOut bootParameters root) <->
      (bootParameters.bytesPerSector = 512 ∨ bootParameters.rootSector = 0) ∧
        32 * bootParameters.rootEntries.toNat +
          bootParameters.bytesPerSector.toNat - 1 < 65536 :=
  layout_exact_iff bootParameters_legal

def largeSectors : Parameters :=
  { bootParameters with bytesPerSector := 1024 }

theorem largeSectors_misplaced : LegalVolume largeSectors ∧
    ¬ exists root, parseParams largeSectors = .ok root ∧
      LaidOut largeSectors root := by
  constructor
  · exact ⟨Or.inr (Or.inl rfl), ⟨0, rfl⟩, by decide, by decide, by decide⟩
  · rintro ⟨root, hroot, hlaid⟩
    have hfat := (parseParams_eq hroot).1
    rw [hlaid.fat] at hfat
    exact absurd hfat (by decide)

end Fs
end Rmmtos
