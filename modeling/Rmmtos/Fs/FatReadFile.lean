import Rmmtos.Fs.FatChain

/-!
# Reading a file of a volume

{lit}`fat_read_file` on a well-formed volume.  The bytes of a file are those of
the clusters of its chain, and a read is right when it copies the part of them
that is asked for.  It is so unless a part is too large for the count of a
cluster, the position has the wrong place to the end of the file, or the file
has no chain.
-/

namespace Rmmtos
namespace Fs

open Library Kernel

/-!
# Files
-/

def clustersOf (cluster size : Nat) : Nat :=
  (size + cluster - 1) / cluster

/-- A file of a well-formed volume. -/
structure ChainedFile (image : Bytes) (root : FatGeometry) (cluster : Nat)
    (entry : DirectoryEntry) : Prop where
  inside : forall i, i < clustersOf cluster entry.size.toNat ->
    2 ≤ chain image root entry.clusterLo i ∧
      chain image root entry.clusterLo i < 0xff7
  ends : 0 < entry.size.toNat -> 0xff8 ≤ chain image root entry.clusterLo
    (clustersOf cluster entry.size.toNat)
  empty : entry.size.toNat = 0 -> entry.clusterLo = 0

/-- A byte of a file: cluster {lit}`n` begins {lit}`n - 2` clusters behind the
root directory. -/
def fileByte (image : Bytes) (root : FatGeometry) (cluster : Nat)
    (entry : DirectoryEntry) (j : Nat) : Byte :=
  image (root.rootEnd.toNat +
    ((chain image root entry.clusterLo (j / cluster)).toNat - 2) * cluster +
      j % cluster)

def fileEntry (image : Bytes) (entryPosition : Uint64) : DirectoryEntry :=
  directoryEntry (Volume.data ⟨image, entryPosition⟩)

def wantedBytes (entry : DirectoryEntry) (position : Uint64) (count : Word) : Nat :=
  min count.toNat (entry.size.toNat - position.toNat)

/-- A read copies the bytes of the file that are asked for, returns their
number and moves the position by it. -/
def ReadsFile (root : FatGeometry) (v : Volume) (entryPosition position : Uint64)
    (count : Word) (file : Nat -> Byte) : Prop :=
  let wanted := wantedBytes (fileEntry v.image entryPosition) position count
  forall buffer, exists r,
    fatReadFile root v entryPosition position buffer count = .ok r ∧
      r.completed.toNat = wanted ∧
      r.position.toNat = position.toNat + wanted ∧
      r.buffer = writeRun (fun j => j) (fun j => file (position.toNat + j)) wanted
        buffer

/-!
# When a read is right
-/

/-- The file and the numbers of a read. -/
def fileRead (cluster : Nat) (entry : DirectoryEntry) (position : Uint64) :
    FileRead where
  clusters := clustersOf cluster entry.size.toNat
  size := entry.size.toNat
  position := position.toNat

def readNumbers (cluster : Nat) (entry : DirectoryEntry) (count : Word) :
    PartsOf where
  cluster := cluster
  endOffset := entry.size.toNat % cluster
  count := count.toNat

/-- The read of a file that is not empty: it begins behind the last cluster, or
it has the right place to the end of the file and no cluster gives 4096
bytes. -/
def ReadsFilled (cluster : Nat) (entry : DirectoryEntry) (position : Uint64)
    (count : Word) : Prop :=
  (fileRead cluster entry position).clusters * cluster ≤ position.toNat ∨
    (fileRead cluster entry position).Plain (readNumbers cluster entry count) ∧
      forall i, (fileRead cluster entry position).part
        (readNumbers cluster entry count) i < 4096

/-- The read of an empty file, which follows the chain of cluster 0: it ends in
front of the position, or right behind it. -/
def ReadsEmpty (image : Bytes) (root : FatGeometry) (cluster : Nat)
    (position : Uint64) : Prop :=
  (exists i, (i ≤ position.toNat / cluster ∨ 65536 ≤ position.toNat / cluster) ∧
      0xff7 ≤ chain image root 0 i) ∨
    position.toNat % cluster = 0 ∧
      0xff8 ≤ chain image root 0 (position.toNat / cluster + 1)

/-- The driver has the bytes that are asked for where they are laid. -/
def BytesPlaced (image : Bytes) (root laid : FatGeometry) (cluster : Nat)
    (entry : DirectoryEntry) (position : Uint64) (count : Word) : Prop :=
  forall j, j < wantedBytes entry position count ->
    fileByte image root cluster entry (position.toNat + j) =
      fileByte image laid cluster entry (position.toNat + j)

def ReadsRight (image : Bytes) (root : FatGeometry) (cluster : Nat)
    (entry : DirectoryEntry) (position : Uint64) (count : Word) : Prop :=
  count.toNat = 0 ∨
    0 < entry.size.toNat ∧ ReadsFilled cluster entry position count ∨
    entry.size.toNat = 0 ∧ ReadsEmpty image root cluster position

/-!
# The geometry
-/

structure Clustered (root : FatGeometry) (cluster : Nat) : Prop where
  cluster_eq : cluster = 2 ^ root.clusterPot.toNat
  pot : root.clusterPot.toNat ≤ 15
  fat : root.fatBegin.toNat < 2 ^ 31
  data : root.rootEnd.toNat < 2 ^ 31

theorem clustered_of_parseParams {params : Parameters} {root : FatGeometry}
    (hroot : parseParams params = .ok root) (hsector : params.bytesPerSector = 512)
    {k : Nat} (hk : params.sectorsPerCluster.toNat = 2 ^ k) :
    Clustered root (params.sectorsPerCluster.toNat * 512) := by
  rcases parseParams_eq hroot with ⟨hfat, hbegin, hend, rest, hpot⟩
  have hsectors := params.sectorsPerCluster.isLt
  have hk8 : k < 8 := by
    rw [hk] at hsectors
    exact (Nat.pow_lt_pow_iff_right (by decide)).mp hsectors
  have hvalue : (params.sectorsPerCluster.setWidth 16 *
      params.bytesPerSector).toNat = params.sectorsPerCluster.toNat * 512 % 65536 := by
    rw [hsector, BitVec.toNat_mul, BitVec.toNat_setWidth,
      Nat.mod_eq_of_lt (a := params.sectorsPerCluster.toNat) (by omega)]
    rfl
  have hne : params.sectorsPerCluster.setWidth 16 * params.bytesPerSector ≠ 0 := by
    intro hzero
    rw [hzero, countPot_zero] at hpot
    cases hpot
  rcases countPot_eq hne with ⟨pot, odd, hcount, ⟨_, heq, hlt⟩, hodd⟩
  rw [hpot] at hcount
  cases hcount
  dsimp only at heq hlt hodd
  have hfits : params.sectorsPerCluster.toNat * 512 < 65536 := by
    rcases Nat.lt_or_ge k 7 with hsmall | hlarge
    · have hle : 2 ^ k ≤ 2 ^ 6 := Nat.pow_le_pow_right (by decide) (by omega)
      omega
    · have hseven : k = 7 := by omega
      rw [hk, hseven] at hvalue
      exact absurd (BitVec.eq_of_toNat_eq hvalue) hne
  rw [hvalue, Nat.mod_eq_of_lt hfits] at heq
  have hone : rest.toNat = 1 := by
    have hdvd : rest.toNat ∣ 2 ^ (k + 9) := by
      refine ⟨2 ^ root.clusterPot.toNat, ?_⟩
      rw [← heq, hk, Nat.pow_add]
    have hcoprime : rest.toNat.Coprime 2 :=
      Nat.coprime_two_right.mpr (Nat.odd_iff.mpr hodd)
    exact Nat.Coprime.eq_one_of_dvd (hcoprime.pow_right (k + 9)) hdvd
  refine ⟨?_, by omega, ?_, ?_⟩
  · rw [heq, hone, Nat.one_mul]
  · have hlt := params.reservedSectors.isLt
    omega
  · have hlt := (params.reservedSectors +
      params.fats.setWidth 16 * params.sectorsPerFat).isLt
    have hroom := ((params.rootEntries * 32 + params.bytesPerSector - 1) /
      params.bytesPerSector * params.bytesPerSector).isLt
    omega

theorem Clustered.pos {root : FatGeometry} {cluster : Nat}
    (h : Clustered root cluster) : 0 < cluster ∧ cluster ≤ 32768 := by
  rw [h.cluster_eq]
  exact ⟨Nat.two_pow_pos _, Nat.pow_le_pow_right (n := 2) (by decide) h.pot⟩

theorem Clustered.mod_lt {root : FatGeometry} {cluster : Nat}
    (h : Clustered root cluster) (a : Nat) :
    a % cluster < 2 ^ root.clusterPot.toNat := by
  rw [← h.cluster_eq]
  exact Nat.mod_lt _ h.pos.1

theorem Clustered.position {root : FatGeometry} {cluster : Nat}
    (h : Clustered root cluster) {n : Word} (hn : 2 ≤ n) :
    (clusterPosition root n).toNat =
      root.rootEnd.toNat + (n.toNat - 2) * cluster := by
  have hle := h.pos.2
  have hdata := h.data
  have hpot := h.pot
  have hback : (n - 2).toNat = n.toNat - 2 := by
    bv_omega
  have hlt := (n - 2).isLt
  have hwidth : (root.clusterPot.setWidth 16).toNat = root.clusterPot.toNat := by
    rw [BitVec.toNat_setWidth]
    exact Nat.mod_eq_of_lt (by omega)
  have hprod : (n.toNat - 2) * cluster ≤ 65536 * 32768 :=
    Nat.mul_le_mul (by omega) hle
  unfold clusterPosition
  rw [add64_toNat_of_lt hdata, shl64_toNat, Uint64.toNat_init64,
    hback, hwidth, ← h.cluster_eq]
  omega

theorem fits {cluster : Nat} (hpos : 0 < cluster ∧ cluster ≤ 32768)
    {entry : DirectoryEntry} (hsize : 0 < entry.size.toNat) (position : Uint64)
    (count : Word) :
    (fileRead cluster entry position).Fits (readNumbers cluster entry count) := by
  have hdiv := Nat.div_add_mod (entry.size.toNat + cluster - 1) cluster
  have hmod := Nat.mod_lt (entry.size.toNat + cluster - 1) hpos.1
  have hsome : 0 < (entry.size.toNat + cluster - 1) / cluster :=
    Nat.div_pos (by omega) hpos.1
  have hlow : ((entry.size.toNat + cluster - 1) / cluster - 1) * cluster +
      cluster = cluster * ((entry.size.toNat + cluster - 1) / cluster) := by
    rw [← Nat.succ_mul, Nat.succ_eq_add_one, Nat.sub_add_cancel hsome,
      Nat.mul_comm]
  refine ⟨hpos.1, hpos.2, hsome, ?_, ?_, rfl⟩
  · change ((entry.size.toNat + cluster - 1) / cluster - 1) * cluster <
      entry.size.toNat
    omega
  · change entry.size.toNat ≤
      (entry.size.toNat + cluster - 1) / cluster * cluster
    rw [Nat.mul_comm]
    omega

/-!
# Runs
-/

structure Starts (cluster : Nat) (image : Bytes) (entry : DirectoryEntry)
    (position : Uint64) (x : FatRead) (endOffset : Word) : Prop where
  image_eq : x.volume.image = image
  whole : x.wholeClustersLeft.toNat = position.toNat / cluster
  offset : x.clusterOffset.toNat = position.toNat % cluster
  current : x.currentCluster = entry.clusterLo
  completed : x.completed = 0
  endOffset_eq : endOffset.toNat = entry.size.toNat % cluster

def readResult (position : Uint64) (x : FatRead) : FatReadResult :=
  ⟨x.completed, add64_16 position x.completed, x.volume, x.buffer⟩

section Runs

variable {root : FatGeometry} {cluster : Nat} {v : Volume}
  {entryPosition position : Uint64} {count : Word} {file : Nat -> Byte}

theorem Starts.numbers {image : Bytes} {entry : DirectoryEntry} {x : FatRead}
    {endOffset : Word} (hx : Starts cluster image entry position x endOffset)
    (h : Clustered root cluster) (count : Word) :
    partsOf root endOffset count = readNumbers cluster entry count := by
  unfold partsOf readNumbers
  rw [← h.cluster_eq, hx.endOffset_eq]

theorem exists_starts (image : Bytes) (entryPosition position : Uint64)
    (h : Clustered root cluster) :
    exists offset whole endOffset rest,
      shr64 position (root.clusterPot.setWidth 16) = .ok (offset, whole) ∧
      shr64 (init64 0 0 0 ((fileEntry image entryPosition).size.extractLsb' 0 16))
        (root.clusterPot.setWidth 16) = .ok (endOffset, rest) ∧
      forall buffer, Starts cluster image (fileEntry image entryPosition) position
        ⟨⟨image, add64 entryPosition (init64 0 0 0 directoryEntrySize)⟩, whole, offset,
          (fileEntry image entryPosition).clusterLo, 0, buffer⟩ endOffset := by
  have hpot := h.pot
  have hwidth : (root.clusterPot.setWidth 16).toNat = root.clusterPot.toNat := by
    rw [BitVec.toNat_setWidth]
    exact Nat.mod_eq_of_lt (by omega)
  rcases shr64_eq position (n := root.clusterPot.setWidth 16) (by omega) with
    ⟨offset, whole, hshift, hwhole, hoffset⟩
  rcases shr64_eq (init64 0 0 0
    ((fileEntry image entryPosition).size.extractLsb' 0 16))
      (n := root.clusterPot.setWidth 16) (by omega) with
    ⟨endOffset, rest, hend, _, hlow⟩
  rw [hwidth, ← h.cluster_eq] at hwhole hoffset hlow
  refine ⟨offset, whole, endOffset, rest, hshift, hend, fun buffer =>
    ⟨rfl, hwhole, hoffset, rfl, rfl, ?_⟩⟩
  have hdvd : cluster ∣ 2 ^ 16 := by
    rw [h.cluster_eq]
    exact Nat.pow_dvd_pow 2 (by omega)
  rw [hlow, Uint64.toNat_init64, BitVec.extractLsb'_toNat, Nat.shiftRight_zero]
  exact Nat.mod_mod_of_dvd _ hdvd

theorem fatReadFile_eq (v : Volume) (entryPosition position : Uint64)
    (count : Word) (h : Clustered root cluster) :
    exists x endOffset,
      Starts cluster v.image (fileEntry v.image entryPosition) position x
        endOffset ∧
      forall buffer,
        fatReadFile root v entryPosition position buffer count =
          fatReadLoop root endOffset count fatReadStates
            { x with buffer := buffer } >>=
              fun y => .ok (readResult position y) := by
  rcases exists_starts v.image entryPosition position h with
    ⟨offset, whole, endOffset, rest, hshift, hend, hstarts⟩
  refine ⟨_, endOffset, hstarts v.image, ?_⟩
  intro buffer
  have hend' : shr64 (init64 0 0 0 ((directoryEntry
      (v.seek entryPosition).data).size.extractLsb' 0 16))
        (root.clusterPot.setWidth 16) = .ok (endOffset, rest) := hend
  unfold fatReadFile
  rw [hshift, ok_bind]
  dsimp only
  rw [hend']
  rfl

theorem readResult_none (position : Uint64) {x : FatRead} (hx : x.completed = 0) :
    (readResult position x).completed.toNat = 0 ∧
      (readResult position x).position.toNat = position.toNat := by
  unfold readResult
  rw [hx]
  refine ⟨rfl, ?_⟩
  dsimp only
  rw [add64_16_toNat]
  exact Nat.mod_eq_of_lt position.toNat_lt

theorem runs_none (h : Clustered root cluster) (hcount : count.toNat = 0)
    (buffer : Bytes) :
    exists r, fatReadFile root v entryPosition position buffer count = .ok r ∧
      r.completed.toNat = 0 ∧ r.position.toNat = position.toNat ∧
      r.buffer = buffer := by
  rcases fatReadFile_eq v entryPosition position count h with
    ⟨x, endOffset, hx, hrun⟩
  have hdone : fatReadLoop root endOffset count fatReadStates
      { x with buffer := buffer } = .ok { x with buffer := buffer } := by
    apply fatReadLoop_done
    left
    rw [BitVec.le_def, hcount]
    exact Nat.zero_le _
  have hend := readResult_none position (x := { x with buffer := buffer }) hx.completed
  refine ⟨readResult position { x with buffer := buffer }, ?_, hend.1, hend.2, rfl⟩
  rw [hrun, hdone]
  rfl

theorem runs_passing (h : Clustered root cluster) (hcount : 0 < count.toNat)
    {k : Nat} (hk : k ≤ position.toNat / cluster ∨
      65536 ≤ position.toNat / cluster)
    (hend : 0xff7 ≤ chain v.image root (fileEntry v.image entryPosition).clusterLo k)
    (buffer : Bytes) :
    exists r, fatReadFile root v entryPosition position buffer count = .ok r ∧
      r.completed.toNat = 0 ∧ r.position.toNat = position.toNat ∧
      r.buffer = buffer := by
  rcases fatReadFile_eq v entryPosition position count h with
    ⟨x, endOffset, hx, hrun⟩
  rcases chain_first hend with ⟨m, hmk, hm, hlast, hchain⟩
  have hc : x.completed < count := by
    rw [hx.completed]
    exact hcount
  have hleft : Uint64.High x.wholeClustersLeft ∨
      m ≤ x.wholeClustersLeft.toNat := by
    rw [hx.whole]
    rcases hk with hle | hlarge
    · exact Or.inr (Nat.le_trans hmk hle)
    · left
      apply high_of_le
      rw [hx.whole]
      exact hlarge
  rcases @passes root endOffset count x h.fat _ 0 hc hx.current m
    (by
      intro j hj
      rw [hx.image_eq, Nat.zero_add]
      exact hchain j hj) hleft with ⟨y, hpass, hpassed, _⟩
  have hfuel : fatReadStates = (fatReadStates - m) + m := by
    have hlarge : 65536 ≤ fatReadStates := by decide
    omega
  have hdone : fatReadLoop root endOffset count fatReadStates
      { x with buffer := buffer } = .ok { y with buffer := buffer } := by
    rw [hfuel, hpass]
    apply fatReadLoop_done
    right
    change 0xff7 ≤ y.currentCluster
    rw [hpassed.cluster, hx.image_eq, Nat.zero_add]
    exact hlast
  have hnone := readResult_none position (x := { y with buffer := buffer })
    (hpassed.completed.trans hx.completed)
  refine ⟨readResult position { y with buffer := buffer }, ?_, hnone.1, hnone.2, rfl⟩
  rw [hrun, hdone]
  rfl

theorem runs_to_position {x : FatRead} {entry : DirectoryEntry}
    {endOffset : Word} (h : Clustered root cluster)
    (hx : Starts cluster v.image entry position x endOffset)
    (hcount : 0 < count.toNat) (hlow : position.toNat / cluster < 65536)
    (hchain : forall j, j < position.toNat / cluster ->
      chain v.image root entry.clusterLo j < 0xff7) :
    exists y : FatRead, (forall buffer n,
        fatReadLoop root endOffset count (n + position.toNat / cluster)
            { x with buffer := buffer } =
          fatReadLoop root endOffset count n { y with buffer := buffer }) ∧
      y.volume.image = v.image ∧
      y.currentCluster =
        chain v.image root entry.clusterLo (position.toNat / cluster) ∧
      y.clusterOffset.toNat = position.toNat % cluster ∧
      y.completed = 0 ∧ y.wholeClustersLeft.toNat = 0 := by
  have hc : x.completed < count := by
    rw [hx.completed]
    exact hcount
  have hnot : ¬ Uint64.High x.wholeClustersLeft := by
    apply not_high_of_lt
    rw [hx.whole]
    exact hlow
  rcases @passes root endOffset count x h.fat _ 0 hc hx.current
    (position.toNat / cluster)
    (by
      intro j hj
      rw [hx.image_eq, Nat.zero_add]
      exact hchain j hj) (Or.inr (by rw [hx.whole])) with
    ⟨y, hpass, hpassed, _, hcounted⟩
  have hcluster := hpassed.cluster
  rw [hx.image_eq, Nat.zero_add] at hcluster
  refine ⟨y, hpass, hpassed.image.trans hx.image_eq, hcluster, ?_,
    hpassed.completed.trans hx.completed, ?_⟩
  · rw [hpassed.offset]
    exact hx.offset
  · rw [hcounted hnot, hx.whole, Nat.sub_self]

theorem runs_parts (h : Clustered root cluster) (hcount : 0 < count.toNat)
    (hlow : position.toNat / cluster < 65536) {left : Nat}
    (hchain : forall j, j < position.toNat / cluster + left ->
      chain v.image root (fileEntry v.image entryPosition).clusterLo j < 0xff7)
    (hleft : left ≤ 65536)
    (hlast : 0xff8 ≤ chain v.image root (fileEntry v.image entryPosition).clusterLo
      (position.toNat / cluster + left)) (buffer : Bytes) :
    exists r, fatReadFile root v entryPosition position buffer count = .ok r ∧
      r.position.toNat = (position.toNat + r.completed.toNat) % 2 ^ 64 ∧
      (r.completed.toNat, r.buffer) =
        readParts (readNumbers cluster (fileEntry v.image entryPosition) count)
          (clusterByte v.image root (fileEntry v.image entryPosition).clusterLo)
          left (position.toNat / cluster) (position.toNat % cluster) 0 buffer := by
  rcases fatReadFile_eq v entryPosition position count h with
    ⟨x, endOffset, hx, hrun⟩
  rcases runs_to_position h hx hcount hlow (fun j hj => hchain j (by omega)) with
    ⟨y, hpass, himage, hcluster, hoffset, hcompleted, hwhole⟩
  have hfuel : fatReadStates = (fatReadStates - (position.toNat / cluster + left) +
      left) + position.toNat / cluster := by
    have hlarge : 131072 ≤ fatReadStates := by decide
    omega
  have hstart : y.currentCluster = chain y.volume.image root
      (fileEntry v.image entryPosition).clusterLo (position.toNat / cluster) := by
    rw [himage]
    exact hcluster
  have hinner : forall j, j < left -> chain y.volume.image root
      (fileEntry v.image entryPosition).clusterLo
        (position.toNat / cluster + j) < 0xff7 := by
    intro j hj
    rw [himage]
    exact hchain _ (by omega)
  have hends : 0xff8 ≤ chain y.volume.image root
      (fileEntry v.image entryPosition).clusterLo
        (position.toNat / cluster + left) := by
    rw [himage]
    exact hlast
  rcases reads (x := { y with buffer := buffer })
    (n := fatReadStates - (position.toNat / cluster + left)) h.fat h.pot
    (by rw [hx.endOffset_eq]; exact h.mod_lt _) hwhole
    (by change y.clusterOffset.toNat < _; rw [hoffset]; exact h.mod_lt _)
    hstart hinner hends with ⟨z, hz, hparts⟩
  dsimp only at hparts
  rw [hx.numbers h count, himage, hoffset, hcompleted] at hparts
  refine ⟨readResult position z, ?_, add64_16_toNat _ _, hparts⟩
  rw [hrun, hfuel, hpass, hz]
  rfl

/-- A read that writes a byte behind those asked for is not right: two buffers
that differ there end with the same byte. -/
theorem not_reads_of_written (h : Clustered root cluster)
    (hcount : 0 < count.toNat) (hlow : position.toNat / cluster < 65536)
    (hchain : forall j, j ≤ position.toNat / cluster ->
      chain v.image root (fileEntry v.image entryPosition).clusterLo j < 0xff7)
    (left : Nat) {t : Nat}
    (hlast : 0xff8 ≤ chain v.image root (fileEntry v.image entryPosition).clusterLo
      (position.toNat / cluster + 1) <-> left = 0)
    (hwanted : wantedBytes (fileEntry v.image entryPosition) position count ≤ t)
    (hsize : t < (readNumbers cluster (fileEntry v.image entryPosition) count).size
      left (position.toNat % cluster) 0) :
    ¬ ReadsFile root v entryPosition position count file := by
  intro hreads
  rcases fatReadFile_eq v entryPosition position count h with
    ⟨x, endOffset, hx, hrun⟩
  rcases runs_to_position h hx hcount hlow (fun j hj => hchain j (by omega)) with
    ⟨y, hpass, himage, hcluster, hoffset, hcompleted, hwhole⟩
  have hc : y.completed < count := by
    rw [hcompleted]
    exact hcount
  have hlt : y.currentCluster < 0xff7 := by
    rw [hcluster]
    exact hchain _ (Nat.le_refl _)
  rcases @fatReadTurn_read root endOffset count y h.fat hlt hwhole with
    ⟨w, _, _, hturn⟩
  have hnext : tableEntry y.volume.image root y.currentCluster =
      chain v.image root (fileEntry v.image entryPosition).clusterLo
        (position.toNat / cluster + 1) := by
    rw [himage, hcluster]
    rfl
  rw [hnext] at hturn
  have hpart := @clusterPart_toNat root endOffset count y h.pot
    (by rw [hx.endOffset_eq]; exact h.mod_lt _) (by rw [hoffset]; exact h.mod_lt _) hc _
    left hlast
  rw [hx.numbers h count, hoffset, hcompleted] at hpart
  have hlarge : 131072 ≤ fatReadStates := by decide
  rcases Nat.exists_eq_add_of_le (show position.toNat / cluster + 1 ≤
    fatReadStates by omega) with ⟨fuel, hfuel⟩
  rw [Nat.add_comm, ← Nat.add_assoc, Nat.add_right_comm] at hfuel
  have hstep : forall buffer, fatReadFile root v entryPosition position buffer
      count =
        fatReadLoop root endOffset count fuel
          (fatReadTurn root endOffset count { y with buffer := buffer }) >>=
            fun y => .ok (readResult position y) := by
    intro buffer
    rw [hrun buffer, hfuel, hpass buffer,
      @fatReadLoop_turn root endOffset count { y with buffer := buffer } _ hc hlt]
  have hagree : AgreeAt t
      (fatReadTurn root endOffset count { y with buffer := fun _ => 0 })
      (fatReadTurn root endOffset count { y with buffer := fun _ => 1 }) := by
    rw [hturn, hturn]
    refine ⟨_, rfl, ?_⟩
    unfold readTurn
    dsimp only
    rw [hcompleted, hpart]
    have hat : forall buffer : Bytes, writeRun (fun i => (0 : Word).toNat + i) w.data
        ((readNumbers cluster (fileEntry v.image entryPosition) count).size left
          (position.toNat % cluster) (0 : Word).toNat) buffer
            ((0 : Word).toNat + t) = w.data t :=
      fun buffer => writeRun_at (fun i j _ _ hij => Nat.add_left_cancel hij) hsize
    have hplace : (0 : Word).toNat + t = t := Nat.zero_add t
    rw [hplace] at hat
    rw [hat, hat]
  rcases hreads (fun _ => 0) with ⟨r, hr, _, _, hzero⟩
  rcases hreads (fun _ => 1) with ⟨r', hr', _, _, hone⟩
  rw [hstep] at hr hr'
  rcases ok_bind_iff.mp hr with ⟨z, hz, hend⟩
  rcases ok_bind_iff.mp hr' with ⟨z', hz', hend'⟩
  rcases fatReadLoop_agree hagree hz with ⟨z₁, hz₁, buffer, heq, hsame⟩
  rw [hz'] at hz₁
  have hbuffer : r.buffer t = r'.buffer t := by
    rw [← Except.ok.inj hend, ← Except.ok.inj hend', Except.ok.inj hz₁, heq]
    exact hsame.symm
  have hother : forall i,
      i < wantedBytes (fileEntry v.image entryPosition) position count -> t ≠ i :=
    fun i hi heq => by omega
  rw [hzero, hone, writeRun_other hother, writeRun_other hother] at hbuffer
  exact absurd hbuffer (by decide)

/-!
# Files with bytes
-/

theorem wantedBytes_zero (entry : DirectoryEntry) (position : Uint64) (count : Word)
    (hwanted : entry.size.toNat ≤ position.toNat ∨ count.toNat = 0) :
    wantedBytes entry position count = 0 := by
  unfold wantedBytes
  omega

theorem ReadsFile.congr {file' : Nat -> Byte}
    (h : ReadsFile root v entryPosition position count file)
    (hsame : forall j,
      j < wantedBytes (fileEntry v.image entryPosition) position count ->
        file (position.toNat + j) = file' (position.toNat + j)) :
    ReadsFile root v entryPosition position count file' := by
  intro buffer
  rcases h buffer with ⟨r, hr, hcompleted, hposition, hbuffer⟩
  exact ⟨r, hr, hcompleted, hposition, hbuffer.trans (writeRun_congr hsame)⟩

theorem ReadsFile.unique {file' : Nat -> Byte}
    (h : ReadsFile root v entryPosition position count file)
    (h' : ReadsFile root v entryPosition position count file') {j : Nat}
    (hj : j < wantedBytes (fileEntry v.image entryPosition) position count) :
    file (position.toNat + j) = file' (position.toNat + j) := by
  rcases h (fun _ => 0) with ⟨r, hr, _, _, hbuffer⟩
  rcases h' (fun _ => 0) with ⟨r', hr', _, _, hbuffer'⟩
  rw [Except.ok.inj (hr.symm.trans hr'), hbuffer'] at hbuffer
  have hbyte := congrFun hbuffer j
  have hinj : forall i k, i < wantedBytes (fileEntry v.image entryPosition) position
      count -> k < wantedBytes (fileEntry v.image entryPosition) position count ->
      i = k -> i = k := fun _ _ _ _ h => h
  rw [writeRun_at hinj hj, writeRun_at hinj hj] at hbyte
  exact hbyte.symm

theorem readsFile_of_none
    (hwanted : (fileEntry v.image entryPosition).size.toNat ≤ position.toNat ∨
      count.toNat = 0)
    (hrun : forall buffer, exists r,
      fatReadFile root v entryPosition position buffer count = .ok r ∧
        r.completed.toNat = 0 ∧ r.position.toNat = position.toNat ∧
        r.buffer = buffer) :
    ReadsFile root v entryPosition position count file := by
  have hzero : wantedBytes (fileEntry v.image entryPosition) position count = 0 :=
    wantedBytes_zero _ _ _ hwanted
  intro buffer
  rw [hzero]
  exact hrun buffer

theorem clusterByte_eq (h : Clustered root cluster) {entry : DirectoryEntry}
    (hfile : ChainedFile v.image root cluster entry) {i j : Nat}
    (hi : i < clustersOf cluster entry.size.toNat) (hj : j < cluster) :
    clusterByte v.image root entry.clusterLo i j =
      fileByte v.image root cluster entry (i * cluster + j) := by
  have hpos := h.pos
  have hdata := h.data
  have hdiv : (i * cluster + j) / cluster = i := by
    rw [Nat.mul_comm, Nat.mul_add_div hpos.1, Nat.div_eq_of_lt hj, Nat.add_zero]
  have hmod : (i * cluster + j) % cluster = j := by
    rw [Nat.mul_comm, Nat.mul_add_mod, Nat.mod_eq_of_lt hj]
  have hlt := (chain v.image root entry.clusterLo i).isLt
  have hprod : ((chain v.image root entry.clusterLo i).toNat - 2) * cluster ≤
      65536 * 32768 := Nat.mul_le_mul (by omega) hpos.2
  unfold clusterByte fileByte
  rw [hdiv, hmod, h.position (hfile.inside i hi).1, Nat.mod_eq_of_lt (by omega)]

theorem ChainedFile.clusters_lt {entry : DirectoryEntry}
    (hfile : ChainedFile v.image root cluster entry) (hsize : 0 < entry.size.toNat) :
    clustersOf cluster entry.size.toNat < 65536 := by
  have hend := BitVec.le_trans (x := 0xff7) (by decide) (hfile.ends hsize)
  rcases chain_first hend with ⟨k, hk, hlt, hlast, _⟩
  rcases Nat.lt_or_eq_of_le hk with hinner | heq
  · exact absurd (hfile.inside k hinner).2 (BitVec.not_lt.mpr hlast)
  · rwa [← heq]

theorem runs_inside (h : Clustered root cluster) (hcount : 0 < count.toNat)
    (hfile : ChainedFile v.image root cluster (fileEntry v.image entryPosition))
    (hsize : 0 < (fileEntry v.image entryPosition).size.toNat)
    (hin : position.toNat < clustersOf cluster
      (fileEntry v.image entryPosition).size.toNat * cluster) :
    exists left,
      (fileRead cluster (fileEntry v.image entryPosition) position).At
        (readNumbers cluster (fileEntry v.image entryPosition) count) (left + 1)
          (position.toNat / cluster) (position.toNat % cluster) 0 ∧
      forall buffer, exists r,
        fatReadFile root v entryPosition position buffer count = .ok r ∧
          r.position.toNat = (position.toNat + r.completed.toNat) % 2 ^ 64 ∧
          (r.completed.toNat, r.buffer) =
            readParts (readNumbers cluster (fileEntry v.image entryPosition) count)
              (clusterByte v.image root
                (fileEntry v.image entryPosition).clusterLo) (left + 1)
              (position.toNat / cluster) (position.toNat % cluster) 0 buffer := by
  have hpos := h.pos.1
  have hlow := hfile.clusters_lt hsize
  have hq : position.toNat / cluster < clustersOf cluster
      (fileEntry v.image entryPosition).size.toNat :=
    (Nat.div_lt_iff_lt_mul hpos).mpr hin
  rcases Nat.exists_eq_add_of_lt hq with ⟨left, hleft⟩
  rw [Nat.add_assoc] at hleft
  refine ⟨left, ⟨hleft.symm, Nat.mod_lt _ hpos, ?_, Or.inr rfl, Nat.zero_le _⟩, ?_⟩
  · exact (Nat.div_add_mod' _ _).symm
  · have hfew : position.toNat / cluster < 65536 ∧ left + 1 ≤ 65536 := by
      generalize position.toNat / cluster = q at hleft
      omega
    apply runs_parts h hcount hfew.1 _ hfew.2
    · rw [← hleft]
      exact hfile.ends hsize
    · rw [← hleft]
      exact fun j hj => (hfile.inside j hj).2

theorem reads_inside (h : Clustered root cluster) (hcount : 0 < count.toNat)
    (hfile : ChainedFile v.image root cluster (fileEntry v.image entryPosition))
    (hsize : 0 < (fileEntry v.image entryPosition).size.toNat)
    (hin : position.toNat < clustersOf cluster
      (fileEntry v.image entryPosition).size.toNat * cluster)
    (hplain : (fileRead cluster (fileEntry v.image entryPosition) position).Plain
      (readNumbers cluster (fileEntry v.image entryPosition) count))
    (hparts : forall i,
      (fileRead cluster (fileEntry v.image entryPosition) position).part
        (readNumbers cluster (fileEntry v.image entryPosition) count) i < 4096) :
    ReadsFile root v entryPosition position count
      (fileByte v.image root cluster (fileEntry v.image entryPosition)) := by
  rcases runs_inside h hcount hfile hsize hin with ⟨left, hat, hrun⟩
  have hfits := fits h.pos hsize position count
  intro buffer
  rcases hrun buffer with ⟨r, hr, hposition, hread⟩
  have hright : readParts _ _ _ _ _ 0 (filled (fileByte v.image root cluster
      (fileEntry v.image entryPosition)) _ buffer 0) = _ :=
    readParts_right hfits hplain hparts
      (fun i j hi hj => clusterByte_eq h hfile hi hj) hat hcount
  have hboth := Prod.mk.inj (hread.trans hright)
  refine ⟨r, hr, hboth.1, ?_, hboth.2⟩
  rw [hposition, hboth.1]
  have hlt := position.toNat_lt
  have hbytes := (fileEntry v.image entryPosition).size.isLt
  apply Nat.mod_eq_of_lt
  change position.toNat + min count.toNat
    ((fileEntry v.image entryPosition).size.toNat - position.toNat) < _
  omega

theorem not_reads_inside (h : Clustered root cluster) (hcount : 0 < count.toNat)
    (hfile : ChainedFile v.image root cluster (fileEntry v.image entryPosition))
    (hsize : 0 < (fileEntry v.image entryPosition).size.toNat)
    (hin : position.toNat < clustersOf cluster
      (fileEntry v.image entryPosition).size.toNat * cluster)
    (hplain : ¬ (fileRead cluster (fileEntry v.image entryPosition) position).Plain
      (readNumbers cluster (fileEntry v.image entryPosition) count)) :
    ¬ ReadsFile root v entryPosition position count file := by
  rcases runs_inside h hcount hfile hsize hin with ⟨left, hat, hrun⟩
  have hfits := fits h.pos hsize position count
  have hlast : left = 0 -> (0xff8 ≤ chain v.image root
      (fileEntry v.image entryPosition).clusterLo (position.toNat / cluster + 1) <->
        left = 0) := by
    intro hzero
    have hsum : position.toNat / cluster + (left + 1) = clustersOf cluster
      (fileEntry v.image entryPosition).size.toNat := hat.left_eq
    rw [hzero] at hsum
    rw [hsum]
    exact ⟨fun _ => hzero, fun _ => hfile.ends hsize⟩
  rcases parts_not_plain hfits hat hcount hplain with hfew | ⟨t, hzero, hbehind, hmore⟩
  · intro hreads
    rcases hrun (fun _ => 0) with ⟨r, hr, _, hread⟩
    rcases hreads (fun _ => 0) with ⟨r', hr', hwanted, _, _⟩
    have hshort := hfew (clusterByte v.image root
      (fileEntry v.image entryPosition).clusterLo) (fun _ => 0)
    rw [← hread, Except.ok.inj (hr.symm.trans hr')] at hshort
    exact absurd hwanted (Nat.ne_of_lt hshort)
  · have hlow := hfile.clusters_lt hsize
    have hsum : position.toNat / cluster + (left + 1) = clustersOf cluster
      (fileEntry v.image entryPosition).size.toNat := hat.left_eq
    generalize hq : position.toNat / cluster = q at *
    have hfirst : position.toNat / cluster < 65536 := by omega
    apply not_reads_of_written h hcount hfirst _ left (by rw [hq]; exact hlast hzero)
      hbehind hmore
    intro j hj
    exact (hfile.inside j (by omega)).2

theorem reads_filled (position : Uint64) (h : Clustered root cluster)
    (hcount : 0 < count.toNat)
    (hfile : ChainedFile v.image root cluster (fileEntry v.image entryPosition))
    (hsize : 0 < (fileEntry v.image entryPosition).size.toNat)
    (hright : ReadsFilled cluster (fileEntry v.image entryPosition) position count) :
    ReadsFile root v entryPosition position count
      (fileByte v.image root cluster (fileEntry v.image entryPosition)) := by
  have hhigh := (fits h.pos hsize position count).high
  rcases Nat.lt_or_ge position.toNat (clustersOf cluster
    (fileEntry v.image entryPosition).size.toNat * cluster) with hin | hbehind
  · rcases hright with hbehind | ⟨hplain, hparts⟩
    · exact absurd hbehind (Nat.not_le.mpr hin)
    · exact reads_inside h hcount hfile hsize hin hplain hparts
  · refine readsFile_of_none (Or.inl (Nat.le_trans hhigh hbehind)) ?_
    apply runs_passing h hcount
      (Or.inl ((Nat.le_div_iff_mul_le h.pos.1).mpr hbehind))
    exact BitVec.le_trans (by decide) (hfile.ends hsize)

/-- Whatever the bytes of the file should be, a read that is right has the right
place in it. -/
theorem readsFilled_of_reads (h : Clustered root cluster) (hcount : 0 < count.toNat)
    (hfile : ChainedFile v.image root cluster (fileEntry v.image entryPosition))
    (hsize : 0 < (fileEntry v.image entryPosition).size.toNat)
    (hreads : ReadsFile root v entryPosition position count file) :
    ReadsFilled cluster (fileEntry v.image entryPosition) position count := by
  have hfits := fits h.pos hsize position count
  rcases Nat.lt_or_ge position.toNat (clustersOf cluster
    (fileEntry v.image entryPosition).size.toNat * cluster) with hin | hbehind
  · right
    have hplain : (fileRead cluster (fileEntry v.image entryPosition)
        position).Plain (readNumbers cluster (fileEntry v.image entryPosition)
          count) := by
      by_contra hnot
      exact not_reads_inside h hcount hfile hsize hin hnot hreads
    refine ⟨hplain, ?_⟩
    intro k
    by_contra hlarge
    rcases runs_inside h hcount hfile hsize hin with ⟨left, hat, hrun⟩
    have hpart : position.toNat / cluster ≤ k := by
      by_contra hbefore
      have hle : (k + 1) * cluster ≤ position.toNat / cluster * cluster :=
        Nat.mul_le_mul_right _ (by omega)
      have hdiv := Nat.div_mul_le_self position.toNat cluster
      apply hlarge
      change min ((k + 1) * cluster) _ - max _ position.toNat < 4096
      omega
    rcases hrun (fun _ => 0) with ⟨r, hr, _, hread⟩
    rcases hreads (fun _ => 0) with ⟨r', hr', hwanted, _, _⟩
    have hlost := @readParts_lossy _ _
      (clusterByte v.image root (fileEntry v.image entryPosition).clusterLo)
      _ _ _ _ hfits hplain (fun _ => 0) hat hcount _ hpart
      (Nat.not_lt.mp hlarge)
    rw [← hread, Except.ok.inj (hr.symm.trans hr')] at hlost
    change r'.completed.toNat < count.toNat ∧ position.toNat + r'.completed.toNat <
      (fileEntry v.image entryPosition).size.toNat at hlost
    unfold wantedBytes at hwanted
    omega
  · exact Or.inl hbehind

/-!
# Empty files
-/

theorem not_reads_empty (h : Clustered root cluster) (hcount : 0 < count.toNat)
    (hstart : (fileEntry v.image entryPosition).clusterLo = 0)
    (hsize : (fileEntry v.image entryPosition).size.toNat = 0)
    (hnot : ¬ ReadsEmpty v.image root cluster position) :
    ¬ ReadsFile root v entryPosition position count file := by
  have hpos := h.pos
  have hinside := Nat.mod_lt position.toNat hpos.1
  have hzero : wantedBytes (fileEntry v.image entryPosition) position count ≤ 0 :=
    Nat.le_of_eq (wantedBytes_zero _ _ _ (Or.inl (by omega)))
  unfold ReadsEmpty at hnot
  push Not at hnot
  rcases hnot with ⟨hchain, hnext⟩
  rcases Nat.lt_or_ge (position.toNat / cluster) 65536 with hlow | hhigh
  · have hsizes : forall left,
        (left = 0 -> position.toNat % cluster ≠ 0) ->
          0 < (readNumbers cluster (fileEntry v.image entryPosition) count).size
            left (position.toNat % cluster) 0 := by
      intro left hoffset
      unfold PartsOf.size readNumbers
      dsimp only
      rw [hsize, Nat.zero_mod]
      generalize position.toNat % cluster = o at *
      split
      case isTrue hzero =>
          have hne := hoffset hzero
          omega
      case isFalse => omega
    have hbefore : forall j, j ≤ position.toNat / cluster ->
        chain v.image root (fileEntry v.image entryPosition).clusterLo j < 0xff7 := by
      intro j hj
      rw [hstart]
      exact BitVec.not_le.mp (fun hle => hchain j (Or.inl hj) hle)
    rcases Decidable.em (0xff8 ≤ chain v.image root
      (fileEntry v.image entryPosition).clusterLo (position.toNat / cluster + 1)) with
      hlast | hlast
    · apply not_reads_of_written h hcount hlow hbefore 0 (t := 0)
        ⟨fun _ => rfl, fun _ => hlast⟩ hzero
      apply hsizes
      intro _ hzero
      rw [hstart] at hlast
      exact hnext hzero hlast
    · apply not_reads_of_written h hcount hlow hbefore 1 (t := 0)
        ⟨fun hle => absurd hle hlast, fun hone => by omega⟩ hzero
      exact hsizes 1 (fun hone => by omega)
  · intro hreads
    rcases hreads (fun _ => 0) with ⟨r, hr, _⟩
    rcases fatReadFile_eq v entryPosition position count h with
      ⟨x, endOffset, hx, hrun⟩
    have hc : x.completed < count := by
      rw [hx.completed]
      exact hcount
    have hlarge : Uint64.High x.wholeClustersLeft := by
      apply high_of_le
      rw [hx.whole]
      exact hhigh
    have hgoes : forall i, chain x.volume.image root 0 i < 0xff7 := by
      intro i
      rw [hx.image_eq]
      exact BitVec.not_le.mp (fun hle => hchain i (Or.inr hhigh) hle)
    have hhang : fatReadLoop root endOffset count fatReadStates
        { x with buffer := fun _ => 0 } = .error .hang :=
      passes_forever h.fat hc (hx.current.trans hstart) hlarge hgoes
    rw [hrun, hhang] at hr
    cases hr

theorem reads_empty (h : Clustered root cluster) (hcount : 0 < count.toNat)
    (hstart : (fileEntry v.image entryPosition).clusterLo = 0)
    (hsize : (fileEntry v.image entryPosition).size.toNat = 0)
    (hright : ReadsEmpty v.image root cluster position) :
    ReadsFile root v entryPosition position count file := by
  apply readsFile_of_none (Or.inl (by omega))
  rcases Classical.em (exists i, (i ≤ position.toNat / cluster ∨
    65536 ≤ position.toNat / cluster) ∧ 0xff7 ≤ chain v.image root 0 i) with
    ⟨i, hi, hend⟩ | hnone
  · rw [← hstart] at hend
    exact runs_passing h hcount hi hend
  · rcases hright with hsome | ⟨hzero, hlast⟩
    · exact absurd hsome hnone
    · have hlow : position.toNat / cluster < 65536 := by
        by_contra hlarge
        apply hnone
        exact ⟨position.toNat / cluster + 1, Or.inr (Nat.le_of_not_lt hlarge),
          BitVec.le_trans (by decide) hlast⟩
      have hbefore : forall j, j < position.toNat / cluster + 1 ->
          chain v.image root (fileEntry v.image entryPosition).clusterLo j <
            0xff7 := by
        intro j hj
        rw [hstart]
        by_contra hend
        exact hnone ⟨j, Or.inl (Nat.le_of_lt_succ hj), BitVec.not_lt.mp hend⟩
      rw [← hstart] at hlast
      intro buffer
      rcases runs_parts h hcount hlow hbefore (by decide) hlast buffer with
        ⟨r, hr, hposition, hread⟩
      have hnothing : (readNumbers cluster (fileEntry v.image entryPosition)
          count).size 0 0 0 = 0 := by
        unfold PartsOf.size readNumbers
        dsimp only
        rw [hsize, Nat.zero_mod]
        exact Nat.zero_min _
      have hmore : ¬ (readNumbers cluster (fileEntry v.image entryPosition)
          count).count ≤ 0 := Nat.not_le.mpr hcount
      unfold readParts at hread
      rw [if_neg hmore, hzero, hnothing] at hread
      have hboth := Prod.mk.inj hread
      have hcompleted : r.completed.toNat = 0 := hboth.1
      refine ⟨r, hr, hcompleted, ?_, hboth.2⟩
      rw [hposition, hcompleted]
      exact Nat.mod_eq_of_lt position.toNat_lt

theorem ChainedFile.congr {image : Bytes} {laid : FatGeometry}
    {entry : DirectoryEntry} (hchain : chain image root = chain image laid)
    (h : ChainedFile image laid cluster entry) :
    ChainedFile image root cluster entry := by
  refine ⟨?_, ?_, h.empty⟩
  · rw [hchain]
    exact h.inside
  · rw [hchain]
    exact h.ends

theorem readsEmpty_congr {image : Bytes} {laid : FatGeometry}
    (hchain : chain image root = chain image laid) :
    ReadsEmpty image root cluster position <-> ReadsEmpty image laid cluster position := by
  unfold ReadsEmpty
  rw [hchain]

end Runs

/-- With sectors of 512 bytes the data stand where the driver has them, unless
the sectors in front of the root directory or its bytes are too many for a
word. -/
theorem bytesPlaced_of_small {params : Parameters} {root : FatGeometry}
    (hroot : parseParams params = .ok root) (hsector : params.bytesPerSector = 512)
    (hsectors : params.rootSector < 65536)
    (hentries : 32 * params.rootEntries.toNat + 511 < 65536) (image : Bytes)
    (cluster : Nat) (entry : DirectoryEntry) (position : Uint64) (count : Word) :
    BytesPlaced image root params.layout cluster entry position count := by
  intro j _
  unfold fileByte
  rw [rootEnd_eq_layout hroot hsector hsectors hentries,
    chain_congr (fatBegin_eq_layout hroot hsector)]

/-- On a volume with sectors of 512 bytes, a read is right exactly when it asks
for nothing, or has the right place in its file, and the driver has the bytes
where the volume has them.  It has, unless the numbers of the volume wrap. -/
theorem reads_file_iff {params : Parameters} {root : FatGeometry}
    (hroot : parseParams params = .ok root) (hsector : params.bytesPerSector = 512)
    {k : Nat} (hk : params.sectorsPerCluster.toNat = 2 ^ k) {v : Volume}
    {entryPosition : Uint64}
    (hfile : ChainedFile v.image params.layout (params.sectorsPerCluster.toNat * 512)
      (fileEntry v.image entryPosition)) (position : Uint64) (count : Word) :
    (ReadsFile root v entryPosition position count
        (fileByte v.image params.layout (params.sectorsPerCluster.toNat * 512)
          (fileEntry v.image entryPosition)) <->
      ReadsRight v.image params.layout (params.sectorsPerCluster.toNat * 512)
          (fileEntry v.image entryPosition) position count ∧
        BytesPlaced v.image root params.layout
          (params.sectorsPerCluster.toNat * 512) (fileEntry v.image entryPosition)
          position count) ∧
    (params.rootSector < 65536 -> 32 * params.rootEntries.toNat + 511 < 65536 ->
      BytesPlaced v.image root params.layout (params.sectorsPerCluster.toNat * 512)
        (fileEntry v.image entryPosition) position count) := by
  refine ⟨?_, fun hsectors hentries => bytesPlaced_of_small hroot hsector hsectors
    hentries _ _ _ _ _⟩
  have h := clustered_of_parseParams hroot hsector hk
  have hchain := chain_congr (fatBegin_eq_layout hroot hsector) v.image
  generalize params.sectorsPerCluster.toNat * 512 = cluster at *
  have hfile := hfile.congr hchain
  unfold ReadsRight
  rw [← readsEmpty_congr hchain]
  rcases Nat.eq_zero_or_pos count.toNat with hnone | hcount
  · have hzero := wantedBytes_zero (fileEntry v.image entryPosition) position count
      (Or.inr hnone)
    constructor
    · intro _
      refine ⟨Or.inl hnone, fun j hj => ?_⟩
      rw [hzero] at hj
      exact absurd hj (Nat.not_lt_zero j)
    · exact fun _ => readsFile_of_none (Or.inr hnone) (runs_none h hnone)
  · rcases Nat.eq_zero_or_pos (fileEntry v.image entryPosition).size.toNat with
      hsize | hsize
    · have hstart := hfile.empty hsize
      have hzero := wantedBytes_zero (fileEntry v.image entryPosition) position count
        (Or.inl (by omega))
      constructor
      · intro hreads
        refine ⟨Or.inr (Or.inr ⟨hsize, ?_⟩), fun j hj => ?_⟩
        · by_contra hnot
          exact not_reads_empty h hcount hstart hsize hnot hreads
        · rw [hzero] at hj
          exact absurd hj (Nat.not_lt_zero j)
      · rintro ⟨hright, _⟩
        rcases hright with hzero | ⟨hpos, _⟩ | ⟨_, hempty⟩
        · omega
        · omega
        · exact reads_empty h hcount hstart hsize hempty
    · constructor
      · intro hreads
        have hfilled := readsFilled_of_reads h hcount hfile hsize hreads
        refine ⟨Or.inr (Or.inl ⟨hsize, hfilled⟩), fun j hj => ?_⟩
        exact (reads_filled position h hcount hfile hsize hfilled).unique hreads hj
      · rintro ⟨hright, hplaced⟩
        rcases hright with hzero | ⟨_, hfilled⟩ | ⟨hzero, _⟩
        · omega
        · exact (reads_filled position h hcount hfile hsize hfilled).congr hplaced
        · omega

def bootRecord : List Byte := [0x00, 0x02, 1, 1, 0, 2, 0xe0, 0x00, 0x40, 0x0b, 0xf0, 9]

def oneFile (size : Byte × Byte) : Bytes := fun j =>
  if 11 ≤ j ∧ j < 23 then bootRecord.getD (j - 11) 0
  else if j = 515 then 0xff
  else if j = 516 then 0x0f
  else if j = 9728 + 26 then 2
  else if j = 9728 + 28 then size.1
  else if j = 9728 + 29 then size.2
  else if 16896 ≤ j then BitVec.ofNat 8 j
  else 0

def firstEntry : Uint64 := Uint64.ofNat 9728

theorem firstEntry_data (size : Byte × Byte) {i : Nat} (hi : i < 32) :
    Volume.data ⟨oneFile size, firstEntry⟩ i = oneFile size (9728 + i) := by
  have hplace : firstEntry.toNat = 9728 := by decide
  unfold Volume.data
  dsimp only
  rw [hplace, Nat.mod_eq_of_lt (by omega)]

theorem oneFile_entry (size : Byte × Byte) :
    (fileEntry (oneFile size) firstEntry).clusterLo = 2 ∧
      (fileEntry (oneFile size) firstEntry).size =
        (0 : Word) ++ (size.2 ++ size.1 : Word) := by
  have hcluster : wordAt (fun i => oneFile size (9728 + i)) 26 = 2 := by
    simp [wordAt, oneFile]
  have hlow : wordAt (fun i => oneFile size (9728 + i)) 28 = size.2 ++ size.1 := by
    simp [wordAt, oneFile]
  have hhigh : wordAt (fun i => oneFile size (9728 + i)) 30 = 0 := by
    simp [wordAt, oneFile]
  have hdata := @firstEntry_data size
  unfold fileEntry directoryEntry longAt
  dsimp only
  rw [← hhigh, ← hlow, ← hcluster]
  unfold wordAt
  rw [hdata (by decide), hdata (by decide), hdata (by decide), hdata (by decide),
    hdata (by decide), hdata (by decide)]
  exact ⟨rfl, rfl⟩

theorem oneFile_file {size : Byte × Byte}
    (hpos : 0 < (fileEntry (oneFile size) firstEntry).size.toNat)
    (hle : (fileEntry (oneFile size) firstEntry).size.toNat ≤ 512) :
    ChainedFile (oneFile size) bootRoot 512 (fileEntry (oneFile size) firstEntry) := by
  have hone : clustersOf 512 (fileEntry (oneFile size) firstEntry).size.toNat = 1 := by
    unfold clustersOf
    omega
  have hfirst := (oneFile_entry size).1
  have hnext : tableEntry (oneFile size) bootRoot 2 = 0xfff := by
    unfold tableEntry
    have hplace : bootRoot.fatBegin.toNat + 3 * (2 : Word).toNat / 2 = 515 := by
      decide
    rw [hplace]
    have hword : wordAt (oneFile size) 515 = 0x0fff := by
      simp [wordAt, oneFile]
    rw [hword]
    decide
  refine ⟨?_, ?_, ?_⟩
  · intro i hi
    have hzero : i = 0 := by omega
    rw [hzero]
    unfold chain
    rw [hfirst]
    decide
  · intro _
    rw [hone]
    unfold chain chain
    rw [hfirst, hnext]
    decide
  · intro hzero
    omega

theorem bootRoot_layout : bootParameters.layout = bootRoot := by decide

theorem oneFile_layout (size : Byte × Byte) :
    (parametersOf (oneFile size)).layout = bootRoot := by
  have hparameters : parametersOf (oneFile size) = bootParameters := by
    simp [parametersOf, wordAt, longAt, oneFile, bootRecord]
    decide
  rw [hparameters, bootRoot_layout]

theorem reads_file_small :
    (ReadsFile bootRoot ⟨oneFile (3, 0), firstEntry⟩ firstEntry (Uint64.ofNat 1) 2
        (fileByte (oneFile (3, 0)) bootParameters.layout 512
          (fileEntry (oneFile (3, 0)) firstEntry)) <->
      ReadsRight (oneFile (3, 0)) bootParameters.layout 512
          (fileEntry (oneFile (3, 0)) firstEntry) (Uint64.ofNat 1) 2 ∧
        BytesPlaced (oneFile (3, 0)) bootRoot bootParameters.layout 512
          (fileEntry (oneFile (3, 0)) firstEntry) (Uint64.ofNat 1) 2) ∧
    (bootParameters.rootSector < 65536 ->
      32 * bootParameters.rootEntries.toNat + 511 < 65536 ->
        BytesPlaced (oneFile (3, 0)) bootRoot bootParameters.layout 512
          (fileEntry (oneFile (3, 0)) firstEntry) (Uint64.ofNat 1) 2) := by
  have hsize : (fileEntry (oneFile (3, 0)) firstEntry).size.toNat = 3 := by
    rw [(oneFile_entry (3, 0)).2]
    rfl
  have hfile := @oneFile_file (3, 0) (by omega) (by omega)
  rw [← bootRoot_layout] at hfile
  exact @reads_file_iff bootParameters bootRoot rfl rfl 0 rfl
    ⟨oneFile (3, 0), firstEntry⟩ firstEntry hfile (Uint64.ofNat 1) 2

/-- A file that fills its only cluster is read as an empty one. -/
theorem reads_nothing_of_full_cluster :
    ChainedFile (oneFile (0, 2)) bootParameters.layout 512
        (fileEntry (oneFile (0, 2)) firstEntry) ∧
      ¬ ReadsFile bootRoot ⟨oneFile (0, 2), firstEntry⟩ firstEntry (Uint64.ofNat 0)
        512 (fileByte (oneFile (0, 2)) bootParameters.layout 512
          (fileEntry (oneFile (0, 2)) firstEntry)) := by
  have hsize : (fileEntry (oneFile (0, 2)) firstEntry).size.toNat = 512 := by
    rw [(oneFile_entry (0, 2)).2]
    rfl
  have hfile := @oneFile_file (0, 2) (by omega) (by omega)
  have hcluster : Clustered bootRoot 512 := ⟨rfl, by decide, by decide, by decide⟩
  have hpos : 0 < (fileEntry (oneFile (0, 2)) firstEntry).size.toNat := by omega
  have hin : (Uint64.ofNat 0).toNat < clustersOf 512
      (fileEntry (oneFile (0, 2)) firstEntry).size.toNat * 512 := by
    rw [hsize]
    decide
  have hplain : ¬ (fileRead 512 (fileEntry (oneFile (0, 2)) firstEntry)
      (Uint64.ofNat 0)).Plain
        (readNumbers 512 (fileEntry (oneFile (0, 2)) firstEntry) 512) := by
    unfold FileRead.Plain fileRead readNumbers
    dsimp only
    rw [hsize]
    decide
  rw [bootRoot_layout]
  exact ⟨hfile, not_reads_inside hcluster (by decide) hfile hpos hin hplain⟩

end Fs
end Rmmtos
