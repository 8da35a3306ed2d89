import Rmmtos.Boot.LoadFiles
import Rmmtos.Fs.FatEnumeration
import Rmmtos.Fs.FatReadFile

/-!
# What is in memory after the boot loader

The loader leaves in memory the bytes of its files that the kernel reads from
the volume: it looks at the same entries of the root directory and follows the
same chains.  Nothing else in memory changes but the places of its tables.
-/

namespace Rmmtos
namespace Fs

open Library Kernel

/-!
# The tables
-/

structure Tables (disk : Boot.Disk) (m : Mem) : Prop where
  fat : Stored (fun i => m (linear Boot.bootSegment (offsetFrom Boot.fat i)))
    (diskTable disk)
  dir : forall i, i < 7168 ->
    m (linear Boot.bootSegment (offsetFrom Boot.dir i)) = disk (0x2600 + i)

section Tables

variable {disk : Boot.Disk} {m m' : Mem}

theorem linear_fat {i : Nat} (hi : i < fatBytes) :
    linear Boot.bootSegment (offsetFrom Boot.fat i) = 0x7e00 + i := by
  have hbytes : fatBytes = 4608 := rfl
  have hoff : (offsetFrom Boot.fat i).toNat = 0x200 + i :=
    offsetFrom_toNat (by change 512 + i < 65536; omega)
  unfold linear
  rw [hoff, show Boot.bootSegment.toNat = 0x7c0 from rfl]
  omega

theorem linear_dir {i : Nat} (hi : i < 7168) :
    linear Boot.bootSegment (offsetFrom Boot.dir i) = 0x9000 + i := by
  have hoff : (offsetFrom Boot.dir i).toNat = 0x1400 + i :=
    offsetFrom_toNat (by change 5120 + i < 65536; omega)
  unfold linear
  rw [hoff, show Boot.bootSegment.toNat = 0x7c0 from rfl]
  omega

theorem Tables.same (h : Tables disk m)
    (hsame : forall a, 0x7e00 ≤ a -> a < 0xac00 -> m' a = m a) :
    Tables disk m' := by
  constructor
  · intro i hi
    rw [← h.fat i hi]
    rw [diskTable_length] at hi
    have hbytes : fatBytes = 4608 := rfl
    dsimp only
    rw [linear_fat hi]
    exact hsame _ (by omega) (by omega)
  · intro i hi
    rw [← h.dir i hi, linear_dir hi]
    exact hsame _ (by omega) (by omega)

theorem Tables.nextCluster_eq (h : Tables disk m) {n : Word}
    (hn : n.toNat < 3072) :
    Boot.nextCluster m n = tableEntry disk bootRoot n := by
  have hbytes : fatBytes = 4608 := rfl
  have hlen := diskTable_length disk
  have hboot := bootNextCluster_toNat (by rw [hlen]; decide) h.fat
    (n := n) (by rw [hlen]; omega)
  have hentry := @entryOfWord_toNat (diskTable disk) n (by rw [hlen]; omega)
  rw [diskTable_getD disk (by omega), diskTable_getD disk (by omega)] at hentry
  apply BitVec.eq_of_toNat_eq
  rw [hboot, ← hentry]
  rfl

end Tables

/-!
# The directory
-/

def NameAt (disk : Boot.Disk) (name : List Byte) (j : Nat) : Prop :=
  forall i, i < 11 -> (slot disk bootRoot j).name i = name.getD i 0

/-- The first entry of the root directory with a name. -/
structure FirstNamed (disk : Boot.Disk) (name : List Byte) (j : Nat) : Prop where
  index : j < 224
  named : NameAt disk name j
  first : forall i, i < j -> ¬ NameAt disk name i

section Directory

variable {disk : Boot.Disk} {m : Mem} {name : List Byte} {j : Nat}

theorem slot_byte {i : Nat} (hj : j < 224) (hi : i < 32) :
    disk (0x2600 + (32 * j + i)) = (slot disk bootRoot j).name i := by
  have hplace : bootRoot.rootBegin.toNat = 0x2600 := rfl
  change _ = disk ((bootRoot.rootBegin.toNat + 32 * j + i) % 2 ^ 64)
  rw [hplace, Nat.mod_eq_of_lt (by omega), Nat.add_assoc]

/-- The place of an entry in the loader's segment. -/
def entryAddress (j : Nat) : Word :=
  offsetFrom Boot.dir (32 * j)

theorem entryAddress_byte (h : Tables disk m) (hj : j < 224) {i : Nat}
    (hi : i < 32) :
    peek m Boot.bootSegment (offsetFrom (entryAddress j) i) =
      (slot disk bootRoot j).name i := by
  unfold peek entryAddress
  rw [offsetFrom_offsetFrom, h.dir _ (by omega)]
  exact slot_byte hj hi

theorem entryMatches_iff (h : Tables disk m) (hj : j < 224) :
    Boot.entryMatches m name (entryAddress j) = true <-> NameAt disk name j := by
  unfold Boot.entryMatches NameAt
  rw [List.all_eq_true]
  constructor
  · intro hall i hi
    have heq := eq_of_beq (hall i (List.mem_range.mpr hi))
    rw [entryAddress_byte h hj (by omega)] at heq
    exact heq.symm
  · intro hall i hi
    have hi := List.mem_range.mp hi
    rw [entryAddress_byte h hj (by omega), hall i hi]
    exact beq_self_eq_true _

theorem entryAddress_succ (j : Nat) : entryAddress j + 32 = entryAddress (j + 1) :=
  (offsetFrom_add Boot.dir (32 * j) 32).symm

theorem checkEntry_first (h : Tables disk m) {n k : Nat} (hkj : k ≤ j)
    (hjn : j < k + n) (hn : k + n ≤ 224) (hnamed : NameAt disk name j)
    (hfirst : forall i, k ≤ i -> i < j -> ¬ NameAt disk name i) :
    Boot.checkEntry m name n (entryAddress k) = some (entryAddress j) := by
  induction n generalizing k with
  | zero => omega
  | succ n ih =>
      unfold Boot.checkEntry
      by_cases hk : k = j
      · subst hk
        rw [if_pos ((entryMatches_iff h (by omega)).mpr hnamed)]
      · have hother : ¬ Boot.entryMatches m name (entryAddress k) = true := by
          rw [entryMatches_iff h (by omega)]
          exact hfirst k (Nat.le_refl k) (by omega)
        rw [if_neg hother, entryAddress_succ]
        exact ih (by omega) (by omega) (by omega)
          fun i hki => hfirst i (Nat.le_of_succ_le hki)

theorem checkEntry_none (h : Tables disk m) {n k : Nat} (hn : k + n ≤ 224)
    (hnone : forall i, k ≤ i -> i < k + n -> ¬ NameAt disk name i) :
    Boot.checkEntry m name n (entryAddress k) = none := by
  induction n generalizing k with
  | zero => rfl
  | succ n ih =>
      have hother : ¬ Boot.entryMatches m name (entryAddress k) = true := by
        rw [entryMatches_iff h (by omega)]
        exact hnone k (Nat.le_refl k) (by omega)
      unfold Boot.checkEntry
      rw [if_neg hother, entryAddress_succ]
      exact ih (by omega) fun i hki hi =>
        hnone i (Nat.le_of_succ_le hki) (by omega)

theorem searchDir_found (h : Tables disk m) (hj : FirstNamed disk name j) :
    Boot.searchDir m name = some (entryAddress j) := by
  have hindex := hj.index
  exact checkEntry_first h (k := 0) (Nat.zero_le j)
    (by change j < 0 + 224; omega) (Nat.le_refl 224) hj.named
    fun i _ => hj.first i

theorem searchDir_missing (h : Tables disk m)
    (hnone : forall i, i < 224 -> ¬ NameAt disk name i) :
    Boot.searchDir m name = none :=
  checkEntry_none h (k := 0) (Nat.le_refl 224) fun i _ hi =>
    hnone i (by change i < 0 + 224 at hi; omega)

theorem entryAddress_cluster (h : Tables disk m) (hj : j < 224) :
    peekw m Boot.bootSegment (entryAddress j + 26) =
      (slot disk bootRoot j).clusterLo := by
  have hlow := entryAddress_byte h hj (i := 26) (by decide)
  have hhigh := entryAddress_byte h hj (i := 27) (by decide)
  have hsucc : entryAddress j + 26 + 1 = offsetFrom (entryAddress j) 27 :=
    (offsetFrom_add (entryAddress j) 26 1).symm
  unfold peekw
  rw [hsucc, hhigh]
  exact congrArg _ hlow

end Directory

/-!
# One file
-/

def fileClusters (disk : Boot.Disk) (j : Nat) : Nat :=
  clustersOf 512 (slot disk bootRoot j).size.toNat

def InPlace (segment : Word) (n a : Nat) : Prop :=
  16 * segment.toNat ≤ a ∧ a < 16 * segment.toNat + 512 * n

/-- The place of a file is in memory and does not meet the loader. -/
def Free (segment : Word) (n : Nat) : Prop :=
  16 * segment.toNat + 512 * n ≤ 0x100000 ∧
    (16 * segment.toNat + 512 * n ≤ 0x7c00 ∨ 0xac00 ≤ 16 * segment.toNat)

instance (segment : Word) (n : Nat) : Decidable (Free segment n) :=
  inferInstanceAs (Decidable (_ ∧ _))

/-- A file with a chain on the disk and a place in memory. -/
structure Loadable (disk : Boot.Disk) (f : Boot.BootFile) (j : Nat) : Prop where
  found : FirstNamed disk f.name j
  filled : 0 < (slot disk bootRoot j).size.toNat
  chained : ChainedFile disk bootRoot 512 (slot disk bootRoot j)
  onDisk : forall i, i < fileClusters disk j ->
    (chain disk bootRoot (slot disk bootRoot j).clusterLo i).toNat < 3072
  free : Free f.segment (fileClusters disk j)

structure ClustersAt (disk : Boot.Disk) (j : Nat) (segment : Word) (i : Nat)
    (m m' : Mem) : Prop where
  bytes : forall t, t < 512 * i -> m' (16 * segment.toNat + t) =
    fileByte disk bootRoot 512 (slot disk bootRoot j) t
  other : forall a, ¬ InPlace segment i a -> m' a = m a

section OneFile

variable {d : Boot.Drive} {f : Boot.BootFile} {j k i : Nat} {m : Mem}
  {s : Boot.LoadState}

def clusterSegment (segment : Word) (i : Nat) : Word :=
  segment + BitVec.ofNat 16 (32 * i)

theorem linear_cluster {segment : Word} {n : Nat} (hfree : Free segment n)
    (hi : i < n) {t : Nat} (ht : t < 512) :
    linear (clusterSegment segment i) (offsetFrom 0 t) =
      16 * segment.toNat + (512 * i + t) := by
  have hsegment := segment.isLt
  have hroom := hfree.1
  have hoff : (offsetFrom 0 t).toNat = t := by
    rw [offsetFrom_toNat (by change 0 + t < 65536; omega)]
    exact Nat.zero_add t
  have hes : (clusterSegment segment i).toNat = segment.toNat + 32 * i := by
    unfold clusterSegment
    rw [BitVec.toNat_add, BitVec.toNat_ofNat]
    omega
  unfold linear
  rw [hoff, hes]
  omega

theorem clusterLba_toNat {c : Word} (hc : c.toNat < 3072) :
    (Boot.clusterLba c).toNat = c.toNat + 31 := by
  have hstart : Boot.clustersStart.toNat = 31 := by decide
  unfold Boot.clusterLba
  rw [BitVec.toNat_add, hstart]
  omega

theorem ClustersAt.next (h : Loadable d.disk f j) (hi : i < fileClusters d.disk j)
    (hm : ClustersAt d.disk j f.segment i m s.mem) :
    ClustersAt d.disk j f.segment (i + 1) m
      (Boot.readBlocks d.disk s.mem (Boot.clusterLba
          (chain d.disk bootRoot (slot d.disk bootRoot j).clusterLo i))
        (clusterSegment f.segment i) 0 (Boot.sectorsPerCluster.setWidth 16)) := by
  have hcluster := h.onDisk i hi
  have hinside := (h.chained.inside i hi).1
  have hlba := clusterLba_toNat hcluster
  generalize hc : chain d.disk bootRoot (slot d.disk bootRoot j).clusterLo i = c
    at hcluster hinside hlba ⊢
  have htwo : 2 ≤ c.toNat := hinside
  have hone : (Boot.sectorsPerCluster.setWidth 16).toNat = 1 := rfl
  have hread : forall t, t < 512 -> Boot.readBlocks d.disk s.mem
      (Boot.clusterLba c) (clusterSegment f.segment i) 0
      (Boot.sectorsPerCluster.setWidth 16)
        (16 * f.segment.toNat + (512 * i + t)) =
      d.disk (512 * (Boot.clusterLba c).toNat + t) := by
    intro t ht
    rw [← linear_cluster h.free hi ht]
    exact Boot.readBlocks_at (by omega) (by decide) (by omega)
  have hother : forall a, (forall t, t < 512 ->
      a ≠ 16 * f.segment.toNat + (512 * i + t)) -> Boot.readBlocks d.disk s.mem
      (Boot.clusterLba c) (clusterSegment f.segment i) 0
      (Boot.sectorsPerCluster.setWidth 16) a = s.mem a := by
    intro a ha
    refine writeRun_other fun t ht => ?_
    have ht : t < 512 := ht
    rw [linear_cluster h.free hi ht]
    exact ha t ht
  constructor
  · intro t ht
    by_cases hold : t < 512 * i
    · rw [hother _ fun t' _ => by omega]
      exact hm.bytes t hold
    · rcases Nat.le.dest (show 512 * i ≤ t by omega) with ⟨t', rfl⟩
      have hroot : bootRoot.rootEnd.toNat = 512 * 33 := rfl
      unfold fileByte
      rw [hread t' (by omega), hlba, hroot,
        show (512 * i + t') / 512 = i by omega,
        show (512 * i + t') % 512 = t' by omega, hc]
      congr 1
      omega
  · intro a ha
    unfold InPlace at ha
    rw [hother a fun t ht => by omega]
    refine hm.other a fun hin => ha ?_
    unfold InPlace at hin
    omega

theorem ClustersAt.tables (h : Loadable d.disk f j) (hi : i ≤ fileClusters d.disk j)
    {m' : Mem} (htables : Tables d.disk m)
    (hm : ClustersAt d.disk j f.segment i m m') : Tables d.disk m' := by
  have hfree := h.free
  unfold Free at hfree
  refine htables.same fun a hlow hhigh => hm.other a fun hin => ?_
  unfold InPlace at hin
  omega

structure Loading (d : Boot.Drive) (f : Boot.BootFile) (j k i : Nat) (m : Mem)
    (x : Boot.FileLoad) : Prop where
  ready : Boot.Ready d (k + i) x.state
  cluster : x.ax = chain d.disk bootRoot (slot d.disk bootRoot j).clusterLo i
  segment : x.es = clusterSegment f.segment i
  clusters : ClustersAt d.disk j f.segment i m x.state.mem

theorem Loading.turn (h : Loadable d.disk f j) (htables : Tables d.disk m)
    {x : Boot.FileLoad} (hi : i < fileClusters d.disk j)
    (hx : Loading d f j k i m x) :
    Boot.Reads d (k + (i + 1)) (Gives (Loading d f j k (i + 1) m))
      (Boot.readTurn d x) := by
  have hread := Boot.readBlocksOn_outcome (Boot.clusterLba x.ax) x.es 0
    (Boot.sectorsPerCluster.setWidth 16) hx.ready
  refine hread.bind (Nat.le_refl _) fun t ht => ?_
  rcases ht with ⟨hready, hmem⟩
  rw [hx.cluster, hx.segment] at hmem
  have hnext := hx.clusters.next h hi
  rw [← hmem] at hnext
  refine Or.inr ⟨hready.not_spent, _, rfl, hready, ?_, ?_, hnext⟩
  · dsimp only
    rw [hx.cluster]
    exact (hnext.tables h hi htables).nextCluster_eq (h.onDisk i hi)
  · have hparagraphs : Boot.bytesPerSector * Boot.sectorsPerCluster.setWidth 16 / 16 =
        (32 : Word) := by decide
    dsimp only
    rw [hx.segment, hparagraphs]
    unfold clusterSegment
    rw [BitVec.add_assoc, show 32 * (i + 1) = 32 * i + 32 from rfl,
      BitVec.ofNat_add]
    rfl

theorem Loading.ends (h : Loadable d.disk f j) {turns : Nat} {x : Boot.FileLoad}
    (hx : Loading d f j k (fileClusters d.disk j) m x) :
    Boot.Reads d (k + fileClusters d.disk j)
      (Gives (Loading d f j k (fileClusters d.disk j) m))
      (whileLoop .hang (fun x => decide (x.ax < 0xff8)) (Boot.readTurn d) turns x) := by
  have hend := h.chained.ends h.filled
  change _ ≤ chain d.disk bootRoot _ (fileClusters d.disk j) at hend
  rw [← hx.cluster] at hend
  have hdone := decide_eq_false (BitVec.not_lt.mpr hend)
  exact Or.inr ⟨hx.ready.not_spent, x, whileLoop_done turns hdone, hx⟩

theorem Loading.loop (h : Loadable d.disk f j) (htables : Tables d.disk m)
    {turns : Nat} {x : Boot.FileLoad} (hi : i ≤ fileClusters d.disk j)
    (hturns : fileClusters d.disk j ≤ i + turns) (hx : Loading d f j k i m x) :
    Boot.Reads d (k + fileClusters d.disk j)
      (Gives (Loading d f j k (fileClusters d.disk j) m))
      (whileLoop .hang (fun x => decide (x.ax < 0xff8)) (Boot.readTurn d) turns x) := by
  induction turns generalizing i x with
  | zero =>
      have heq : i = fileClusters d.disk j := by omega
      subst heq
      exact hx.ends h
  | succ turns ih =>
      rcases Nat.eq_or_lt_of_le hi with rfl | hlt
      · exact hx.ends h
      · have hinside := (h.chained.inside i hlt).2
        rw [← hx.cluster] at hinside
        have hcond : decide (x.ax < 0xff8) = true := by
          apply decide_eq_true
          bv_omega
        unfold whileLoop
        rw [if_pos hcond]
        refine (hx.turn h htables hlt).bind (by omega) fun y hy => ?_
        exact ih hlt (by omega) hy

theorem readFile_outcome (h : Loadable d.disk f j) (hs : Boot.Ready d k s)
    (htables : Tables d.disk s.mem) {turns : Nat}
    (hturns : fileClusters d.disk j ≤ turns) :
    Boot.Reads d (k + fileClusters d.disk j)
      (Gives fun t => Boot.Ready d (k + fileClusters d.disk j) t ∧
        ClustersAt d.disk j f.segment (fileClusters d.disk j) s.mem t.mem)
      (Boot.readFile turns d (entryAddress j) f.segment s) := by
  have hpos : 0 < fileClusters d.disk j := by
    have hfilled := h.filled
    unfold fileClusters clustersOf
    omega
  have hnone : ClustersAt d.disk j f.segment 0 s.mem s.mem :=
    ⟨fun t ht => absurd ht (Nat.not_lt_zero t), fun _ _ => rfl⟩
  have hstart : Loading d f j k 0 s.mem
      ⟨peekw s.mem Boot.bootSegment (entryAddress j + 26), f.segment, s⟩ :=
    ⟨hs, entryAddress_cluster htables h.found.index,
      (BitVec.add_zero f.segment).symm, hnone⟩
  refine (hstart.turn h htables hpos).bind (by omega) fun x hx => ?_
  refine (hx.loop h htables hpos (by omega)).bind (Nat.le_refl _) fun y hy => ?_
  exact Or.inr ⟨hy.ready.not_spent, y.state, rfl, hy.ready, hy.clusters⟩

theorem loadFile_outcome (h : Loadable d.disk f j) (hs : Boot.Ready d k s)
    (htables : Tables d.disk s.mem) {turns : Nat}
    (hturns : fileClusters d.disk j ≤ turns) :
    Boot.Reads d (k + fileClusters d.disk j)
      (Gives fun t => Boot.Ready d (k + fileClusters d.disk j) t ∧
        ClustersAt d.disk j f.segment (fileClusters d.disk j) s.mem t.mem)
      (Boot.loadFile turns d f s) := by
  unfold Boot.loadFile
  rw [searchDir_found htables h.found]
  exact readFile_outcome h hs htables hturns

end OneFile

/-!
# All files
-/

def totalClusters (disk : Boot.Disk) (index : Boot.BootFile -> Nat)
    (fs : List Boot.BootFile) : Nat :=
  (fs.map fun f => fileClusters disk (index f)).sum

/-- The place of one file ends before that of the other begins. -/
def PlacesApart (disk : Boot.Disk) (index : Boot.BootFile -> Nat)
    (f g : Boot.BootFile) : Prop :=
  forall a, InPlace f.segment (fileClusters disk (index f)) a ->
    ¬ InPlace g.segment (fileClusters disk (index g)) a

/-- Some files are in memory, which else is as it was. -/
structure FilesAt (disk : Boot.Disk) (index : Boot.BootFile -> Nat)
    (fs : List Boot.BootFile) (m m' : Mem) : Prop where
  bytes : forall f, f ∈ fs -> forall t, t < 512 * fileClusters disk (index f) ->
    m' (16 * f.segment.toNat + t) =
      fileByte disk bootRoot 512 (slot disk bootRoot (index f)) t
  other : forall a, (forall f, f ∈ fs ->
      ¬ InPlace f.segment (fileClusters disk (index f)) a) -> m' a = m a

section AllFiles

variable {d : Boot.Drive} {index : Boot.BootFile -> Nat} {k turns : Nat}
  {fs : List Boot.BootFile} {m m' m'' : Mem}

theorem FilesAt.cons {f : Boot.BootFile}
    (hapart : forall g, g ∈ fs -> PlacesApart d.disk index f g)
    (hfirst : ClustersAt d.disk (index f) f.segment
      (fileClusters d.disk (index f)) m m')
    (hrest : FilesAt d.disk index fs m' m'') :
    FilesAt d.disk index (f :: fs) m m'' := by
  constructor
  · intro g hg t ht
    rcases List.mem_cons.mp hg with rfl | hg
    · rw [← hfirst.bytes t ht]
      refine hrest.other _ fun g' hg' => hapart g' hg' _ ?_
      unfold InPlace
      omega
    · exact hrest.bytes g hg t ht
  · intro a ha
    rw [hrest.other a fun g hg => ha g (List.mem_cons_of_mem f hg)]
    exact hfirst.other a (ha f List.mem_cons_self)

theorem loadFiles_cons (turns : Nat) (d : Boot.Drive) (f : Boot.BootFile)
    (fs : List Boot.BootFile) (s : Boot.LoadState) :
    Boot.loadFiles turns d (f :: fs) s =
      Boot.loadFile turns d f s >>= Boot.loadFiles turns d fs := by
  unfold Boot.loadFiles
  rw [List.foldlM_cons]

theorem loadFiles_outcome {s : Boot.LoadState}
    (hload : forall f, f ∈ fs -> Loadable d.disk f (index f))
    (hapart : fs.Pairwise (PlacesApart d.disk index))
    (hturns : forall f, f ∈ fs -> fileClusters d.disk (index f) ≤ turns)
    (hs : Boot.Ready d k s) (htables : Tables d.disk s.mem) :
    Boot.Reads d (k + totalClusters d.disk index fs)
      (Gives fun t => Boot.Ready d (k + totalClusters d.disk index fs) t ∧
        Tables d.disk t.mem ∧ FilesAt d.disk index fs s.mem t.mem)
      (Boot.loadFiles turns d fs s) := by
  induction fs generalizing k s with
  | nil =>
      have hnone : FilesAt d.disk index [] s.mem s.mem :=
        ⟨fun f hf => absurd hf List.not_mem_nil, fun _ _ => rfl⟩
      exact Or.inr ⟨hs.not_spent, s, rfl, hs, htables, hnone⟩
  | cons f fs ih =>
      have hf := hload f List.mem_cons_self
      have hsum : k + totalClusters d.disk index (f :: fs) =
          k + fileClusters d.disk (index f) + totalClusters d.disk index fs := by
        unfold totalClusters
        rw [List.map_cons, List.sum_cons, Nat.add_assoc]
      rw [List.pairwise_cons] at hapart
      rw [hsum, loadFiles_cons]
      have hfirst := loadFile_outcome hf hs htables (hturns f List.mem_cons_self)
      refine hfirst.bind (by omega) fun t ht => ?_
      rcases ht with ⟨hready, hclusters⟩
      have hrest := ih (fun g hg => hload g (List.mem_cons_of_mem f hg)) hapart.2
        (fun g hg => hturns g (List.mem_cons_of_mem f hg)) hready
        (hclusters.tables hf (Nat.le_refl _) htables)
      refine hrest.mono ?_
      rintro ⟨u, hrun, hreadyu, htablesu, hfiles⟩
      exact ⟨u, hrun, hreadyu, htablesu, hfiles.cons hapart.1 hclusters⟩

/-!
# The whole loader
-/

def InTables (a : Nat) : Prop :=
  0x7e00 ≤ a ∧ a < 0xac00

theorem loadTables_outcome (d : Boot.Drive) (m : Mem) :
    Boot.Reads d 2 (Gives fun t => Boot.Ready d 2 t ∧ Tables d.disk t.mem ∧
        forall a, ¬ InTables a -> t.mem a = m a)
      (Boot.readBlocksOn d Boot.reservedSectorCount Boot.bootSegment Boot.fat
        Boot.sectorsPerFat ⟨m, 25, 0⟩ >>= Boot.loadRootDir d) := by
  have hstart : Boot.Ready d 0 ⟨m, 25, 0⟩ := budgeted_start (by decide)
  refine (Boot.readBlocksOn_outcome _ _ _ _ hstart).bind (by decide) fun s hs => ?_
  rcases hs with ⟨hready, hmem⟩
  refine (Boot.readBlocksOn_outcome _ _ _ _ hready).mono ?_
  rintro ⟨t, hrun, hready', hmem'⟩
  have hbytes : fatBytes = 4608 := rfl
  have hdir : forall a, (a < 0x9000 ∨ 0xac00 ≤ a) -> t.mem a = s.mem a := by
    intro a ha
    rw [hmem']
    refine writeRun_other fun i hi => ?_
    have hi : i < 7168 := hi
    rw [linear_dir hi]
    omega
  have hfat : forall a, (a < 0x7e00 ∨ 0x9000 ≤ a) -> s.mem a = m a := by
    intro a ha
    rw [hmem]
    refine writeRun_other fun i hi => ?_
    have hi : i < fatBytes := hi
    rw [linear_fat hi]
    omega
  refine ⟨t, hrun, hready', ⟨?_, ?_⟩, ?_⟩
  · intro i hi
    rw [← fatRead_stored d.disk m i hi]
    rw [diskTable_length] at hi
    dsimp only
    rw [linear_fat hi, hdir _ (by omega), hmem]
    rfl
  · intro i hi
    rw [hmem']
    exact Boot.readBlocks_at (by decide) (by decide) hi
  · intro a ha
    unfold InTables at ha
    rw [hdir a (by omega), hfat a (by omega)]

theorem load_eq (turns : Nat) (d : Boot.Drive) (m : Mem) :
    Boot.load turns d m = (Boot.readBlocksOn d Boot.reservedSectorCount
      Boot.bootSegment Boot.fat Boot.sectorsPerFat ⟨m, 25, 0⟩ >>=
        Boot.loadRootDir d) >>= Boot.loadFiles turns d Boot.files := by
  rw [bind_assoc]
  rfl

theorem placesApart_loader {f g : Boot.BootFile}
    (hf : Free f.segment (fileClusters d.disk (index f)))
    (hg : 0xac00 ≤ 16 * g.segment.toNat) (hfseg : 16 * f.segment.toNat < 0xac00) :
    PlacesApart d.disk index f g := by
  intro a hfa hga
  unfold InPlace at hfa hga
  unfold Free at hf
  omega

/-- The places of the files, of which the second one has room for 128
clusters. -/
theorem files_apart
    (hload : forall f, f ∈ Boot.files -> Loadable d.disk f (index f))
    (hinit : fileClusters d.disk (index Boot.initFile) ≤ 128) :
    Boot.files.Pairwise (PlacesApart d.disk index) := by
  have hkernel := (hload Boot.kernelFile List.mem_cons_self).free
  have hkernelSegment : Boot.kernelFile.segment.toNat = 0x50 := rfl
  have hinitSegment : Boot.initFile.segment.toNat = 0x1050 := rfl
  have hsymbolsSegment : Boot.symbolsFile.segment.toNat = 0x2050 := rfl
  have hlast : PlacesApart d.disk index Boot.initFile Boot.symbolsFile := by
    intro a ha ha'
    unfold InPlace at ha ha'
    omega
  unfold Boot.files
  simp only [List.pairwise_cons, List.mem_cons, List.not_mem_nil, or_false,
    forall_eq_or_imp, forall_eq, List.Pairwise.nil, and_true]
  refine ⟨⟨?_, ?_⟩, hlast, fun _ hfalse => hfalse.elim⟩
  · exact placesApart_loader hkernel (by omega) (by omega)
  · exact placesApart_loader hkernel (by omega) (by omega)

/-- What the loader has for itself besides its tables, {lit}`resetsleft` and its
stack, does not meet the tables and the files. -/
structure OwnMemory (disk : Boot.Disk) (index : Boot.BootFile -> Nat)
    (own : Nat -> Prop) : Prop where
  tables : forall a, InTables a -> ¬ own a
  places : forall f, f ∈ Boot.files -> forall a,
    InPlace f.segment (fileClusters disk (index f)) a -> ¬ own a

/-- The memory in which the kernel begins. -/
structure BootMemory (disk : Boot.Disk) (index : Boot.BootFile -> Nat)
    (own : Nat -> Prop) (m m' : Mem) : Prop where
  bytes : forall f, f ∈ Boot.files ->
    forall t, t < 512 * fileClusters disk (index f) ->
      m' (16 * f.segment.toNat + t) =
        fileByte disk bootRoot 512 (slot disk bootRoot (index f)) t
  other : forall a, ¬ own a -> ¬ InTables a ->
    (forall f, f ∈ Boot.files ->
      ¬ InPlace f.segment (fileClusters disk (index f)) a) -> m' a = m a

theorem FilesAt.bootMemory {own : Nat -> Prop} (hown : OwnMemory d.disk index own)
    (htables : forall a, ¬ InTables a -> m' a = m a)
    (hfiles : FilesAt d.disk index Boot.files m' m'') {behind : Mem}
    (hend : forall a, ¬ own a -> behind a = m'' a) :
    BootMemory d.disk index own m behind := by
  constructor
  · intro f hf t ht
    have hplace : InPlace f.segment (fileClusters d.disk (index f))
        (16 * f.segment.toNat + t) :=
      ⟨Nat.le_add_right _ _, Nat.add_lt_add_left ht _⟩
    rw [hend _ (hown.places f hf _ hplace)]
    exact hfiles.bytes f hf t ht
  · intro a hout htable hplaces
    rw [hend a hout, hfiles.other a hplaces, htables a htable]

/-- Whatever the drive does, the loader either has all three files in memory, with
the bytes that the kernel reads, or stops with an error: it does so exactly when 25
requests fail among as many as there are clusters and tables, and 24 more.  Its
stack and its count of resets may have changed as well. -/
theorem load_outcome {own : Nat -> Prop}
    (hload : forall f, f ∈ Boot.files -> Loadable d.disk f (index f))
    (hinit : fileClusters d.disk (index Boot.initFile) ≤ 128)
    (hown : OwnMemory d.disk index own)
    (hturns : forall f, f ∈ Boot.files -> fileClusters d.disk (index f) ≤ turns)
    (m : Mem) :
    (25 ≤ Nat.count d.Fails (2 + totalClusters d.disk index Boot.files + 24) ∧
        Boot.load turns d m = .error .error) ∨
      (Nat.count d.Fails (2 + totalClusters d.disk index Boot.files + 24) < 25 ∧
        exists t, Boot.load turns d m = .ok t ∧
          forall m', (forall a, ¬ own a -> m' a = t.mem a) ->
            BootMemory d.disk index own m m') := by
  have hrun : Boot.Reads d (2 + totalClusters d.disk index Boot.files)
      (Gives fun t => forall m', (forall a, ¬ own a -> m' a = t.mem a) ->
        BootMemory d.disk index own m m') (Boot.load turns d m) := by
    rw [load_eq]
    refine (loadTables_outcome d m).bind (by omega) fun s hs => ?_
    rcases hs with ⟨hready, htables, hother⟩
    refine (loadFiles_outcome hload (files_apart hload hinit) hturns hready
      htables).mono ?_
    rintro ⟨t, hrun, _, _, hfiles⟩
    exact ⟨t, hrun, fun m' hend => hfiles.bootMemory hown hother hend⟩
  rcases hrun with ⟨hspent, herror⟩ | ⟨hspent, ht⟩
  · exact Or.inl ⟨hspent, herror⟩
  · exact Or.inr ⟨Nat.lt_of_not_le hspent, ht⟩

theorem before_apart {before after : List Boot.BootFile} {f : Boot.BootFile}
    (hfiles : Boot.files = before ++ f :: after)
    (hload : forall g, g ∈ before -> Loadable d.disk g (index g)) :
    before.Pairwise (PlacesApart d.disk index) := by
  unfold Boot.files at hfiles
  rcases before with _ | ⟨a, _ | ⟨b, _ | ⟨c, rest⟩⟩⟩
  · exact List.Pairwise.nil
  · exact List.pairwise_singleton _ a
  · have hkernel := (hload a List.mem_cons_self).free
    simp only [List.cons_append, List.nil_append, List.cons.injEq] at hfiles
    rcases hfiles with ⟨rfl, rfl, _⟩
    have hkernelSegment : Boot.kernelFile.segment.toNat = 0x50 := rfl
    have hinitSegment : Boot.initFile.segment.toNat = 0x1050 := rfl
    exact List.pairwise_pair.mpr
      (placesApart_loader hkernel (by omega) (by omega))
  · simp at hfiles

theorem loadFiles_append (turns : Nat) (d : Boot.Drive)
    (fs gs : List Boot.BootFile) (s : Boot.LoadState) :
    Boot.loadFiles turns d (fs ++ gs) s =
      Boot.loadFiles turns d fs s >>= Boot.loadFiles turns d gs := by
  unfold Boot.loadFiles
  rw [List.foldlM_append]

/-- A file that is not in the root directory stops the loader when all files before
it have been loaded. -/
theorem load_missing {before after : List Boot.BootFile} {f : Boot.BootFile}
    (hfiles : Boot.files = before ++ f :: after)
    (hload : forall g, g ∈ before -> Loadable d.disk g (index g))
    (hturns : forall g, g ∈ before -> fileClusters d.disk (index g) ≤ turns)
    (hmissing : forall j, j < 224 -> ¬ NameAt d.disk f.name j) (m : Mem) :
    (25 ≤ Nat.count d.Fails (2 + totalClusters d.disk index before + 24) ∧
        Boot.load turns d m = .error .error) ∨
      (Nat.count d.Fails (2 + totalClusters d.disk index before + 24) < 25 ∧
        Boot.load turns d m = .error .missing) := by
  have hrun : Boot.Reads d (2 + totalClusters d.disk index before)
      (fun x => x = .error .missing) (Boot.load turns d m) := by
    rw [load_eq, hfiles]
    refine (loadTables_outcome d m).bind (by omega) fun s hs => ?_
    rcases hs with ⟨hready, htables, _⟩
    rw [loadFiles_append]
    refine (loadFiles_outcome hload (before_apart hfiles hload) hturns hready
      htables).bind (Nat.le_refl _) fun t ht => ?_
    rcases ht with ⟨hready', htables', _⟩
    refine Or.inr ⟨hready'.not_spent, ?_⟩
    rw [loadFiles_cons]
    unfold Boot.loadFile
    rw [searchDir_missing htables' hmissing]
    rfl
  rcases hrun with ⟨hspent, herror⟩ | ⟨hspent, hstop⟩
  · exact Or.inl ⟨hspent, herror⟩
  · exact Or.inr ⟨Nat.lt_of_not_le hspent, hstop⟩

end AllFiles

/-!
# A small disk
-/

/-- An entry of a file of one byte. -/
def smallEntry (name : List Byte) (cluster : Byte) : List Byte :=
  name ++ List.replicate 15 0 ++ [cluster, 0, 1, 0, 0, 0]

def smallDirectory : List Byte :=
  smallEntry Boot.kernelFile.name 2 ++ smallEntry Boot.initFile.name 3 ++
    smallEntry Boot.symbolsFile.name 4

def smallDisk : Boot.Disk := fun a =>
  if a < 0x200 then 0
  else if a < 0x2600 then (List.replicate 8 0xff).getD (a - 0x200) 0
  else smallDirectory.getD (a - 0x2600) 0

def smallDrive : Boot.Drive where
  disk := smallDisk
  fault := fun n => if n < 24 then some fun _ => 0xcc else none

def smallIndex (f : Boot.BootFile) : Nat :=
  (f.segment.toNat - 0x50) / 0x1000

instance (disk : Boot.Disk) (name : List Byte) (j : Nat) :
    Decidable (NameAt disk name j) :=
  inferInstanceAs (Decidable (forall i, i < 11 -> _))

theorem loadable_one {disk : Boot.Disk} {f : Boot.BootFile} {j : Nat}
    (hfound : FirstNamed disk f.name j)
    (hsize : (slot disk bootRoot j).size = 1)
    (hcluster : 2 ≤ (slot disk bootRoot j).clusterLo ∧
      (slot disk bootRoot j).clusterLo < 0xbff)
    (hend : 0xff8 ≤ tableEntry disk bootRoot (slot disk bootRoot j).clusterLo)
    (hfree : Free f.segment 1) : Loadable disk f j := by
  have hone : (slot disk bootRoot j).size.toNat = 1 := by
    rw [hsize]
    rfl
  have hclusters : fileClusters disk j = 1 := by
    unfold fileClusters
    rw [hone]
    rfl
  have hzero : forall i, i < fileClusters disk j -> i = 0 := by
    intro i hi
    omega
  refine ⟨hfound, by omega, ⟨?_, ?_, by omega⟩, ?_, by rw [hclusters]; exact hfree⟩
  · intro i hi
    rw [hzero i hi]
    have hlt := hcluster.2
    have hinside : (slot disk bootRoot j).clusterLo < 0xff7 := by bv_omega
    exact ⟨hcluster.1, hinside⟩
  · intro _
    change _ ≤ chain disk bootRoot _ (fileClusters disk j)
    rw [hclusters]
    exact hend
  · intro i hi
    rw [hzero i hi]
    have hlt := hcluster.2
    change (slot disk bootRoot j).clusterLo.toNat < 3072
    bv_omega

theorem smallDisk_loadable : forall f, f ∈ Boot.files ->
    Loadable smallDisk f (smallIndex f) := by
  unfold Boot.files
  simp only [List.mem_cons, List.not_mem_nil, or_false, forall_eq_or_imp, forall_eq]
  refine ⟨loadable_one ⟨?_, ?_, ?_⟩ ?_ ?_ ?_ ?_, loadable_one ⟨?_, ?_, ?_⟩ ?_ ?_ ?_ ?_,
    loadable_one ⟨?_, ?_, ?_⟩ ?_ ?_ ?_ ?_⟩ <;> decide +kernel

def smallOwn (a : Nat) : Prop :=
  (0x400 ≤ a ∧ a < 0x500) ∨ (0x7c00 ≤ a ∧ a < 0x7e00)

theorem smallOwn_apart : OwnMemory smallDisk smallIndex smallOwn := by
  constructor
  · intro a ha hown
    unfold InTables at ha
    unfold smallOwn at hown
    omega
  · intro f hf a ha hown
    have hone : forall f, f ∈ Boot.files -> fileClusters smallDisk (smallIndex f) = 1 ∧
        (f.segment.toNat = 0x50 ∨ 0x1050 ≤ f.segment.toNat) := by
      decide +kernel
    have hfile := hone f hf
    unfold InPlace at ha
    unfold smallOwn at hown
    omega

theorem load_outcome_small :
    (25 ≤ Nat.count smallDrive.Fails
          (2 + totalClusters smallDisk smallIndex Boot.files + 24) ∧
        Boot.load 1 smallDrive (fun _ => 0) = .error .error) ∨
      (Nat.count smallDrive.Fails
          (2 + totalClusters smallDisk smallIndex Boot.files + 24) < 25 ∧
        exists t, Boot.load 1 smallDrive (fun _ => 0) = .ok t ∧
          forall m', (forall a, ¬ smallOwn a -> m' a = t.mem a) ->
            BootMemory smallDisk smallIndex smallOwn (fun _ => 0) m') :=
  load_outcome (d := smallDrive) smallDisk_loadable (by decide +kernel) smallOwn_apart
    (by decide +kernel) _

def kernelOnlyDrive : Boot.Drive where
  disk := fun a => if a < 0x2620 then smallDisk a else 0
  fault := fun _ => none

theorem load_missing_small :
    (25 ≤ Nat.count kernelOnlyDrive.Fails (2 + totalClusters kernelOnlyDrive.disk
          smallIndex [Boot.kernelFile] + 24) ∧
        Boot.load 1 kernelOnlyDrive (fun _ => 0) = .error .error) ∨
      (Nat.count kernelOnlyDrive.Fails (2 + totalClusters kernelOnlyDrive.disk
          smallIndex [Boot.kernelFile] + 24) < 25 ∧
        Boot.load 1 kernelOnlyDrive (fun _ => 0) = .error .missing) :=
  @load_missing kernelOnlyDrive smallIndex 1 [Boot.kernelFile] [Boot.symbolsFile]
    Boot.initFile rfl
    (by
      simp only [List.mem_singleton, forall_eq]
      refine loadable_one ⟨?_, ?_, ?_⟩ ?_ ?_ ?_ ?_ <;> decide +kernel)
    (by decide +kernel) (by decide +kernel) _

end Fs
end Rmmtos
