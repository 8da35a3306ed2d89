import Rmmtos.Fs.FatEnds

/-!
# The driver on a device that may fail

The FAT driver reads a volume through the handle of another file.  Where that
file does for every read of the driver what the volume does, or panics, the
driver itself reads what it reads on the volume, or panics.
-/

namespace Rmmtos
namespace Fs

open Library Kernel

/-- A state that calls work on stands for a volume: reads of the places that are
allowed give the bytes of the volume, unless there is no memory for them. -/
structure Follows {σ : Type} (calls : VolumeCalls σ) (R : σ -> Volume -> Prop)
    (allowed : Uint64 -> Word -> Prop) : Prop where
  seek : forall s v position, R s v -> R (calls.seek position s) (v.seek position)
  leftover : forall s v, R s v -> R (calls.leftover s).2 v
  read : forall s v buffer size, R s v -> allowed v.position size ->
    calls.read buffer size s = panic .outOfMem ∨
      exists s', calls.read buffer size s =
          .ok (size, splice v.data size.toNat buffer, s') ∧
        R s' (v.advance size)

structure Matches {σ : Type} (R : σ -> Volume -> Prop) (x : FatReadOn σ)
    (y : FatRead) : Prop where
  state : R x.state y.volume
  whole : x.wholeClustersLeft = y.wholeClustersLeft
  offset : x.clusterOffset = y.clusterOffset
  current : x.currentCluster = y.currentCluster
  completed : x.completed = y.completed
  buffer : x.buffer = y.buffer

section Follows

variable {σ : Type} {calls : VolumeCalls σ} {R : σ -> Volume -> Prop}
  {allowed : Uint64 -> Word -> Prop} {root : FatGeometry}
  {endOffset count : Word} {s : σ} {v : Volume} {x : FatReadOn σ} {y : FatRead}

theorem readNextCluster_follows (h : Follows calls R allowed) (hR : R s v)
    {c : Word} (hallowed : allowed (fatPosition root c) 2) :
    readNextCluster calls root c s = panic .outOfMem ∨
      exists s', readNextCluster calls root c s =
          .ok ((nextCluster root v c).1, s') ∧ R s' (nextCluster root v c).2 := by
  have hseek := h.seek _ _ (fatPosition root c) (h.leftover s v hR)
  unfold readNextCluster
  dsimp only
  rcases h.read _ _ (calls.leftover s).1 2 hseek hallowed with
    hpanic | ⟨s', hread, hR'⟩
  · left
    rw [hpanic]
    rfl
  · right
    rw [hread]
    exact ⟨s', rfl, hR'⟩

theorem readEntry_follows (h : Follows calls R allowed) (hR : R s v)
    {position : Uint64} (hallowed : allowed position directoryEntrySize) :
    readEntry calls position s = panic .outOfMem ∨
      exists entry s', readEntry calls position s = .ok (entry, s') ∧
        entry.clusterLo = (fileEntry v.image position).clusterLo ∧
        entry.size = (fileEntry v.image position).size ∧
        R s' ((v.seek position).advance directoryEntrySize) := by
  have hseek := h.seek _ _ position (h.leftover s v hR)
  unfold readEntry
  dsimp only
  rcases h.read _ _ (calls.leftover s).1 _ hseek hallowed with
    hpanic | ⟨s', hread, hR'⟩
  · left
    rw [hpanic]
    rfl
  · right
    rw [hread]
    exact ⟨_, s', rfl, rfl, rfl, hR'⟩

theorem readPart_follows (h : Follows calls R allowed) {next size : Word}
    (hR : R s v) (hxy : Matches R x y)
    (hallowed : allowed (add64_16 (clusterPosition root y.currentCluster)
      y.clusterOffset) size) :
    readPart calls root next size x s = panic .outOfMem ∨
      exists x', readPart calls root next size x s = .ok x' ∧
        Matches R x' (readTurn y next size (v.seek (add64_16
          (clusterPosition root y.currentCluster) y.clusterOffset))) := by
  have hseek := h.seek _ _ (add64_16 (clusterPosition root x.currentCluster)
    x.clusterOffset) hR
  rw [← hxy.current, ← hxy.offset] at hallowed ⊢
  unfold readPart
  dsimp only
  rcases h.read _ _ (fun i => x.buffer (x.completed.toNat + i)) size hseek hallowed with
    hpanic | ⟨s', hread, hR'⟩
  · left
    rw [hpanic]
    rfl
  · right
    rw [hread]
    refine ⟨_, rfl, hR', hxy.whole, rfl, rfl, ?_, ?_⟩
    · unfold readTurn
      dsimp only
      rw [hxy.completed]
    · unfold readTurn
      dsimp only
      rw [← hxy.completed, ← hxy.buffer, ← splice_eq_writeRun]

theorem turn_follows (h : Follows calls R allowed) (hxy : Matches R x y)
    (htable : allowed (fatPosition root y.currentCluster) 2)
    (hpart : y.wholeClustersLeft.toNat = 0 ->
      allowed (add64_16 (clusterPosition root y.currentCluster) y.clusterOffset)
        (clusterPart root endOffset count y
          (nextCluster root y.volume y.currentCluster).1)) :
    fatReadTurnOn calls root endOffset count x = panic .outOfMem ∨
      exists x', fatReadTurnOn calls root endOffset count x = .ok x' ∧
        Matches R x' (fatReadTurn root endOffset count y) := by
  unfold fatReadTurnOn
  rw [hxy.current]
  rcases readNextCluster_follows h hxy.state htable with
    hpanic | ⟨s', hread, hR'⟩
  · left
    rw [hpanic]
    rfl
  · rw [hread, ok_bind, hxy.whole]
    by_cases hpass : cmp64_16 y.wholeClustersLeft 0 ≠ 0
    · right
      rw [if_pos hpass]
      refine ⟨_, rfl, ?_⟩
      have hturn : fatReadTurn root endOffset count y = _ := if_pos hpass
      rw [hturn]
      exact ⟨hR', rfl, hxy.offset, rfl, hxy.completed, hxy.buffer⟩
    · have hzero : y.wholeClustersLeft.toNat = 0 :=
        cmp64_16_zero_iff.mp (not_not.mp hpass)
      have hsize : partSize root endOffset count x.clusterOffset x.completed
          (nextCluster root y.volume y.currentCluster).1 =
          clusterPart root endOffset count y
            (nextCluster root y.volume y.currentCluster).1 := by
        rw [hxy.offset, hxy.completed]
        rfl
      rw [if_neg hpass]
      dsimp only
      rw [hsize]
      have hturn : fatReadTurn root endOffset count y = _ := if_neg hpass
      rw [hturn]
      exact readPart_follows h hR' hxy (hpart hzero)

theorem loop_follows (h : Follows calls R allowed) {I : FatRead -> Prop}
    (hI : forall y, I y -> y.completed < count -> y.currentCluster < 0xff7 ->
      allowed (fatPosition root y.currentCluster) 2 ∧
      (y.wholeClustersLeft.toNat = 0 ->
        allowed (add64_16 (clusterPosition root y.currentCluster) y.clusterOffset)
          (clusterPart root endOffset count y
            (nextCluster root y.volume y.currentCluster).1)) ∧
      I (fatReadTurn root endOffset count y))
    (hxy : Matches R x y) (hy : I y) {turns : Nat} {y' : FatRead}
    (hrun : fatReadLoop root endOffset count turns y = .ok y') :
    whileLoop .hang (fatReadGoes count) (fatReadTurnOn calls root endOffset count)
        turns x = panic .outOfMem ∨
      exists x', whileLoop .hang (fatReadGoes count)
          (fatReadTurnOn calls root endOffset count) turns x = .ok x' ∧
        Matches R x' y' := by
  have hcond : forall (x : FatReadOn σ) (y : FatRead), Matches R x y ∧ I y ->
      fatReadGoes count x =
        decide (y.completed < count ∧ y.currentCluster < 0xff7) := by
    rintro x y ⟨hxy, _⟩
    unfold fatReadGoes
    rw [hxy.completed, hxy.current]
  have hstep : forall (x : FatReadOn σ) (y y' : FatRead), Matches R x y ∧ I y ->
      decide (y.completed < count ∧ y.currentCluster < 0xff7) = true ->
      Except.ok (fatReadTurn root endOffset count y) = (.ok y' : Result FatRead) ->
      (exists f, fatReadTurnOn calls root endOffset count x = .error f ∧
          f = .panic .outOfMem) ∨
        exists x', fatReadTurnOn calls root endOffset count x = .ok x' ∧
          Matches R x' y' ∧ I y' := by
    rintro x y y' ⟨hxy, hy⟩ hgoes hturn
    cases hturn
    rcases of_decide_eq_true hgoes with ⟨hcount, hcluster⟩
    rcases hI y hy hcount hcluster with ⟨htable, hpart, hnext⟩
    rcases turn_follows h hxy htable hpart with hpanic | ⟨x', hok, hmatch⟩
    · exact Or.inl ⟨_, hpanic, rfl⟩
    · exact Or.inr ⟨x', hok, hmatch, hnext⟩
  rcases whileLoop_follows hcond hstep ⟨hxy, hy⟩ hrun with
    ⟨f, hfail, rfl⟩ | ⟨x', hok, hmatch, _⟩
  · exact Or.inl hfail
  · exact Or.inr ⟨x', hok, hmatch⟩

end Follows

/-!
# Reads along a chain
-/

/-- A read of a file with a chain that begins at one of its clusters, has the right
place to its end, and is counted in full. -/
structure RightRead (image : Bytes) (root : FatGeometry) (cluster : Nat)
    (entry : DirectoryEntry) (position : Uint64) (count : Word) : Prop where
  clustered : Clustered root cluster
  file : ChainedFile image root cluster entry
  filled : 0 < entry.size.toNat
  inside : position.toNat < clustersOf cluster entry.size.toNat * cluster
  plain : (fileRead cluster entry position).Plain (readNumbers cluster entry count)
  parts : forall i,
    (fileRead cluster entry position).part (readNumbers cluster entry count) i < 4096

/-- The reads of the driver on the way along the chain of a file are allowed. -/
structure AllowsFile (allowed : Uint64 -> Word -> Prop) (image : Bytes)
    (root : FatGeometry) (cluster : Nat) (entry : DirectoryEntry) : Prop where
  table : forall i, i < clustersOf cluster entry.size.toNat ->
    allowed (fatPosition root (chain image root entry.clusterLo i)) 2
  part : forall i offset size, i < clustersOf cluster entry.size.toNat ->
    offset.toNat + size.toNat ≤ cluster ->
    allowed (add64_16 (clusterPosition root (chain image root entry.clusterLo i))
      offset) size

inductive Progress (image : Bytes) (root : FatGeometry) (cluster : Nat)
    (entry : DirectoryEntry) (position : Uint64) (count : Word) (y : FatRead) :
    Prop where
  | passes {i : Nat} : y.volume.image = image ->
      y.currentCluster = chain image root entry.clusterLo i ->
      y.wholeClustersLeft.toNat + i = position.toNat / cluster ->
      0 < y.wholeClustersLeft.toNat ->
      y.clusterOffset.toNat = position.toNat % cluster -> y.completed = 0 ->
      Progress image root cluster entry position count y
  | reads {i left : Nat} : y.volume.image = image ->
      y.currentCluster = chain image root entry.clusterLo i ->
      y.wholeClustersLeft.toNat = 0 ->
      (fileRead cluster entry position).At (readNumbers cluster entry count)
        (left + 1) i y.clusterOffset.toNat y.completed.toNat ->
      Progress image root cluster entry position count y
  | ends : count ≤ y.completed ∨ 0xff7 ≤ y.currentCluster ->
      Progress image root cluster entry position count y

section Progress

variable {image : Bytes} {root : FatGeometry} {cluster : Nat}
  {entry : DirectoryEntry} {position : Uint64} {count endOffset : Word}
  {y : FatRead} {allowed : Uint64 -> Word -> Prop} {i left : Nat}

theorem RightRead.cluster_lt (h : RightRead image root cluster entry position count) :
    position.toNat / cluster < clustersOf cluster entry.size.toNat :=
  (Nat.div_lt_iff_lt_mul h.clustered.pos.1).mpr h.inside

theorem RightRead.atPosition
    (h : RightRead image root cluster entry position count) : exists left,
      (fileRead cluster entry position).At (readNumbers cluster entry count)
        (left + 1) (position.toNat / cluster) (position.toNat % cluster) 0 := by
  rcases Nat.exists_eq_add_of_lt h.cluster_lt with ⟨left, hleft⟩
  rw [Nat.add_assoc] at hleft
  refine ⟨left, hleft.symm, Nat.mod_lt _ h.clustered.pos.1, ?_, Or.inr rfl,
    Nat.zero_le _⟩
  exact (Nat.div_add_mod' _ _).symm

theorem Progress.start (h : RightRead image root cluster entry position count)
    (hy : Starts cluster image entry position y endOffset) :
    Progress image root cluster entry position count y := by
  rcases Nat.eq_zero_or_pos (position.toNat / cluster) with hzero | hpos
  · rcases h.atPosition with ⟨left, hat⟩
    rw [← hy.offset, hzero] at hat
    refine @Progress.reads _ _ _ _ _ _ _ 0 left hy.image_eq hy.current ?_ ?_
    · rw [hy.whole, hzero]
    · rw [hy.completed]
      exact hat
  · refine .passes (i := 0) hy.image_eq hy.current ?_ ?_ hy.offset hy.completed
    · rw [hy.whole, Nat.add_zero]
    · rw [hy.whole]
      exact hpos

theorem Progress.pass (h : RightRead image root cluster entry position count)
    (himage : y.volume.image = image)
    (hcurrent : y.currentCluster = chain image root entry.clusterLo i)
    (hwhole : y.wholeClustersLeft.toNat + i = position.toNat / cluster)
    (hpos : 0 < y.wholeClustersLeft.toNat)
    (hoffset : y.clusterOffset.toNat = position.toNat % cluster)
    (hcompleted : y.completed = 0) (hlt : y.currentCluster < 0xff7) :
    Progress image root cluster entry position count
      (fatReadTurn root endOffset count y) := by
  have hfew := h.file.clusters_lt (v := ⟨image, position⟩) h.filled
  have hlow := h.cluster_lt
  have hhigh : ¬ Uint64.High y.wholeClustersLeft := not_high_of_lt (by omega)
  have hdec := (dec64_toNat hhigh hpos).1
  rcases @fatReadTurn_pass root endOffset count y h.clustered.fat hlt
    (by omega) with ⟨v, hv, hturn⟩
  have hturn := hturn y.buffer
  have hnext : tableEntry y.volume.image root y.currentCluster =
      chain image root entry.clusterLo (i + 1) := by
    rw [himage, hcurrent]
    rfl
  rw [hturn]
  rcases Nat.eq_zero_or_pos (y.wholeClustersLeft.toNat - 1) with hzero | hmore
  · rcases h.atPosition with ⟨left, hat⟩
    rw [← hoffset, show position.toNat / cluster = i + 1 by omega] at hat
    refine @Progress.reads _ _ _ _ _ _ _ (i + 1) left (hv.trans himage) hnext ?_ ?_
    · dsimp only
      rw [hdec, hzero]
    · dsimp only
      rw [hcompleted]
      exact hat
  · refine .passes (i := i + 1) (hv.trans himage) hnext ?_ ?_ hoffset hcompleted
    · dsimp only
      omega
    · dsimp only
      omega

theorem RightRead.part_toNat (h : RightRead image root cluster entry position count)
    (hend : endOffset.toNat = entry.size.toNat % cluster)
    (hat : (fileRead cluster entry position).At (readNumbers cluster entry count)
      (left + 1) i y.clusterOffset.toNat y.completed.toNat)
    (hcount : y.completed < count) :
    (clusterPart root endOffset count y
        (chain image root entry.clusterLo (i + 1))).toNat =
      (fileRead cluster entry position).part (readNumbers cluster entry count) i := by
  have hsum : i + (left + 1) = clustersOf cluster entry.size.toNat := hat.left_eq
  have hends : 0xff8 ≤ chain image root entry.clusterLo (i + 1) <-> left = 0 := by
    constructor
    · intro hle
      by_contra hne
      have hlt := (h.file.inside (i + 1) (by omega)).2
      exact absurd (BitVec.le_trans (by decide) hle) (BitVec.not_le.mpr hlt)
    · intro hzero
      rw [show i + 1 = clustersOf cluster entry.size.toNat by omega]
      exact h.file.ends h.filled
  have hnumbers : partsOf root endOffset count = readNumbers cluster entry count := by
    unfold partsOf readNumbers
    rw [← h.clustered.cluster_eq, hend]
  have hinside : y.clusterOffset.toNat < 2 ^ root.clusterPot.toNat := by
    rw [← h.clustered.cluster_eq]
    exact hat.inside
  have hendlt : endOffset.toNat < 2 ^ root.clusterPot.toNat := by
    rw [hend]
    exact h.clustered.mod_lt _
  rw [clusterPart_toNat h.clustered.pot hendlt hinside hcount hends, hnumbers]
  exact (size_eq_part (fits h.clustered.pos h.filled position count) h.plain hat
    (BitVec.lt_def.mp hcount)).1

theorem Progress.read (h : RightRead image root cluster entry position count)
    (hend : endOffset.toNat = entry.size.toNat % cluster)
    (himage : y.volume.image = image)
    (hcurrent : y.currentCluster = chain image root entry.clusterLo i)
    (hwhole : y.wholeClustersLeft.toNat = 0)
    (hat : (fileRead cluster entry position).At (readNumbers cluster entry count)
      (left + 1) i y.clusterOffset.toNat y.completed.toNat)
    (hcount : y.completed < count) (hlt : y.currentCluster < 0xff7) :
    Progress image root cluster entry position count
      (fatReadTurn root endOffset count y) := by
  have hfits := fits h.clustered.pos h.filled position count
  have hd := BitVec.lt_def.mp hcount
  have hpart := h.part_toNat (y := y) hend hat hcount
  have hcounts := size_eq_part hfits h.plain hat hd
  rcases @fatReadTurn_read root endOffset count y h.clustered.fat hlt
    hwhole with ⟨v, hv, _, hturn⟩
  have hturn := hturn y.buffer
  have hnext : tableEntry y.volume.image root y.currentCluster =
      chain image root entry.clusterLo (i + 1) := by
    rw [himage, hcurrent]
    rfl
  rw [hnext] at hturn
  generalize hsize : clusterPart root endOffset count y
    (chain image root entry.clusterLo (i + 1)) = size at hpart hturn
  have hcounted := @counted_toNat count y size hcount (by
    rw [hpart]
    have hle : (readNumbers cluster entry count).count = count.toNat := rfl
    omega)
  rw [hpart, Nat.mod_eq_of_lt (h.parts i)] at hcounted
  change fatReadTurn root endOffset count y = _ at hturn
  rw [hturn]
  cases left with
  | zero =>
      refine .ends (Or.inr ?_)
      have hsum : i + 1 = clustersOf cluster entry.size.toNat := hat.left_eq
      change 0xff7 ≤ chain image root entry.clusterLo (i + 1)
      rw [hsum]
      exact BitVec.le_trans (by decide) (h.file.ends h.filled)
  | succ left =>
      rcases hat.next hfits hd with hfull | hatnext
      · refine .ends (Or.inl ?_)
        rw [BitVec.le_def]
        change count.toNat ≤ (y.completed + (size &&& fileIoResultSizeMask)).toNat
        rw [hcounted, hfull]
        exact Nat.le_refl _
      · refine @Progress.reads _ _ _ _ _ _ _ (i + 1) left (hv.trans himage) rfl hwhole ?_
        change FileRead.At _ _ _ _ 0
          (y.completed + (size &&& fileIoResultSizeMask)).toNat
        rw [hcounted]
        exact hatnext

theorem Progress.turn (h : RightRead image root cluster entry position count)
    (hallows : AllowsFile allowed image root cluster entry)
    (hend : endOffset.toNat = entry.size.toNat % cluster)
    (hy : Progress image root cluster entry position count y)
    (hcount : y.completed < count) (hlt : y.currentCluster < 0xff7) :
    allowed (fatPosition root y.currentCluster) 2 ∧
    (y.wholeClustersLeft.toNat = 0 ->
      allowed (add64_16 (clusterPosition root y.currentCluster) y.clusterOffset)
        (clusterPart root endOffset count y
          (nextCluster root y.volume y.currentCluster).1)) ∧
    Progress image root cluster entry position count
      (fatReadTurn root endOffset count y) := by
  cases hy with
  | @passes i himage hcurrent hwhole hpos hoffset hcompleted =>
      have hi : i < clustersOf cluster entry.size.toNat := by
        have hlow := h.cluster_lt
        omega
      refine ⟨?_, fun hzero => by omega,
        Progress.pass h himage hcurrent hwhole hpos hoffset hcompleted hlt⟩
      rw [hcurrent]
      exact hallows.table i hi
  | @reads i left himage hcurrent hwhole hat =>
      have hsum : i + (left + 1) = clustersOf cluster entry.size.toNat := hat.left_eq
      have hi : i < clustersOf cluster entry.size.toNat := by omega
      refine ⟨?_, fun _ => ?_,
        Progress.read h hend himage hcurrent hwhole hat hcount hlt⟩
      · rw [hcurrent]
        exact hallows.table i hi
      · have hnext : (nextCluster root y.volume y.currentCluster).1 =
            chain image root entry.clusterLo (i + 1) := by
          rw [(nextCluster_eq h.clustered.fat y.volume hlt).1, himage, hcurrent]
          rfl
        have hpart := h.part_toNat (y := y) hend hat hcount
        have hcounts := size_eq_part
          (fits h.clustered.pos h.filled position count) h.plain hat
          (BitVec.lt_def.mp hcount)
        have hinside : y.clusterOffset.toNat < cluster := hat.inside
        have hle : (readNumbers cluster entry count).cluster = cluster := rfl
        rw [hnext, hcurrent]
        refine hallows.part i _ _ hi ?_
        rw [hpart]
        omega
  | ends hdone =>
      rcases hdone with hdone | hdone
      · exact absurd hcount (BitVec.not_lt.mpr hdone)
      · exact absurd hlt (BitVec.not_lt.mpr hdone)

end Progress

/-!
# Whole reads
-/

section Reads

variable {σ : Type} {calls : VolumeCalls σ} {R : σ -> Volume -> Prop}
  {allowed : Uint64 -> Word -> Prop} {root : FatGeometry} {cluster : Nat}
  {s : σ} {v : Volume} {entryPosition position : Uint64} {count : Word}
  {turns : Nat}

theorem fatReadLoop_image {endOffset : Word} {x y : FatRead}
    (hrun : fatReadLoop root endOffset count turns x = .ok y) :
    y.volume.image = x.volume.image := by
  refine (whileLoop_invariant (I := fun z : FatRead =>
    z.volume.image = x.volume.image) ?_ hrun rfl).1
  intro z z' hz _ hturn
  cases hturn
  rw [← hz]
  unfold fatReadTurn
  dsimp only
  split <;> rfl

theorem RightRead.loop
    (h : RightRead v.image root cluster (fileEntry v.image entryPosition) position
      count)
    (hturns : clustersOf cluster (fileEntry v.image entryPosition).size.toNat ≤ turns)
    (buffer : Bytes) {whole : Uint64} {offset endOffset : Word} {rest : Uint64}
    (hshift : shr64 position (root.clusterPot.setWidth 16) = .ok (offset, whole))
    (hend : shr64 (init64 0 0 0
        ((fileEntry v.image entryPosition).size.extractLsb' 0 16))
      (root.clusterPot.setWidth 16) = .ok (endOffset, rest))
    (hstarts : Starts cluster v.image (fileEntry v.image entryPosition) position
      ⟨⟨v.image, add64 entryPosition (init64 0 0 0 directoryEntrySize)⟩, whole, offset,
        (fileEntry v.image entryPosition).clusterLo, 0, buffer⟩ endOffset) :
    exists y, fatReadLoop root endOffset count turns
        ⟨⟨v.image, add64 entryPosition (init64 0 0 0 directoryEntrySize)⟩, whole, offset,
          (fileEntry v.image entryPosition).clusterLo, 0, buffer⟩ = .ok y ∧
      y.completed.toNat = min count.toNat
        ((fileEntry v.image entryPosition).size.toNat - position.toNat) ∧
      y.buffer = writeRun (fun j => j)
        (fun j => fileByte v.image root cluster (fileEntry v.image entryPosition)
          (position.toNat + j))
        (min count.toNat
          ((fileEntry v.image entryPosition).size.toNat - position.toNat)) buffer := by
  have hrun : fatReadFile root v entryPosition position buffer count =
      fatReadLoop root endOffset count fatReadStates
        ⟨⟨v.image, add64 entryPosition (init64 0 0 0 directoryEntrySize)⟩, whole,
          offset, (fileEntry v.image entryPosition).clusterLo, 0, buffer⟩ >>=
            fun y => .ok (readResult position y) := by
    have hend' : shr64 (init64 0 0 0 ((directoryEntry
        (v.seek entryPosition).data).size.extractLsb' 0 16))
          (root.clusterPot.setWidth 16) = .ok (endOffset, rest) := hend
    unfold fatReadFile
    rw [hshift, ok_bind]
    dsimp only
    rw [hend']
    rfl
  have hends : ChainEnds v.image root (fileEntry v.image entryPosition).clusterLo
      (clustersOf cluster (fileEntry v.image entryPosition).size.toNat) :=
    ⟨_, Nat.le_refl _, BitVec.le_trans (by decide) (h.file.ends h.filled)⟩
  have hfew := h.file.clusters_lt h.filled
  have hstates : clustersOf cluster (fileEntry v.image entryPosition).size.toNat ≤
      fatReadStates := by
    have hlarge : 65536 ≤ fatReadStates := by decide
    omega
  rcases ends_of_chainEnds h.clustered hstarts hends with ⟨y, hloop⟩
  have hread := whileLoop_fuel_mono hloop (by simp) hstates
  have hloop' := whileLoop_fuel_mono hloop (by simp) hturns
  change fatReadLoop root endOffset count fatReadStates _ = _ at hread
  rw [hread, ok_bind] at hrun
  have hreads : ReadsFile root v entryPosition position count
      (fileByte v.image root cluster (fileEntry v.image entryPosition)) := by
    rcases Nat.eq_zero_or_pos count.toNat with hnone | hcount
    · exact readsFile_of_none (Or.inr hnone) (runs_none h.clustered hnone)
    · exact reads_inside h.clustered hcount h.file h.filled h.inside h.plain h.parts
  rcases hreads buffer with ⟨r, hr, hcompleted, _, hbuffer⟩
  rw [hr] at hrun
  cases hrun
  exact ⟨y, hloop', hcompleted, hbuffer⟩

/-- A read of a file on a device that may fail. -/
theorem fatReadFileOn_follows (hfollows : Follows calls R allowed) (hR : R s v)
    (h : RightRead v.image root cluster (fileEntry v.image entryPosition) position
      count) (hentry : allowed entryPosition directoryEntrySize)
    (hallows : AllowsFile allowed v.image root cluster
      (fileEntry v.image entryPosition))
    (hturns : clustersOf cluster (fileEntry v.image entryPosition).size.toNat ≤ turns)
    (buffer : Bytes) :
    fatReadFileOn turns calls root entryPosition position buffer count s =
        panic .outOfMem ∨
      exists x v', fatReadFileOn turns calls root entryPosition position buffer count
          s = .ok x ∧
        R x.state v' ∧ v'.image = v.image ∧
        x.completed.toNat = min count.toNat
          ((fileEntry v.image entryPosition).size.toNat - position.toNat) ∧
        x.buffer = writeRun (fun j => j)
          (fun j => fileByte v.image root cluster (fileEntry v.image entryPosition)
            (position.toNat + j))
          (min count.toNat
            ((fileEntry v.image entryPosition).size.toNat - position.toNat))
          buffer := by
  rcases exists_starts v.image entryPosition position h.clustered with
    ⟨offset, whole, endOffset, rest, hshift, hend, hstarts⟩
  rcases h.loop hturns buffer hshift hend (hstarts buffer) with
    ⟨y, hloop, hcompleted, hbuffer⟩
  unfold fatReadFileOn
  rw [hshift, ok_bind]
  dsimp only
  rcases readEntry_follows hfollows hR hentry with
    hpanic | ⟨entry, s', hread, hcluster, hsize, hR'⟩
  · left
    rw [hpanic]
    rfl
  · rw [hread, ok_bind]
    dsimp only
    rw [hsize, hend, ok_bind]
    dsimp only
    rw [hcluster]
    have hmatch : Matches R
        ⟨s', whole, offset, (fileEntry v.image entryPosition).clusterLo, 0, buffer⟩
        ⟨⟨v.image, add64 entryPosition (init64 0 0 0 directoryEntrySize)⟩, whole,
          offset, (fileEntry v.image entryPosition).clusterLo, 0, buffer⟩ :=
      ⟨hR', rfl, rfl, rfl, rfl, rfl⟩
    rcases loop_follows hfollows
      (fun y hy hc hlt => Progress.turn h hallows
        (hstarts buffer).endOffset_eq hy hc hlt)
      hmatch (Progress.start h (hstarts buffer)) hloop with
      hpanic | ⟨x, hok, hstate, _, _, _, hdone, hcopied⟩
    · exact Or.inl hpanic
    · refine Or.inr ⟨x, y.volume, hok, hstate, fatReadLoop_image hloop, ?_, ?_⟩
      · rw [hdone]
        exact hcompleted
      · rw [hcopied]
        exact hbuffer

end Reads

end Fs
end Rmmtos
