import Rmmtos.Fs.FatReadFile
import Rmmtos.Fs.FatVolume
import Rmmtos.Fs.ReadResults

/-!
# The end of a read

The loop of {lit}`fat_read_file` ends with the chain of its clusters, or with
the bytes that were asked for.  On a chain without an end only the bytes are
left, and parts of 4096 bytes are counted as none.
-/

namespace Rmmtos
namespace Fs

open Library Kernel

/-!
# One turn
-/

def countedBehind (cluster count o d : Nat) : Nat :=
  d + min (cluster - o) (count - d) % 4096

/-- A loop that has more than 4095 bytes left to read has so behind a part that
is not shorter than 4096 bytes, or that leaves as many. -/
theorem countedBehind_stuck {cluster count o d : Nat} (hcluster : 4096 ∣ cluster)
    (ho : o < cluster) (hleft : d + 4096 ≤ count)
    (hpart : 4096 ≤ cluster - o ∨ cluster - o + 4096 ≤ count - d) :
    countedBehind cluster count o d + 4096 ≤ count := by
  unfold countedBehind
  rcases Nat.le_total (cluster - o) (count - d) with hle | hle
  · rw [Nat.min_eq_left hle]
    have hmod := Nat.mod_le (cluster - o) 4096
    have hlt := Nat.mod_lt (cluster - o) (y := 4096) (by decide)
    rcases hpart with hlarge | hlarge
    · have hdiv := Nat.div_add_mod (cluster - o) 4096
      have hone : 1 ≤ (cluster - o) / 4096 := Nat.div_pos hlarge (by decide)
      omega
    · omega
  · rw [Nat.min_eq_right hle]
    have hdiv := Nat.div_add_mod (count - d) 4096
    have hone : 1 ≤ (count - d) / 4096 := Nat.div_pos (by omega) (by decide)
    omega

section Turns

variable {root : FatGeometry} {endOffset count : Word} {x : FatRead} {n : Nat}

theorem fatReadTurn_moves (hroot : root.fatBegin.toNat < 2 ^ 31)
    (hcluster : x.currentCluster < 0xff7) :
    (fatReadTurn root endOffset count x).volume.image = x.volume.image ∧
      (fatReadTurn root endOffset count x).currentCluster =
        tableEntry x.volume.image root x.currentCluster := by
  rcases Decidable.em (x.wholeClustersLeft.toNat = 0) with hzero | hpos
  · rcases @fatReadTurn_read root endOffset count x hroot hcluster hzero with
      ⟨v, himage, _, hturn⟩
    have hturn := hturn x.buffer
    change fatReadTurn root endOffset count x = _ at hturn
    rw [hturn]
    exact ⟨himage, rfl⟩
  · rcases @fatReadTurn_pass root endOffset count x hroot hcluster hpos with
      ⟨v, himage, hturn⟩
    have hturn := hturn x.buffer
    change fatReadTurn root endOffset count x = _ at hturn
    rw [hturn]
    exact ⟨himage, rfl⟩

structure AtPosition (root : FatGeometry) (endOffset : Word) (x : FatRead) :
    Prop where
  left : x.wholeClustersLeft.toNat = 0
  offset : x.clusterOffset.toNat < 2 ^ root.clusterPot.toNat
  endOffset : endOffset.toNat < 2 ^ root.clusterPot.toNat

theorem fatReadTurn_counts (hroot : root.fatBegin.toNat < 2 ^ 31)
    (hpot : root.clusterPot.toNat ≤ 15) (hx : AtPosition root endOffset x)
    (hd : x.completed < count) (hcluster : x.currentCluster < 0xff7)
    (hnext : tableEntry x.volume.image root x.currentCluster < 0xff7) :
    AtPosition root endOffset (fatReadTurn root endOffset count x) ∧
      (fatReadTurn root endOffset count x).clusterOffset.toNat = 0 ∧
      (fatReadTurn root endOffset count x).completed.toNat =
        countedBehind (2 ^ root.clusterPot.toNat) count.toNat
          x.clusterOffset.toNat x.completed.toNat := by
  have hlast : 0xff8 ≤ tableEntry x.volume.image root x.currentCluster <->
      (1 : Nat) = 0 := by
    constructor
    · intro hle
      exact absurd (BitVec.le_trans (by decide) hle) (BitVec.not_le.mpr hnext)
    · intro hfalse
      cases hfalse
  have hpart := clusterPart_toNat hpot hx.endOffset hx.offset hd hlast
  rcases @fatReadTurn_read root endOffset count x hroot hcluster hx.left with
    ⟨v, _, _, hturn⟩
  have hturn := hturn x.buffer
  change fatReadTurn root endOffset count x = _ at hturn
  generalize clusterPart root endOffset count x
    (tableEntry x.volume.image root x.currentCluster) = size at hpart hturn
  have hle : size.toNat ≤ count.toNat - x.completed.toNat := by
    rw [hpart]
    exact Nat.min_le_right _ _
  have hcounted := counted_toNat hd hle
  rw [hturn]
  refine ⟨⟨hx.left, Nat.two_pow_pos _, hx.endOffset⟩, rfl, ?_⟩
  change (x.completed + (size &&& fileIoResultSizeMask)).toNat = _
  rw [hcounted, hpart]
  rfl

/-!
# Loops that end
-/

theorem ends_with_chain (hroot : root.fatBegin.toNat < 2 ^ 31) {start : Word}
    {i k : Nat} (hcluster : x.currentCluster = chain x.volume.image root start i)
    (hend : 0xff7 ≤ chain x.volume.image root start (i + k)) :
    exists y, fatReadLoop root endOffset count (k + n) x = .ok y := by
  induction k generalizing x i with
  | zero =>
      refine ⟨x, fatReadLoop_done (Or.inr ?_)⟩
      rw [hcluster]
      exact hend
  | succ k ih =>
      rcases Decidable.em (x.completed < count) with hd | hd
      · rcases Decidable.em (x.currentCluster < 0xff7) with hlt | hge
        · have hmoves := @fatReadTurn_moves root endOffset count x hroot hlt
          rw [Nat.add_right_comm, fatReadLoop_turn hd hlt]
          apply ih (i := i + 1)
          · rw [hmoves.1, hmoves.2, hcluster]
            rfl
          · rw [hmoves.1, Nat.add_assoc, Nat.add_comm 1 k]
            exact hend
        · exact ⟨x, fatReadLoop_done (Or.inr (BitVec.not_lt.mp hge))⟩
      · exact ⟨x, fatReadLoop_done (Or.inl (BitVec.not_lt.mp hd))⟩

/-- A loop that goes on ends when it does so behind its next turn, unless the
chain ends with that turn. -/
theorem ends_after_turn (hroot : root.fatBegin.toNat < 2 ^ 31)
    (hpot : root.clusterPot.toNat ≤ 15) (hx : AtPosition root endOffset x)
    (hafter : forall y, AtPosition root endOffset y -> y.clusterOffset.toNat = 0 ->
      y.completed.toNat = countedBehind (2 ^ root.clusterPot.toNat) count.toNat
        x.clusterOffset.toNat x.completed.toNat -> x.completed < count ->
      exists z, fatReadLoop root endOffset count n y = .ok z) :
    exists z, fatReadLoop root endOffset count (n + 1) x = .ok z := by
  rcases Decidable.em (x.completed < count) with hd | hd
  · rcases Decidable.em (x.currentCluster < 0xff7) with hlt | hge
    · rw [fatReadLoop_turn hd hlt]
      rcases Decidable.em
        (tableEntry x.volume.image root x.currentCluster < 0xff7) with hnext | hlast
      · rcases fatReadTurn_counts hroot hpot hx hd hlt hnext with
          ⟨hat, hoffset, hcounted⟩
        exact hafter _ hat hoffset hcounted hd
      · refine ⟨_, fatReadLoop_done (Or.inr ?_)⟩
        rw [(@fatReadTurn_moves root endOffset count x hroot hlt).2]
        exact BitVec.not_lt.mp hlast
    · exact ⟨x, fatReadLoop_done (Or.inr (BitVec.not_lt.mp hge))⟩
  · exact ⟨x, fatReadLoop_done (Or.inl (BitVec.not_lt.mp hd))⟩

theorem ends_of_small_clusters (hroot : root.fatBegin.toNat < 2 ^ 31)
    (hpot : root.clusterPot.toNat ≤ 15) (hsmall : 2 ^ root.clusterPot.toNat < 4096)
    (hx : AtPosition root endOffset x)
    (hn : count.toNat - x.completed.toNat ≤ n) :
    exists y, fatReadLoop root endOffset count n x = .ok y := by
  induction n generalizing x with
  | zero =>
      refine ⟨x, fatReadLoop_done (Or.inl ?_)⟩
      rw [BitVec.le_def]
      exact Nat.le_of_sub_eq_zero (Nat.le_zero.mp hn)
  | succ n ih =>
      apply ends_after_turn hroot hpot hx
      intro y hy _ hcounted hd
      apply ih hy
      rw [BitVec.lt_def] at hd
      have ho := hx.offset
      unfold countedBehind at hcounted
      rw [Nat.mod_eq_of_lt (Nat.lt_of_le_of_lt (Nat.min_le_left _ _) (by omega))]
        at hcounted
      omega

theorem ends_of_rest (hroot : root.fatBegin.toNat < 2 ^ 31)
    (hpot : root.clusterPot.toNat ≤ 15) (hx : AtPosition root endOffset x)
    (hfew : count.toNat < x.completed.toNat + 4096)
    (hrest : count.toNat - x.completed.toNat ≤
      2 ^ root.clusterPot.toNat - x.clusterOffset.toNat) :
    exists y, fatReadLoop root endOffset count (n + 1) x = .ok y := by
  apply ends_after_turn hroot hpot hx
  intro y _ _ hcounted hd
  rw [BitVec.lt_def] at hd
  refine ⟨y, fatReadLoop_done (Or.inl ?_)⟩
  unfold countedBehind at hcounted
  rw [Nat.min_eq_right hrest, Nat.mod_eq_of_lt (by omega)] at hcounted
  rw [BitVec.le_def]
  omega

/-- With clusters of 4096 bytes or more, what is read must end in front of the
first part of that size. -/
theorem ends_of_few (hroot : root.fatBegin.toNat < 2 ^ 31)
    (hpot : root.clusterPot.toNat ≤ 15) (hx : AtPosition root endOffset x)
    (hlarge : 4096 ≤ 2 ^ root.clusterPot.toNat) (hstart : x.completed = 0)
    (hfew : count.toNat < 4096 ∨
      2 ^ root.clusterPot.toNat - x.clusterOffset.toNat < 4096 ∧
        count.toNat < 4096 +
          (2 ^ root.clusterPot.toNat - x.clusterOffset.toNat)) :
    exists y, fatReadLoop root endOffset count (n + 2) x = .ok y := by
  have hzero : x.completed.toNat = 0 := by
    rw [hstart]
    rfl
  rcases Nat.le_total count.toNat
    (2 ^ root.clusterPot.toNat - x.clusterOffset.toNat) with hle | hle
  · apply ends_of_rest hroot hpot hx
    · omega
    · omega
  · apply ends_after_turn hroot hpot hx
    intro y hy hoffset hcounted _
    unfold countedBehind at hcounted
    rw [hzero, Nat.sub_zero, Nat.min_eq_left hle, Nat.zero_add] at hcounted
    have hmod := Nat.mod_le (2 ^ root.clusterPot.toNat - x.clusterOffset.toNat) 4096
    apply ends_of_rest hroot hpot hy
    · rcases hfew with hfew | ⟨hpart, hfew⟩
      · omega
      · rw [Nat.mod_eq_of_lt hpart] at hcounted
        omega
    · rw [hoffset]
      rcases hfew with hfew | ⟨hpart, hfew⟩
      · omega
      · rw [Nat.mod_eq_of_lt hpart] at hcounted
        omega

/-!
# Loops that do not end
-/

/-- A part of 4096 bytes keeps the loop going as long as the chain does. -/
theorem reads_on (hroot : root.fatBegin.toNat < 2 ^ 31)
    (hpot : root.clusterPot.toNat ≤ 15) (hx : AtPosition root endOffset x)
    (hlarge : 4096 ∣ 2 ^ root.clusterPot.toNat) {start : Word} {i : Nat}
    (hcluster : x.currentCluster = chain x.volume.image root start i)
    (hchain : forall j, j ≤ n -> chain x.volume.image root start (i + j) < 0xff7)
    (hleft : x.completed.toNat + 4096 ≤ count.toNat)
    (hpart : 4096 ≤ 2 ^ root.clusterPot.toNat - x.clusterOffset.toNat ∨
      2 ^ root.clusterPot.toNat - x.clusterOffset.toNat + 4096 ≤
        count.toNat - x.completed.toNat) :
    fatReadLoop root endOffset count n x = .error .hang := by
  have hd : x.completed < count := by
    rw [BitVec.lt_def]
    omega
  have hlt : x.currentCluster < 0xff7 := by
    rw [hcluster]
    exact hchain 0 (Nat.zero_le n)
  induction n generalizing x i with
  | zero =>
      unfold fatReadLoop whileLoop
      rw [if_pos (decide_eq_true ⟨hd, hlt⟩)]
  | succ n ih =>
      have hbehind : tableEntry x.volume.image root x.currentCluster =
          chain x.volume.image root start (i + 1) := by
        rw [hcluster]
        rfl
      have hnext : tableEntry x.volume.image root x.currentCluster < 0xff7 := by
        rw [hbehind]
        exact hchain 1 (by omega)
      have hmoves := @fatReadTurn_moves root endOffset count x hroot hlt
      rcases fatReadTurn_counts hroot hpot hx hd hlt hnext with
        ⟨hat, hoffset, hcounted⟩
      have hstuck := countedBehind_stuck hlarge hx.offset hleft hpart
      rw [← hcounted] at hstuck
      rw [fatReadLoop_turn hd hlt]
      apply ih hat
      · rw [hmoves.1, hmoves.2]
        exact hbehind
      · intro j hj
        rw [hmoves.1, Nat.add_assoc, Nat.add_comm 1 j]
        exact hchain (j + 1) (by omega)
      · exact hstuck
      · left
        rw [hoffset]
        exact Nat.le_of_dvd (Nat.two_pow_pos _) hlarge
      · rw [BitVec.lt_def]
        omega
      · rw [hmoves.2]
        exact hnext

end Turns

/-!
# Whole reads
-/

/-- The chain of a file ends within some clusters. -/
def ChainEnds (image : Bytes) (root : FatGeometry) (start : Word) (n : Nat) :
    Prop :=
  exists k, k ≤ n ∧ 0xff7 ≤ chain image root start k

/-- The turns that a read should take at most. -/
def turnBound (root : FatGeometry) (position : Uint64) (count : Word) : Nat :=
  position.toNat / 2 ^ root.clusterPot.toNat + count.toNat + 1

def firstPart (root : FatGeometry) (position : Uint64) : Nat :=
  2 ^ root.clusterPot.toNat - position.toNat % 2 ^ root.clusterPot.toNat

/-- Every byte that is asked for is counted, however long the chain is. -/
def AllCounted (root : FatGeometry) (position : Uint64) (count : Word) : Prop :=
  position.toNat / 2 ^ root.clusterPot.toNat < 65536 ∧
    (2 ^ root.clusterPot.toNat < 4096 ∨ count.toNat < 4096 ∨
      firstPart root position < 4096 ∧
        count.toNat < 4096 + firstPart root position)

theorem clustered_of_run {params : Parameters} {root : FatGeometry}
    (hroot : parseParams params = .ok root) :
    Clustered root (2 ^ root.clusterPot.toNat) := by
  have hnear := near_of_parseParams hroot
  refine ⟨rfl, hnear.pot, ?_, hnear.rootEnd⟩
  have hlt := params.reservedSectors.isLt
  rw [(parseParams_eq hroot).1]
  omega

section Reads

variable {root : FatGeometry} {cluster : Nat} {v : Volume}
  {entryPosition position : Uint64} {count : Word} {buffer : Bytes}

theorem fatReadFileOn_eq (leftover : Bytes) (v : Volume)
    (entryPosition position : Uint64) (buffer : Bytes) (count : Word)
    (h : Clustered root cluster) :
    exists x endOffset,
      Starts cluster v.image (fileEntry v.image entryPosition) position x
        endOffset ∧
      forall turns,
        fatReadFileOn turns (Volume.calls leftover) root entryPosition position
            buffer count v =
          fatReadLoop root endOffset count turns x >>= fun y => .ok y.on := by
  rcases exists_starts v.image entryPosition position h with
    ⟨offset, whole, endOffset, rest, hshift, hend, hstarts⟩
  refine ⟨_, endOffset, hstarts buffer, ?_⟩
  intro turns
  have hend' : shr64 (init64 0 0 0 ((directoryEntry
      (splice (v.seek entryPosition).data 32 leftover)).size.extractLsb' 0 16))
        (root.clusterPot.setWidth 16) = .ok (endOffset, rest) := hend
  have hentry : readEntry (Volume.calls leftover) entryPosition v =
      .ok (directoryEntry (splice (v.seek entryPosition).data 32 leftover),
        (v.seek entryPosition).advance directoryEntrySize) := rfl
  have hloop : forall x : FatRead,
      whileLoop .hang (fatReadGoes count)
          (fatReadTurnOn (Volume.calls leftover) root endOffset count) turns x.on =
        fatReadLoop root endOffset count turns x >>= fun y => .ok y.on :=
    fun x => whileLoop_map FatRead.on (fun _ => rfl)
      (fun x => fatReadTurnOn_calls leftover x) turns x
  unfold fatReadFileOn
  rw [hshift, ok_bind]
  dsimp only
  rw [hentry, ok_bind]
  dsimp only
  rw [hend', ok_bind]
  exact hloop ⟨⟨v.image, add64 entryPosition (init64 0 0 0 directoryEntrySize)⟩,
    whole, offset, (fileEntry v.image entryPosition).clusterLo, 0, buffer⟩

theorem Starts.atPosition {entry : DirectoryEntry} {x y : FatRead}
    {endOffset : Word} (h : Clustered root cluster)
    (hx : Starts cluster v.image entry position x endOffset)
    (hleft : y.wholeClustersLeft.toNat = 0)
    (hoffset : y.clusterOffset.toNat = position.toNat % cluster) :
    AtPosition root endOffset y := by
  refine ⟨hleft, ?_, ?_⟩
  · rw [hoffset]
    exact h.mod_lt _
  · rw [hx.endOffset_eq]
    exact h.mod_lt _

theorem ends_of_chainEnds {entry : DirectoryEntry} {x : FatRead} {endOffset : Word}
    (h : Clustered root cluster) (hx : Starts cluster v.image entry position x endOffset)
    {n : Nat} (hchain : ChainEnds v.image root entry.clusterLo n) :
    exists y, fatReadLoop root endOffset count n x = .ok y := by
  rcases hchain with ⟨k, hk, hend⟩
  have hfuel : n = k + (n - k) := by omega
  rw [hfuel]
  have hcurrent : x.currentCluster = chain x.volume.image root entry.clusterLo 0 :=
    hx.current
  apply ends_with_chain h.fat hcurrent
  · rw [hx.image_eq, Nat.zero_add]
    exact hend

theorem ends_of_counted {entry : DirectoryEntry} {x : FatRead} {endOffset : Word}
    (h : Clustered root (2 ^ root.clusterPot.toNat))
    (hx : Starts (2 ^ root.clusterPot.toNat) v.image entry position x endOffset)
    (hcount : 0 < count.toNat) (hall : AllCounted root position count)
    (hchain : ¬ ChainEnds v.image root entry.clusterLo
      (turnBound root position count)) :
    exists y, fatReadLoop root endOffset count (turnBound root position count) x =
      .ok y := by
  rcases runs_to_position h hx hcount hall.1 (by
    intro j hj
    by_contra hge
    exact hchain ⟨j, by unfold turnBound; omega, BitVec.not_lt.mp hge⟩) with
    ⟨y, hpass, _, _, hoffset, hzero, hleft⟩
  have hat := hx.atPosition (y := { y with buffer := x.buffer }) h hleft hoffset
  have hbound : turnBound root position count =
      count.toNat + 1 + position.toNat / 2 ^ root.clusterPot.toNat := by
    unfold turnBound
    omega
  rw [hbound]
  change exists z, fatReadLoop root endOffset count _ { x with buffer := x.buffer } = _
  rw [hpass]
  rcases Nat.lt_or_ge (2 ^ root.clusterPot.toNat) 4096 with hsmall | hlarge
  · apply ends_of_small_clusters h.fat h.pot hsmall hat
    omega
  · have hturns : count.toNat + 1 = count.toNat - 1 + 2 := by omega
    rw [hturns]
    apply ends_of_few h.fat h.pot hat hlarge hzero
    rcases hall.2 with hsmall | hfew | hpart
    · omega
    · exact Or.inl hfew
    · right
      change 2 ^ root.clusterPot.toNat - y.clusterOffset.toNat < 4096 ∧
        count.toNat < 4096 + (2 ^ root.clusterPot.toNat - y.clusterOffset.toNat)
      rw [hoffset]
      exact hpart

/-- On a chain that goes on, a read whose bytes are not all counted goes on. -/
theorem goes_on {entry : DirectoryEntry} {x : FatRead} {endOffset : Word}
    (h : Clustered root (2 ^ root.clusterPot.toNat))
    (hx : Starts (2 ^ root.clusterPot.toNat) v.image entry position x endOffset)
    (hcount : 0 < count.toNat) (hall : ¬ AllCounted root position count)
    (hchain : ¬ ChainEnds v.image root entry.clusterLo
      (turnBound root position count)) :
    fatReadLoop root endOffset count (turnBound root position count) x =
      .error .hang := by
  have hlt : forall j, j ≤ turnBound root position count ->
      chain v.image root entry.clusterLo j < 0xff7 := by
    intro j hj
    by_contra hge
    exact hchain ⟨j, hj, BitVec.not_lt.mp hge⟩
  rcases Nat.lt_or_ge (position.toNat / 2 ^ root.clusterPot.toNat) 65536 with
    hlow | hhigh
  · rcases runs_to_position h hx hcount hlow (by
      intro j hj
      exact hlt j (by unfold turnBound; omega)) with
      ⟨y, hpass, himage, hcluster, hoffset, hzero, hleft⟩
    have hat := hx.atPosition (y := { y with buffer := x.buffer }) h hleft hoffset
    have hbound : turnBound root position count =
        count.toNat + 1 + position.toNat / 2 ^ root.clusterPot.toNat := by
      unfold turnBound
      omega
    have hrest : 4096 ≤ 2 ^ root.clusterPot.toNat ∧ 4096 ≤ count.toNat ∧
        (4096 ≤ firstPart root position ∨
          firstPart root position + 4096 ≤ count.toNat) := by
      unfold AllCounted at hall
      omega
    rcases hrest with ⟨hlarge, hmany, hpart⟩
    have hnone : y.completed.toNat = 0 := by
      rw [hzero]
      rfl
    have hdvd : 4096 ∣ 2 ^ root.clusterPot.toNat := by
      have hle : 12 ≤ root.clusterPot.toNat :=
        (Nat.pow_le_pow_iff_right (a := 2) (by decide)).mp hlarge
      exact Nat.pow_dvd_pow 2 hle
    unfold firstPart at hpart
    rw [← hoffset] at hpart
    rw [hbound]
    change fatReadLoop root endOffset count _ { x with buffer := x.buffer } = _
    rw [hpass]
    have hcluster' : y.currentCluster = chain y.volume.image root entry.clusterLo
        (position.toNat / 2 ^ root.clusterPot.toNat) := by
      rw [himage]
      exact hcluster
    apply reads_on h.fat h.pot hat hdvd hcluster'
    · intro j hj
      change chain y.volume.image root _ _ < 0xff7
      rw [himage]
      exact hlt _ (by omega)
    · change y.completed.toNat + 4096 ≤ count.toNat
      omega
    · change 4096 ≤ 2 ^ root.clusterPot.toNat - y.clusterOffset.toNat ∨
        2 ^ root.clusterPot.toNat - y.clusterOffset.toNat + 4096 ≤
          count.toNat - y.completed.toNat
      omega
  · have hd : x.completed < count := by
      rw [hx.completed]
      exact hcount
    have hwide : Uint64.High x.wholeClustersLeft := by
      apply high_of_le
      rw [hx.whole]
      exact hhigh
    rcases @passes root endOffset count x h.fat entry.clusterLo 0 hd hx.current
      (turnBound root position count)
      (by
        intro j hj
        rw [hx.image_eq, Nat.zero_add]
        exact hlt j (Nat.le_of_lt hj)) (Or.inl hwide) with
      ⟨y, hpass, hpassed, _, _⟩
    have hpass := hpass x.buffer 0
    rw [Nat.zero_add] at hpass
    change fatReadLoop root endOffset count _ x = _ at hpass
    rw [hpass]
    have hcluster := hpassed.cluster
    rw [hx.image_eq, Nat.zero_add] at hcluster
    unfold fatReadLoop whileLoop
    rw [if_pos]
    apply decide_eq_true
    refine ⟨?_, ?_⟩
    · change y.completed < count
      rw [hpassed.completed]
      exact hd
    · change y.currentCluster < 0xff7
      rw [hcluster]
      exact hlt _ (Nat.le_refl _)

/-- The loop of {lit}`fat_read_file` takes no more turns than it should, exactly
when nothing is asked for, the chain ends, or every byte is counted. -/
theorem read_ends_iff {params : Parameters} {root : FatGeometry}
    (hroot : parseParams params = .ok root) (leftover : Bytes) (v : Volume)
    (entryPosition position : Uint64) (buffer : Bytes) (count : Word) :
    (exists x, fatReadFileOn (turnBound root position count)
      (Volume.calls leftover) root entryPosition position buffer count v = .ok x) <->
    count.toNat = 0 ∨
      ChainEnds v.image root (fileEntry v.image entryPosition).clusterLo
        (turnBound root position count) ∨
      AllCounted root position count := by
  have h := clustered_of_run hroot
  rcases fatReadFileOn_eq leftover v entryPosition position buffer count h with
    ⟨x, endOffset, hx, hrun⟩
  have hok : (exists y, fatReadFileOn (turnBound root position count)
      (Volume.calls leftover) root entryPosition position buffer count v = .ok y) <->
      exists y, fatReadLoop root endOffset count (turnBound root position count) x =
        .ok y := by
    rw [hrun]
    constructor
    · rintro ⟨_, hy⟩
      rcases ok_bind_iff.mp hy with ⟨y, hloop, _⟩
      exact ⟨y, hloop⟩
    · rintro ⟨y, hloop⟩
      exact ⟨y.on, by rw [hloop, ok_bind]⟩
  rw [hok]
  rcases Nat.eq_zero_or_pos count.toNat with hnone | hcount
  · refine ⟨fun _ => Or.inl hnone, fun _ => ⟨x, fatReadLoop_done (Or.inl ?_)⟩⟩
    rw [BitVec.le_def, hnone]
    exact Nat.zero_le _
  · constructor
    · rintro ⟨y, hloop⟩
      by_contra hnot
      push Not at hnot
      rw [goes_on h hx hcount hnot.2.2 hnot.2.1] at hloop
      cases hloop
    · rintro (hzero | hends | hall)
      · omega
      · exact ends_of_chainEnds h hx hends
      · by_cases hends : ChainEnds v.image root
            (fileEntry v.image entryPosition).clusterLo (turnBound root position count)
        · exact ends_of_chainEnds h hx hends
        · exact ends_of_counted h hx hcount hall hends

end Reads

def zeroVolume : Volume :=
  ⟨fun _ => 0, init64 0 0 0 0⟩

theorem zeroVolume_chain (root : FatGeometry) (k : Nat) :
    chain zeroVolume.image root 0 k = 0 := by
  induction k with
  | zero => rfl
  | succ k ih =>
      unfold chain
      rw [ih]
      have hentry : entryOfWord 0 ((0 : Byte) ++ (0 : Byte)) = 0 := by
        decide
      exact hentry

theorem read_ends_small :
    (exists x, fatReadFileOn (turnBound bootRoot (Uint64.ofNat 700) 100)
      (Volume.calls fun _ => 0) bootRoot firstEntry (Uint64.ofNat 700) (fun _ => 0) 100
        zeroVolume = .ok x) <->
    (100 : Word).toNat = 0 ∨
      ChainEnds zeroVolume.image bootRoot
        (fileEntry zeroVolume.image firstEntry).clusterLo
        (turnBound bootRoot (Uint64.ofNat 700) 100) ∨
      AllCounted bootRoot (Uint64.ofNat 700) 100 :=
  read_ends_iff (rfl : parseParams bootParameters = .ok bootRoot) _ _ _ _ _ _

def largeClusters : Parameters :=
  { bootParameters with sectorsPerCluster := 8 }

def largeRoot : FatGeometry :=
  { bootRoot with clusterPot := 12 }

/-- A read of 4096 bytes along a chain without an end goes on for ever. -/
theorem read_of_cluster_goes_on :
    parseParams largeClusters = .ok largeRoot ∧
      forall turns, fatReadFileOn turns (Volume.calls fun _ => 0) largeRoot
        firstEntry (Uint64.ofNat 0) (fun _ => 0) 4096 zeroVolume = .error .hang := by
  have hparse : parseParams largeClusters = .ok largeRoot := rfl
  refine ⟨hparse, ?_⟩
  intro turns
  have h : Clustered largeRoot 4096 := clustered_of_run hparse
  rcases fatReadFileOn_eq (fun _ => 0) zeroVolume firstEntry (Uint64.ofNat 0)
    (fun _ => 0) 4096 h with ⟨x, endOffset, hx, hrun⟩
  have hat : AtPosition largeRoot endOffset x :=
    hx.atPosition (y := x) h (by rw [hx.whole]; decide) hx.offset
  have hzero : x.clusterOffset.toNat = 0 := by
    rw [hx.offset]
    decide
  have hnone : x.completed.toNat = 0 := by
    rw [hx.completed]
    rfl
  have hloop : fatReadLoop largeRoot endOffset 4096 turns x = .error .hang := by
    have hcurrent : x.currentCluster = chain x.volume.image largeRoot 0 0 :=
      hx.current
    apply reads_on h.fat h.pot hat (by decide) hcurrent
    · intro j _
      rw [hx.image_eq, zeroVolume_chain]
      decide
    · rw [hnone]
      decide
    · left
      rw [hzero]
      decide
  rw [hrun, hloop]
  rfl

end Fs
end Rmmtos
