import Rmmtos.Fs.File

/-!
# Volumes that are read in full

On a volume whose reads put all their bytes in the buffer the driver does what
{lit}`fatReadFile` says.
-/

namespace Rmmtos
namespace Fs

open Library Kernel

def Volume.calls (leftover : Bytes) : VolumeCalls Volume where
  seek position v := v.seek position
  read buffer size v := .ok (size, splice v.data size.toNat buffer, v.advance size)
  leftover v := (leftover, v)

def FatRead.on (x : FatRead) : FatReadOn Volume where
  state := x.volume
  wholeClustersLeft := x.wholeClustersLeft
  clusterOffset := x.clusterOffset
  currentCluster := x.currentCluster
  completed := x.completed
  buffer := x.buffer

section Volumes

variable {root : FatGeometry} {endOffset count : Word}

theorem readNextCluster_calls (leftover : Bytes) (root : FatGeometry)
    (currentCluster : Word) (v : Volume) :
    readNextCluster (Volume.calls leftover) root currentCluster v =
      .ok (nextCluster root v currentCluster) := rfl

theorem readPart_calls (leftover : Bytes) (next size : Word) (x : FatRead)
    (v : Volume) :
    readPart (Volume.calls leftover) root next size x.on v =
      .ok (FatRead.on {
        volume := (v.seek (add64_16 (clusterPosition root x.currentCluster)
          x.clusterOffset)).advance size
        wholeClustersLeft := x.wholeClustersLeft
        clusterOffset := 0
        currentCluster := next
        completed := x.completed + (size &&& fileIoResultSizeMask)
        buffer := writeRun (fun i => x.completed.toNat + i)
          (v.seek (add64_16 (clusterPosition root x.currentCluster)
            x.clusterOffset)).data size.toNat x.buffer }) := by
  rw [← splice_eq_writeRun]
  rfl

theorem fatReadTurnOn_calls (leftover : Bytes) (x : FatRead) :
    fatReadTurnOn (Volume.calls leftover) root endOffset count x.on =
      .ok (fatReadTurn root endOffset count x).on := by
  unfold fatReadTurnOn
  change (readNextCluster (Volume.calls leftover) root x.currentCluster x.volume >>=
    _) = _
  rw [readNextCluster_calls, ok_bind]
  rcases Decidable.em (cmp64_16 x.wholeClustersLeft 0 ≠ 0) with hpass | hread
  · have hx : fatReadTurn root endOffset count x = _ := if_pos hpass
    rw [hx]
    exact if_pos hpass
  · have hx : fatReadTurn root endOffset count x = _ := if_neg hread
    rw [hx]
    exact (if_neg hread).trans (readPart_calls leftover _ _ x _)

/-- The reads of {lit}`fatReadFile` are those of the driver on such a volume. -/
theorem fatReadFile_calls (leftover : Bytes) (v : Volume)
    (entryPosition position : Uint64) (buffer : Bytes) :
    fatReadFile root v entryPosition position buffer count =
      fatReadFileOn fatReadStates (Volume.calls leftover) root entryPosition
        position buffer count v >>= fun x =>
          .ok ⟨x.completed, add64_16 position x.completed, x.state, x.buffer⟩ := by
  have hentry : readEntry (Volume.calls leftover) entryPosition v =
      .ok (directoryEntry (splice (v.seek entryPosition).data 32 leftover),
        (v.seek entryPosition).advance directoryEntrySize) := rfl
  have hloop : forall endOffset (x : FatRead),
      whileLoop .hang (fatReadGoes count)
          (fatReadTurnOn (Volume.calls leftover) root endOffset count)
          fatReadStates x.on =
        whileLoop .hang
          (fun x => decide (x.completed < count ∧ x.currentCluster < 0xff7))
          (fun x => .ok (fatReadTurn root endOffset count x)) fatReadStates x >>=
            fun x => .ok x.on :=
    fun endOffset x => whileLoop_map FatRead.on (fun _ => rfl)
      (fun x => fatReadTurnOn_calls leftover x) fatReadStates x
  unfold fatReadFile fatReadFileOn
  rw [hentry]
  cases shr64 position (root.clusterPot.setWidth 16) with
  | error e => rfl
  | ok offset =>
      simp only [ok_bind]
      change (shr64 (init64 0 0 0 ((directoryEntry (v.seek entryPosition).data
        ).size.extractLsb' 0 16)) (root.clusterPot.setWidth 16) >>= _) =
          (shr64 (init64 0 0 0 ((directoryEntry (v.seek entryPosition).data
            ).size.extractLsb' 0 16)) (root.clusterPot.setWidth 16) >>= _) >>= _
      cases shr64 (init64 0 0 0 ((directoryEntry (v.seek entryPosition).data
          ).size.extractLsb' 0 16)) (root.clusterPot.setWidth 16) with
      | error e => rfl
      | ok ends =>
          simp only [ok_bind]
          have hrun := hloop ends.1 ⟨(v.seek entryPosition).advance
            directoryEntrySize, offset.2, offset.1,
            (directoryEntry (v.seek entryPosition).data).clusterLo, 0, buffer⟩
          change _ = whileLoop .hang (fatReadGoes count)
            (fatReadTurnOn (Volume.calls leftover) root ends.1 count) fatReadStates
            (FatRead.on ⟨(v.seek entryPosition).advance directoryEntrySize, offset.2,
              offset.1, (directoryEntry (v.seek entryPosition).data).clusterLo, 0,
              buffer⟩) >>= _
          rw [hrun]
          generalize (⟨(v.seek entryPosition).advance directoryEntrySize, offset.2,
            offset.1, (directoryEntry (v.seek entryPosition).data).clusterLo, 0,
            buffer⟩ : FatRead) = x
          cases whileLoop Stop.hang
              (fun x => decide (x.completed < count ∧ x.currentCluster < 0xff7))
              (fun x => .ok (fatReadTurn root ends.1 count x)) fatReadStates x with
          | error e => rfl
          | ok y => rfl

end Volumes

end Fs
end Rmmtos
