import Rmmtos.Kernel.Uint64
import Rmmtos.Library.Loop
import Rmmtos.Library.Store

/-!
# The FAT driver

The data of {lit}`fs/fat/fat.c`, the geometry of a volume, and the reading of a
file along its chain of clusters.  The volume is read through a handle of its
own, which keeps the position.
-/

namespace Rmmtos
namespace Fs

open Library Kernel

abbrev Bytes := Nat -> Byte

def wordAt (bytes : Bytes) (i : Nat) : Word :=
  bytes (i + 1) ++ bytes i

def longAt (bytes : Bytes) (i : Nat) : BitVec 32 :=
  wordAt bytes (i + 2) ++ wordAt bytes i

/-!
# The volume
-/

/-- The bytes of a volume and the position of the handle on it. -/
structure Volume where
  image : Bytes
  position : Uint64

def Volume.seek (v : Volume) (position : Uint64) : Volume :=
  { v with position := position }

def Volume.data (v : Volume) : Bytes :=
  fun i => v.image ((v.position.toNat + i) % 2 ^ 64)

/-- {lit}`file_read` on the handle of the volume moves the position and
returns the size. -/
def Volume.advance (v : Volume) (size : Word) : Volume :=
  { v with position := add64 v.position (init64 0 0 0 size) }

/-!
# Geometry
-/

structure Parameters where
  bytesPerSector : Word
  sectorsPerCluster : Byte
  reservedSectors : Word
  fats : Byte
  rootEntries : Word
  sectorsPerFat : Word
  hiddenSectors : BitVec 32
  totalSectors : BitVec 32
deriving DecidableEq, Repr

structure FatGeometry where
  rootBegin : Uint64
  rootEnd : Uint64
  fatBegin : Uint64
  clusterPot : Byte
deriving DecidableEq, Repr

/-- What is copied from the first sector of a volume. -/
def parametersOf (mbr : Bytes) : Parameters where
  bytesPerSector := wordAt mbr 11
  sectorsPerCluster := mbr 13
  reservedSectors := wordAt mbr 14
  fats := mbr 16
  rootEntries := wordAt mbr 17
  sectorsPerFat := wordAt mbr 22
  hiddenSectors := longAt mbr 28
  totalSectors := longAt mbr 32

theorem parametersOf_congr {mbr mbr' : Bytes} (h : forall i, i < 36 -> mbr i = mbr' i) :
    parametersOf mbr = parametersOf mbr' := by
  have hword : forall i, i + 1 < 36 -> wordAt mbr i = wordAt mbr' i := by
    intro i hi
    unfold wordAt
    rw [h i (Nat.lt_of_succ_lt hi), h (i + 1) hi]
  have hlong : forall i, i + 3 < 36 -> longAt mbr i = longAt mbr' i := by
    intro i hi
    unfold longAt
    rw [hword i (by omega), hword (i + 2) (by omega)]
  unfold parametersOf
  rw [hword 11 (by decide), hword 14 (by decide), hword 17 (by decide),
    hword 22 (by decide), hlong 28 (by decide), hlong 32 (by decide),
    h 13 (by decide), h 16 (by decide)]

/-- The shifts until a number is odd; zero never is. -/
def countPot (bytesPerCluster : Word) : Result (Byte × Word) :=
  whileLoop .hang
    (fun x => x.2 &&& 1 == 0)
    (fun x => .ok (x.1 + 1, x.2 >>> 1))
    wordCount (0, bytesPerCluster)

def parseParams (params : Parameters) : Result FatGeometry :=
  let bytesPerCluster :=
    params.sectorsPerCluster.setWidth 16 * params.bytesPerSector
  countPot bytesPerCluster >>= fun x =>
    let rootBegin := shl64 (init64 0 0 0 (params.reservedSectors +
      params.fats.setWidth 16 * params.sectorsPerFat)) 9
    divideWords (params.rootEntries * 32 + params.bytesPerSector - 1)
      params.bytesPerSector >>= fun sectors =>
        .ok {
          rootBegin := rootBegin
          rootEnd := add64_16 rootBegin (sectors * params.bytesPerSector)
          fatBegin := shl64 (init64 0 0 0 params.reservedSectors) 9
          clusterPot := x.1 }

/-!
# Directory entries
-/

structure DirectoryEntry where
  name : Bytes
  attributes : Byte
  clusterLo : Word
  size : BitVec 32

def directoryEntrySize : Word := 32

def directoryEntry (bytes : Bytes) : DirectoryEntry where
  name := bytes
  attributes := bytes 11
  clusterLo := wordAt bytes 26
  size := longAt bytes 28

def flagVolume : Byte := 0x04

/-!
# Chains of clusters
-/

/-- The place of the two bytes that hold an entry of the allocation table. -/
def fatPosition (root : FatGeometry) (currentCluster : Word) : Uint64 :=
  add64 (init64 0 0 0 (currentCluster + currentCluster / 2)) root.fatBegin

/-- The cluster behind another one, from the two bytes read for it. -/
def clusterBehind (currentCluster entry : Word) : Word :=
  if currentCluster % 2 ≠ 0 then entry >>> 4 else entry &&& 0x0fff

/-- The cluster behind another one in its chain. -/
def nextCluster (root : FatGeometry) (v : Volume) (currentCluster : Word) :
    Word × Volume :=
  let v := v.seek (fatPosition root currentCluster)
  (clusterBehind currentCluster (wordAt v.data 0), v.advance 2)

def clusterPosition (root : FatGeometry) (currentCluster : Word) : Uint64 :=
  add64 (shl64 (init64 0 0 0 (currentCluster - 2))
    (root.clusterPot.setWidth 16)) root.rootEnd

/-!
# Reading a file
-/

def fileIoResultSizeMask : Word := 0x0fff

def fileIoResultStatusMask : Word := 0xf000

/-- The state of {lit}`fat_read_file` at its loop. -/
structure FatRead where
  volume : Volume
  wholeClustersLeft : Uint64
  clusterOffset : Word
  currentCluster : Word
  completed : Word
  buffer : Bytes

/-- The size of the part that is read of a cluster. -/
def partSize (root : FatGeometry) (endOffset count clusterOffset completed
    nextCluster : Word) : Word :=
  let size := (1 : Word) <<< root.clusterPot.toNat - clusterOffset
  let size :=
    if 0xff8 ≤ nextCluster ∧ endOffset < clusterOffset + size then
      endOffset - clusterOffset
    else size
  if count - completed < size then count - completed else size

def clusterPart (root : FatGeometry) (endOffset count : Word) (x : FatRead)
    (nextCluster : Word) : Word :=
  partSize root endOffset count x.clusterOffset x.completed nextCluster

/-- One turn of the loop: pass a whole cluster, or read a part of one. -/
def fatReadTurn (root : FatGeometry) (endOffset count : Word) (x : FatRead) :
    FatRead :=
  let (nextCluster, v) := nextCluster root x.volume x.currentCluster
  if cmp64_16 x.wholeClustersLeft 0 ≠ 0 then
    { x with
      volume := v
      wholeClustersLeft := dec64 x.wholeClustersLeft
      currentCluster := nextCluster }
  else
    let size := clusterPart root endOffset count x nextCluster
    let v := v.seek
      (add64_16 (clusterPosition root x.currentCluster) x.clusterOffset)
    { volume := v.advance size
      wholeClustersLeft := x.wholeClustersLeft
      clusterOffset := 0
      currentCluster := nextCluster
      completed := x.completed + (size &&& fileIoResultSizeMask)
      buffer := writeRun (fun i => x.completed.toNat + i) v.data size.toNat
        x.buffer }

/-- The number of states that the loop can be in; past it the loop has come
back to a state it has been in. -/
def fatReadStates : Nat := 2 ^ 112

structure FatReadResult where
  completed : Word
  position : Uint64
  volume : Volume
  buffer : Bytes

def fatReadFile (root : FatGeometry) (v : Volume) (entryPosition : Uint64)
    (position : Uint64) (buffer : Bytes) (count : Word) :
    Result FatReadResult := do
  let (clusterOffset, wholeClustersLeft) ←
    shr64 position (root.clusterPot.setWidth 16)
  let v := v.seek entryPosition
  let entry := directoryEntry v.data
  let v := v.advance directoryEntrySize
  let (endOffset, _) ←
    shr64 (init64 0 0 0 (entry.size.extractLsb' 0 16))
      (root.clusterPot.setWidth 16)
  let x ← whileLoop .hang
    (fun x => decide (x.completed < count ∧ x.currentCluster < 0xff7))
    (fun x => .ok (fatReadTurn root endOffset count x))
    fatReadStates
    ⟨v, wholeClustersLeft, clusterOffset, entry.clusterLo, 0, buffer⟩
  .ok ⟨x.completed, add64_16 position x.completed, x.volume, x.buffer⟩

end Fs
end Rmmtos
