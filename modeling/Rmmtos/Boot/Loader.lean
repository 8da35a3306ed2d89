import Rmmtos.Memory

/-!
# The boot loader

The parts of {lit}`boot/boot.s` that find the clusters of a file: the geometry
it declares, the reading of sectors, and the next cluster of a chain.
-/

namespace Rmmtos
namespace Boot

open Library

/-!
# Geometry
-/

def bytesPerSector : Word := 512

def sectorsPerCluster : Byte := 1

def reservedSectorCount : Word := 1

def sectorsPerFat : Word := 9

def sectorsPerTrack : Word := 18

def headCount : Word := 2

def fatCount : Byte := 2

def rootEntryCount : Word := 224

def rootDirSectorCount : Word :=
  (rootEntryCount * 32 + bytesPerSector - 1) / bytesPerSector

def fatSectorCount : Word := fatCount.setWidth 16 * sectorsPerFat

def clustersStart : Word :=
  reservedSectorCount + fatSectorCount + rootDirSectorCount - 2

def bootSegment : Word := 0x07c0

/-- {lit}`fat`, the place of the allocation table behind the boot sector. -/
def fat : Word := 0x200

/-!
# Sectors
-/

abbrev Disk := Nat -> Byte

/-- The sector that the BIOS finds at a cylinder, head and sector number. -/
def biosSector (ch dh cl : Byte) : Nat :=
  (ch.toNat * headCount.toNat + dh.toNat) * sectorsPerTrack.toNat +
    (cl.toNat - 1)

/-- Service 2 of interrupt 13h: read sectors to a buffer. -/
def biosRead (disk : Disk) (m : Mem) (al ch dh cl : Byte) (es bx : Word) :
    Mem :=
  writeRun (fun i => linear es (offsetFrom bx i))
    (fun i => disk (512 * biosSector ch dh cl + i)) (512 * al.toNat) m

def readBlocks (disk : Disk) (m : Mem) (ax es bx cx : Word) : Mem :=
  let cl := (ax % sectorsPerTrack).setWidth 8 + 1
  let ax := ax / sectorsPerTrack
  let dh := (ax % headCount).setWidth 8
  let ch := (ax / headCount).setWidth 8
  biosRead disk m (cx.setWidth 8) ch dh cl es bx

def fatRead (disk : Disk) (m : Mem) : Mem :=
  readBlocks disk m reservedSectorCount bootSegment fat sectorsPerFat

/-!
# Clusters
-/

def clusterLba (ax : Word) : Word :=
  ax + clustersStart

/-- {lit}`.next_cluster`: the high word of the product is cleared before the
division. -/
def nextCluster (m : Mem) (ax : Word) : Word :=
  let ax := ax * 3
  let dx := ax % 2
  let bx := ax / 2 + fat
  let ax := peekw m bootSegment bx
  if dx = 0 then ax &&& 0x0fff else ax >>> 4

/-!
# What was read
-/

theorem biosSector_readBlocks {ax : Word} (h : ax.toNat < 9216) :
    biosSector ((ax / sectorsPerTrack / headCount).setWidth 8)
      ((ax / sectorsPerTrack % headCount).setWidth 8)
      ((ax % sectorsPerTrack).setWidth 8 + 1) = ax.toNat := by
  have htrack : sectorsPerTrack.toNat = 18 := rfl
  have hheads : headCount.toNat = 2 := rfl
  have hone : (1 : Byte).toNat = 1 := rfl
  unfold biosSector
  simp only [BitVec.toNat_add, BitVec.toNat_setWidth, BitVec.toNat_udiv,
    BitVec.toNat_umod, htrack, hheads, hone]
  omega

theorem readBlocks_at {disk : Disk} {m : Mem} {ax es bx cx : Word}
    (hblock : ax.toNat < 9216) (hcount : cx.toNat < 128) {i : Nat}
    (hi : i < 512 * cx.toNat) :
    readBlocks disk m ax es bx cx (linear es (offsetFrom bx i)) =
      disk (512 * ax.toNat + i) := by
  have hal : (cx.setWidth 8).toNat = cx.toNat := by
    rw [BitVec.toNat_setWidth]
    omega
  have hinj : forall i j, i < 512 * cx.toNat -> j < 512 * cx.toNat ->
      linear es (offsetFrom bx i) = linear es (offsetFrom bx j) -> i = j := by
    intro i j hi hj h
    have hwords : wordCount = 65536 := rfl
    exact offsetFrom_injective (by omega) (by omega) (linear_injective h)
  unfold readBlocks biosRead
  rw [hal, biosSector_readBlocks hblock]
  exact writeRun_at hinj hi

end Boot
end Rmmtos
