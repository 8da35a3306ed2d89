import Rmmtos.Machine
import Rmmtos.Library.Bitmap
import Rmmtos.Library.Zones

/-!
# The kernel heap

The allocator of {lit}`kernel/malloc.c`: the pool is cut into six zones of
blocks of one size each, and a bitmap keeps which blocks are taken.
-/

namespace Rmmtos
namespace Kernel

open Library

structure SizeBlock where
  size : Word
  count : Word
  expand : Word
deriving DecidableEq, Repr

def kernelStackWords : Nat := 2048

def kernelStackBytes : Word := 4096

/-- The static table {lit}`zones`. -/
def zones : List SizeBlock :=
  [⟨4, 0, 1⟩, ⟨8, 0, 1⟩, ⟨18, 0, 3⟩, ⟨38, 0, 1⟩, ⟨512, 8, 0⟩,
    ⟨kernelStackBytes, 5, 0⟩]

def bitmapSize : Nat := 1000

structure Heap where
  usedBytes : Word
  totalBytes : Word
  totalBlocks : Word
  poolStart : Word
  zones : List SizeBlock
  bitmap : Nat -> Byte

/-- The allocator's static data before {lit}`malloc_init`. -/
def Heap.boot : Heap where
  usedBytes := 0
  totalBytes := 0
  totalBlocks := 0
  poolStart := 0
  zones := Kernel.zones
  bitmap := fun _ => 0

/-!
# Allocation
-/

/-- Pass the leading zones whose blocks are too small. -/
def skipZones (size : Word) : List SizeBlock -> Word -> Word
  | [], currentBlock => currentBlock
  | zone :: rest, currentBlock =>
      if zone.size < size then
        skipZones size rest (currentBlock + zone.count)
      else currentBlock

/-- Move to the first block of the next byte while the byte is full. -/
def scanBytes (h : Heap) (currentBlock : Word) : Result Word :=
  whileLoop .hang
    (fun b => h.bitmap (b.toNat / 8) == 0xff#8 && decide (b < h.totalBlocks))
    (fun b => .ok ((b + 8) &&& ~~~7))
    wordCount currentBlock

def scanBits (h : Heap) (currentBlock : Word) : Result Word :=
  whileLoop .hang
    (fun b => decide (b < h.totalBlocks) &&
      h.bitmap (b.toNat / 8) &&& byteMask (b.toNat % 8) != 0)
    (fun b => .ok (b + 1))
    wordCount currentBlock

/-- The address of a block and the size of its zone; the search never runs
past the last zone for a block below {lit}`total_blocks`. -/
def blockAddress : List SizeBlock -> Word -> Word -> Word -> Word × Word
  | [], _, _, address => (address, 0)
  | zone :: rest, j, currentBlock, address =>
      if j + zone.count ≤ currentBlock then
        blockAddress rest (j + zone.count) currentBlock
          (address + zone.count * zone.size)
      else (address + zone.size * (currentBlock - j), zone.size)

def malloc (h : Heap) (size : Word) : Result (Word × Heap) := do
  let currentBlock ← scanBytes h (skipZones size h.zones 0)
  let currentBlock ← scanBits h currentBlock
  if currentBlock < h.totalBlocks then
    let (address, zoneSize) :=
      blockAddress h.zones 0 currentBlock h.poolStart
    .ok (address, { h with
      bitmap := setBit h.bitmap currentBlock.toNat
      usedBytes := h.usedBytes + zoneSize })
  else panic .outOfMem

/-!
# Release
-/

/-- The zone of an offset, with the offset inside the zone and the number of
the zone's first block. -/
def offsetZone :
    List SizeBlock -> Word -> Word -> Option (Word × Word × SizeBlock)
  | [], _, _ => none
  | zone :: rest, address, currentBlock =>
      if zone.count * zone.size ≤ address then
        offsetZone rest (address - zone.count * zone.size)
          (currentBlock + zone.count)
      else some (address, currentBlock, zone)

def free (h : Heap) (block : Word) : Result Heap :=
  match offsetZone h.zones (block - h.poolStart) 0 with
  | none => panic .invalidFree
  | some (address, firstBlock, zone) =>
      let currentBlock := firstBlock + address / zone.size
      .ok { h with
        bitmap := flipBit h.bitmap currentBlock.toNat
        usedBytes := h.usedBytes - zone.size }

/-!
# Start-up
-/

def allocatedSize (zs : List SizeBlock) : Word :=
  zs.foldl (fun n z => n + z.size * z.count) 0

def firstPhaseIncrement (zs : List SizeBlock) : Word :=
  zs.foldl (fun n z => n + z.size * z.expand) 0

def SizeBlock.grow (z : SizeBlock) : SizeBlock :=
  { z with count := z.count + z.expand }

def growFirst : List SizeBlock -> List SizeBlock
  | [] => []
  | z :: zs => { z with count := z.count + 1 } :: zs

def firstSize : List SizeBlock -> Word
  | [] => 0
  | z :: _ => z.size

/-- Give every zone its share while a whole round fits. -/
def firstPhase (poolSize : Word) (zs : List SizeBlock) (allocated : Word) :
    Result (List SizeBlock × Word) :=
  let increment := firstPhaseIncrement zs
  whileLoop .hang
    (fun s => decide (s.2 + increment ≤ poolSize))
    (fun s => .ok (s.1.map SizeBlock.grow, s.2 + increment))
    wordCount (zs, allocated)

/-- Give the rest to the first zone. -/
def secondPhase (poolSize : Word) (zs : List SizeBlock) (allocated : Word) :
    Result (List SizeBlock × Word) :=
  whileLoop .hang
    (fun s => decide (s.2 + firstSize s.1 ≤ poolSize))
    (fun s => .ok (growFirst s.1, s.2 + firstSize s.1))
    wordCount (zs, allocated)

def mallocInit (h : Heap) (start finish : Word) : Result Heap := do
  let poolSize := finish - start
  let (zs, allocated) ← firstPhase poolSize h.zones (allocatedSize h.zones)
  let (zs, allocated) ← secondPhase poolSize zs allocated
  let totalBlocks := zs.foldl (fun n z => n + z.count) 0
  if BitVec.ofNat 16 (bitmapSize * 8) < totalBlocks then
    panic .mallocBitmap
  else
    .ok {
      usedBytes := 0
      totalBytes := allocated
      totalBlocks := totalBlocks
      poolStart := start
      zones := zs
      bitmap := fun i => if i < bitmapSize then 0 else h.bitmap i }

end Kernel
end Rmmtos
