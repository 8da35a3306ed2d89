import Rmmtos.Kernel.Malloc
import Rmmtos.Kernel.Uint64

/-!
# Block files

{lit}`blockfile_read` of {lit}`fs/block.c`: the range that is read is split at
the borders of blocks, and a block comes from the cache or from the device.
The caller's buffer is memory of its own.
-/

namespace Rmmtos
namespace Fs

open Library Kernel

/-- A {lit}`struct BlockFile` and its device: {lit}`ops->read`, where there is
one, copies the bytes of a block. -/
structure BlockFile where
  blockSizeExponent : Word
  read : Option (Uint64 -> Nat -> Byte)
  /-- The shifts by the exponent are defined. -/
  small : blockSizeExponent.toNat < 16

structure CachedBlock where
  block : Uint64
  blockFile : Word
  buffer : Word
deriving DecidableEq, Repr

def cachedBlocks : Nat := 2

structure BlockState where
  heap : Heap
  mem : Mem
  cachedBlock : Fin cachedBlocks -> CachedBlock

def emptyCache : Fin cachedBlocks -> CachedBlock :=
  fun _ => ⟨init64 0 0 0 0, 0, 0⟩

def BlockFile.offsetMask (f : BlockFile) : Word :=
  ~~~((0xffff : Word) <<< f.blockSizeExponent.toNat)

def BlockFile.blockSize (f : BlockFile) : Word :=
  (1 : Word) <<< f.blockSizeExponent.toNat

/-!
# The cache
-/

/-- The first slot that has a property; without one the search ends at
{lit}`CACHED_BLOCKS`. -/
def findSlot (p : Fin cachedBlocks -> Bool) : Option (Fin cachedBlocks) :=
  (List.finRange cachedBlocks).find? p

def usedSlot (s : BlockState) (blockFile : Word) (block : Uint64) :
    Option (Fin cachedBlocks) :=
  findSlot fun i => (s.cachedBlock i).blockFile == blockFile &&
    cmp64 block (s.cachedBlock i).block == 0

def freeSlot (s : BlockState) : Option (Fin cachedBlocks) :=
  findSlot fun i => (s.cachedBlock i).buffer == 0

def readInto (read : Uint64 -> Nat -> Byte) (f : BlockFile) (tmp : Word)
    (block : Uint64) (m : Mem) : Mem :=
  writeRun (fun i => linear kernelSegment (offsetFrom tmp i)) (read block)
    f.blockSize.toNat m

/-- Point {lit}`tmp` to a block: to the slot it is found in, or else to what it
has pointed to before, or else to a new block. -/
def fetchBlock (read : Uint64 -> Nat -> Byte) (f : BlockFile) (blockFile : Word)
    (s : BlockState) (block : Uint64) (tmp : Word) :
    Result (Word × Option (Fin cachedBlocks) × BlockState) :=
  let bufferUsed := usedSlot s blockFile block
  let tmp :=
    match bufferUsed with
    | some i => (s.cachedBlock i).buffer
    | none => tmp
  if tmp = 0 then
    malloc s.heap f.blockSize >>= fun x =>
      .ok (x.1, bufferUsed,
        { s with heap := x.2, mem := readInto read f x.1 block s.mem })
  else .ok (tmp, bufferUsed, s)

/-- Put a block that was not found into the cache, where there is room. -/
def putBlock (blockFile : Word) (block : Uint64)
    (x : Word × Option (Fin cachedBlocks) × BlockState) :
    Option (Fin cachedBlocks) × BlockState :=
  match x.2.1 with
  | some i => (some i, x.2.2)
  | none =>
      match freeSlot x.2.2 with
      | some i => (some i, { x.2.2 with
          cachedBlock := Function.update x.2.2.cachedBlock i
            ⟨block, blockFile, x.1⟩ })
      | none => (none, x.2.2)

/-!
# Reading
-/

/-- The state of {lit}`blockfile_read` at its loop. -/
structure BlockRead where
  state : BlockState
  position : Uint64
  block : Uint64
  done : Word
  tmp : Word
  bufferUsed : Option (Fin cachedBlocks)
  buffer : Nat -> Byte

/-- The part of a block that is copied: where it begins, and its size. -/
def blockPart (f : BlockFile) (beginBlock endBlock : Uint64) (size : Word)
    (x : BlockRead) : Word × Word :=
  let partBegin :=
    if cmp64 x.block beginBlock = 0 then x.position.i0 &&& f.offsetMask else 0
  (partBegin,
    if cmp64 x.block endBlock = 0 then size - x.done
    else f.blockSize - partBegin)

/-- The state after a turn that found {lit}`tmp`. -/
def copyPart (blockFile : Word) (x : BlockRead) (part : Word × Word)
    (fetched : Word × Option (Fin cachedBlocks) × BlockState) : BlockRead :=
  let put := putBlock blockFile x.block fetched
  { state := put.2
    position := add64 x.position (init64 0 0 0 part.2)
    block := inc64 x.block
    done := x.done + part.2
    tmp := fetched.1
    bufferUsed := put.1
    buffer := writeRun (fun i => x.done.toNat + i)
      (fun i => peek fetched.2.2.mem kernelSegment
        (offsetFrom (fetched.1 + part.1) i)) part.2.toNat x.buffer }

def blockReadTurn (read : Uint64 -> Nat -> Byte) (f : BlockFile)
    (blockFile : Word) (beginBlock endBlock : Uint64) (size : Word)
    (x : BlockRead) : Result BlockRead :=
  fetchBlock read f blockFile x.state x.block x.tmp >>= fun fetched =>
    .ok (copyPart blockFile x (blockPart f beginBlock endBlock size x) fetched)

/-- More turns than a size has blocks. -/
def blockReadTurns : Nat := 2 * wordCount

structure BlockReadResult where
  size : Word
  state : BlockState
  position : Uint64
  buffer : Nat -> Byte

/-- Free a block that did not get into the cache. -/
def dropBlock (x : BlockRead) : Result BlockState :=
  if x.tmp ≠ 0 ∧ x.bufferUsed = none then
    free x.state.heap x.tmp >>= fun heap => .ok { x.state with heap := heap }
  else .ok x.state

/-- {lit}`malloc` panics where it has no block, so {lit}`tmp` is not null after
it and the loop is not left early. -/
def blockfileRead (f : BlockFile) (blockFile : Word) (s : BlockState)
    (position : Uint64) (buffer : Nat -> Byte) (size : Word) :
    Result BlockReadResult :=
  match f.read with
  | none => .ok ⟨0, s, position, buffer⟩
  | some read => do
      let (_, beginBlock) ← shr64 position f.blockSizeExponent
      let (_, endBlock) ←
        shr64 (add64 position (init64 0 0 0 (size - 1))) f.blockSizeExponent
      let x ← whileLoop .hang
        (fun x => decide (cmp64 x.block endBlock ≤ 0 ∧ x.done < size))
        (blockReadTurn read f blockFile beginBlock endBlock size) blockReadTurns
        ⟨s, position, beginBlock, 0, 0, none, buffer⟩
      let s ← dropBlock x
      .ok ⟨size, s, x.position, x.buffer⟩

end Fs
end Rmmtos
