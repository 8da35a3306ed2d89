import Rmmtos.Char.Keyb
import Rmmtos.Fs.Block
import Rmmtos.Fs.Vfs
import Rmmtos.Kernel.HandleTable

/-!
# Reading files

{lit}`file_read` calls the read operation of a file: that of a block device, of
a file on a FAT volume or of the keyboard.  A FAT volume is itself read through
a handle on a file, so a read of a file may read another one on the way.  A
caller's buffer is memory of its own.
-/

namespace Rmmtos
namespace Fs

open Library Kernel

/-!
# The FAT driver on any file

The driver moves the handle of its volume with {lit}`file_seek` and reads from
it with {lit}`file_read`, which may fail, fill a buffer in part and return any
number.
-/

/-- The calls that {lit}`fat_read_file` makes, and what it finds in the place
of a variable of its own. -/
structure VolumeCalls (σ : Type) where
  seek : Uint64 -> σ -> σ
  read : Bytes -> Word -> σ -> Result (Word × Bytes × σ)
  leftover : σ -> Bytes × σ

structure FatReadOn (σ : Type) where
  state : σ
  wholeClustersLeft : Uint64
  clusterOffset : Word
  currentCluster : Word
  completed : Word
  buffer : Bytes

section FatReads

variable {σ : Type}

def readNextCluster (calls : VolumeCalls σ) (root : FatGeometry)
    (currentCluster : Word) (s : σ) : Result (Word × σ) :=
  let found := calls.leftover s
  calls.read found.1 2
    (calls.seek (fatPosition root currentCluster) found.2) >>= fun r =>
      .ok (clusterBehind currentCluster (wordAt r.2.1 0), r.2.2)

def readPart (calls : VolumeCalls σ) (root : FatGeometry)
    (nextCluster size : Word) (x : FatReadOn σ) (s : σ) :
    Result (FatReadOn σ) :=
  let s := calls.seek
    (add64_16 (clusterPosition root x.currentCluster) x.clusterOffset) s
  calls.read (fun i => x.buffer (x.completed.toNat + i)) size s >>= fun r =>
    .ok {
      state := r.2.2
      wholeClustersLeft := x.wholeClustersLeft
      clusterOffset := 0
      currentCluster := nextCluster
      completed := x.completed + (r.1 &&& fileIoResultSizeMask)
      buffer := splice x.buffer x.completed.toNat
        fun i => r.2.1 (i - x.completed.toNat) }

def fatReadTurnOn (calls : VolumeCalls σ) (root : FatGeometry)
    (endOffset count : Word) (x : FatReadOn σ) : Result (FatReadOn σ) :=
  readNextCluster calls root x.currentCluster x.state >>= fun r =>
    if cmp64_16 x.wholeClustersLeft 0 ≠ 0 then
      .ok { x with
        state := r.2
        wholeClustersLeft := dec64 x.wholeClustersLeft
        currentCluster := r.1 }
    else
      readPart calls root r.1 (partSize root endOffset count x.clusterOffset
        x.completed r.1) x r.2

def fatReadGoes (count : Word) (x : FatReadOn σ) : Bool :=
  decide (x.completed < count ∧ x.currentCluster < 0xff7)

def readEntry (calls : VolumeCalls σ) (entryPosition : Uint64) (s : σ) :
    Result (DirectoryEntry × σ) :=
  let found := calls.leftover s
  calls.read found.1 directoryEntrySize (calls.seek entryPosition found.2) >>=
    fun r => .ok (directoryEntry r.2.1, r.2.2)

/-- The loop of {lit}`fat_read_file`, with what comes before it; the position
is moved by the caller. -/
def fatReadFileOn (turns : Nat) (calls : VolumeCalls σ) (root : FatGeometry)
    (entryPosition position : Uint64) (buffer : Bytes) (count : Word) (s : σ) :
    Result (FatReadOn σ) := do
  let (clusterOffset, wholeClustersLeft) ←
    shr64 position (root.clusterPot.setWidth 16)
  let (entry, s) ← readEntry calls entryPosition s
  let (endOffset, _) ←
    shr64 (init64 0 0 0 (entry.size.extractLsb' 0 16))
      (root.clusterPot.setWidth 16)
  whileLoop .hang (fatReadGoes count) (fatReadTurnOn calls root endOffset count)
    turns ⟨s, wholeClustersLeft, clusterOffset, entry.clusterLo, 0, buffer⟩

end FatReads

/-!
# The read operations

The kernel with its block devices, their cache and the keyboard.
-/

structure DeviceState extends VfsState where
  blockFile : Word -> BlockFile
  cachedBlock : Fin cachedBlocks -> CachedBlock
  keyb : Keyb

namespace DeviceState

def malloc (s : DeviceState) (size : Word) : Result (Word × DeviceState) :=
  (s.toVfsState.malloc size).within fun v => { s with toVfsState := v }

def free (s : DeviceState) (block : Word) : Result DeviceState :=
  (s.toVfsState.free block).into fun v => { s with toVfsState := v }

def setPosition (s : DeviceState) (handle : Word) (position : Uint64) :
    DeviceState :=
  { s with toVfsState := s.toVfsState.setPosition handle position }

def blockState (s : DeviceState) : BlockState where
  heap := s.fs.heap
  mem := s.mem
  cachedBlock := s.cachedBlock

def setBlockState (s : DeviceState) (b : BlockState) : DeviceState :=
  { s with
    fs := { s.fs with heap := b.heap }
    mem := b.mem
    cachedBlock := b.cachedBlock }

/-- A read operation gets a handle, a buffer and its size, and returns a word
and the buffer. -/
abbrev ReadOp :=
  Word -> Bytes -> Word -> DeviceState -> Result (Word × Bytes × DeviceState)

def blockfileRead : ReadOp := fun handle buffer size s =>
  let node := (s.fs.handle handle).node
  Fs.blockfileRead (s.blockFile node) node s.blockState
    (s.fs.handle handle).position buffer size >>= fun r =>
      .ok (r.size, r.buffer,
        (s.setBlockState r.state).setPosition handle r.position)

def keybRead : ReadOp := fun _ buffer size s =>
  let r := Kernel.keybRead s.keyb buffer size
  .ok (r.size, r.buffer, { s with keyb := r.keyb })

def volumeCalls (read : ReadOp) (handle : Word) : VolumeCalls DeviceState where
  seek position s := s.setPosition handle position
  read := read handle
  leftover s := (s.stack s.lookups, { s with lookups := s.lookups + 1 })

def fatReadFile (turns : Nat) (read : ReadOp) : ReadOp :=
  fun handle buffer count s =>
    let file := s.fatFile (s.fs.handle handle).node
    let root := s.fatRoot file.root
    fatReadFileOn turns (volumeCalls read root.handle) root.geometry
      file.entryPosition (s.fs.handle handle).position buffer count s >>=
        fun x =>
          .ok (x.completed, x.buffer, x.state.setPosition handle
            (add64_16 (x.state.fs.handle handle).position x.completed))

def typeMask : Word := 0x00ff

/-- The word that a comparison yields. -/
def comparison (b : Bool) : Word :=
  if b then 1 else 0

/-- {lit}`file_read`, with the read operation of FAT files as a parameter.  The
guards compare their masks before they look at the flags. -/
def fileReadBy (fatRead : ReadOp) : ReadOp := fun handle buffer size s =>
  let flags := (s.fs.handle handle).flags
  if flags &&& comparison (typeMask == fileFlag) ≠ 0 then panic .nonFile
  else if flags &&& comparison (attributeMask == handleRead) ≠ 0 then
    panic .notRead
  else
    match s.fileOps (s.fs.handle handle).node with
    | .block => blockfileRead handle buffer size s
    | .fat => fatRead handle buffer size s
    | .keyboard => keybRead handle buffer size s
    | .none | .ramfs | .screen => .ok (0, buffer, s)

/-- {lit}`file_read` on files whose volumes lie in one another at most
{lit}`depth` deep. -/
def fileRead (turns : Nat) : Nat -> ReadOp
  | 0 => fileReadBy fun _ _ _ _ => .error .hang
  | depth + 1 => fileReadBy (fatReadFile turns (fileRead turns depth))

/-!
# System calls
-/

def regCX : Word := 8

def regDX : Word := 6

/-- Copy a buffer to the memory of a task. -/
def taskSetMemory (s : DeviceState) (task addr : Word) (src : Bytes)
    (count : Word) : DeviceState :=
  { s with
    mem := writeRun (fun i => linear (s.task task).segment (offsetFrom addr i))
      src count.toNat s.mem }

/-- The new buffer holds what was in its memory before. -/
def sysReadFile (turns depth : Nat) (before : Bytes) (task : Word)
    (s : DeviceState) : Result (Word × DeviceState) :=
  let k := s.toKernelState
  let taskBuffer := taskGetRegister k task regCX
  let size := taskGetRegister k task regDX
  let handle := taskGetHandle k task (taskGetRegister k task regBX)
  if handle = 0 then .ok (0, s)
  else do
    let (buffer, s) ← s.malloc size
    if buffer = 0 then .ok (0, s)
    else do
      let (size, bytes, s) ← fileRead turns depth handle before size s
      let s ← (taskSetMemory s task taskBuffer bytes size).free buffer
      .ok (size, s)

end DeviceState

end Fs
end Rmmtos
