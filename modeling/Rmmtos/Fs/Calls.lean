import Rmmtos.Char.Screen
import Rmmtos.Fs.Mount
import Rmmtos.Kernel.Exec

/-!
# System calls

The handlers of {lit}`kernel/syscall.c` that work on files.  What they print is
left out.
-/

namespace Rmmtos
namespace Fs

open Library Kernel

/-!
# Handles
-/

def internalMode (mode : Word) : Word :=
  (if mode &&& 1 ≠ 0 then handleRead else 0) |||
    (if mode &&& 2 ≠ 0 then handleWrite else 0)

namespace PathState

def fileClose (s : PathState) (handle : Word) : Result PathState :=
  (Fs.fileClose s.fs handle).into fun fs => { s with fs := fs }

def taskAddHandle (s : PathState) (task handle : Word) :
    Result (Word × PathState) :=
  (Kernel.taskAddHandle s.toKernelState task handle).within fun k =>
    { s with toKernelState := k }

def taskRemoveHandle (s : PathState) (task id : Word) : PathState :=
  { s with toKernelState := Kernel.taskRemoveHandle s.toKernelState task id }

def directoryGetNextNode (s : PathState) (handle currentNode : Word) :
    Result (Word × PathState) :=
  (Fs.directoryGetNextNode s.toVfsState handle currentNode).within fun v =>
    { s with toVfsState := v }

def sysOpenFile (task : Word) (s : PathState) : Result (Word × PathState) := do
  let (path, string, s) ← getString s task regBX
  let mode := taskGetRegister s.toKernelState task DeviceState.regCX
  let (node, s) ← if path ≠ 0 then vfsGetNodeForPath s string else .ok (0, s)
  let (handle, s) ←
    if node ≠ 0 then s.fileOpen node (internalMode mode) else .ok (0, s)
  let (id, s) ← if handle ≠ 0 then s.taskAddHandle task handle else .ok (0, s)
  let s ← s.free path
  .ok (id, s)

def sysCloseFile (task : Word) (s : PathState) : Result (Word × PathState) :=
  let id := taskGetRegister s.toKernelState task regBX
  let handle := taskGetHandle s.toKernelState task id
  if handle ≠ 0 then do
    let s ← s.fileClose handle
    .ok (0, s.taskRemoveHandle task id)
  else .ok (0, s)

def sysReadFile (read : DeviceState.ReadOp) (before : Bytes) (task : Word)
    (s : PathState) : Result (Word × PathState) :=
  let k := s.toKernelState
  let taskBuffer := taskGetRegister k task DeviceState.regCX
  let size := taskGetRegister k task DeviceState.regDX
  let handle := taskGetHandle k task (taskGetRegister k task regBX)
  if handle = 0 then .ok (0, s)
  else do
    let (buffer, s) ← s.malloc size
    if buffer = 0 then .ok (0, s)
    else do
      let (size, bytes, d) ← read handle before size s.toDeviceState
      let s := { s with
        toDeviceState := DeviceState.taskSetMemory d task taskBuffer bytes size }
      let s ← s.free buffer
      .ok (size, s)

theorem sysReadFile_device (turns depth : Nat) (before : Bytes) (task : Word)
    (s : PathState) :
    s.sysReadFile (DeviceState.fileRead turns depth) before task =
      (DeviceState.sysReadFile turns depth before task s.toDeviceState >>= fun r =>
        .ok (r.1, { s with toDeviceState := r.2 })) := by
  unfold PathState.sysReadFile DeviceState.sysReadFile
  dsimp only
  split
  · rfl
  · unfold PathState.malloc DeviceState.malloc VfsState.malloc
    cases s.fs.malloc (taskGetRegister s.toKernelState task DeviceState.regDX) with
    | error e => rfl
    | ok r =>
        simp only [Result.within_ok, ok_bind]
        split
        · rfl
        · cases DeviceState.fileRead turns depth _ before _ _ with
          | error e => rfl
          | ok x =>
              simp only [ok_bind]
              unfold PathState.free DeviceState.free VfsState.free
              dsimp only
              cases FsState.free _ _ with
              | error e => rfl
              | ok fs => rfl

def taskMemory (s : PathState) (task addr : Word) : Bytes := fun i =>
  peek s.mem (s.task task).segment (offsetFrom addr i)

def uint64At (bytes : Bytes) : Uint64 :=
  init64 (wordAt bytes 6) (wordAt bytes 4) (wordAt bytes 2) (wordAt bytes 0)

def sysSeek (task : Word) (s : PathState) : Result (Word × PathState) :=
  let k := s.toKernelState
  let handle := taskGetHandle k task (taskGetRegister k task regBX)
  let position :=
    uint64At (s.taskMemory task (taskGetRegister k task DeviceState.regCX))
  if handle ≠ 0 then
    .ok (0, { s with
      toDeviceState := s.toDeviceState.setPosition handle position })
  else .ok (0, s)

/-!
# Writing
-/

structure Console where
  col : Word
  row : Word
  cursor : Word

/-- {lit}`file_write` of a buffer in the kernel's memory.  Its guards compare
their masks first as well, and a block device writes nothing. -/
def fileWrite (s : PathState) (console : Console) (handle buffer size : Word) :
    Result (Word × Console × PathState) :=
  let flags := (s.fs.handle handle).flags
  if flags &&& DeviceState.comparison (DeviceState.typeMask == fileFlag) ≠ 0 then
    panic .nonFile
  else if flags &&& DeviceState.comparison (attributeMask == handleWrite) ≠ 0 then
    panic .notWrite
  else
    match s.fileOps (s.fs.handle handle).node with
    | .screen =>
        let r := screenWrite ⟨s.mem, console.col, console.row, console.cursor⟩
          buffer size
        .ok (r.1, ⟨r.2.col, r.2.row, r.2.cursor⟩, { s with mem := r.2.mem })
    | .none | .ramfs | .block | .fat | .keyboard => .ok (0, console, s)

def sysWriteFile (task : Word) (console : Console) (s : PathState) :
    Result (Word × Console × PathState) :=
  let k := s.toKernelState
  let taskBuffer := taskGetRegister k task DeviceState.regCX
  let size := taskGetRegister k task DeviceState.regDX
  let handle := taskGetHandle k task (taskGetRegister k task regBX)
  if handle = 0 then .ok (0, console, s)
  else do
    let (buffer, s) ← s.malloc size
    if buffer = 0 then .ok (0, console, s)
    else do
      let s := { s with
        mem := farmemcpy s.mem buffer taskBuffer size kernelSegment
          (s.task task).segment }
      let (size, console, s) ← s.fileWrite console handle buffer size
      let s ← s.free buffer
      .ok (size, console, s)

/-!
# Listing the tree
-/

/-- {lit}`tree` on directories that lie in one another at most {lit}`depth`
deep, none of them with more than {lit}`turns` children. -/
def tree (turns : Nat) : Nat -> Word -> PathState -> Result PathState
  | 0, _, _ => .error .hang
  | depth + 1, node, s =>
      if asks (s.fs.node node).flags directoryFlag then do
        let (handle, s) ← s.directoryOpen node handleRead
        let (child, s) ← s.directoryGetNextNode handle 0
        let x ← whileLoop .hang (fun x : Word × PathState => x.1 != 0)
          (fun x => tree turns depth x.1 x.2 >>= fun s =>
            s.directoryGetNextNode handle x.1)
          turns (child, s)
        x.2.free handle
      else .ok s

def sysUnmount (turns depth : Nat) (s : PathState) :
    Result (Word × PathState) :=
  tree turns depth s.vfsRoot s >>= fun s => .ok (0xffff, s)

/-!
# Programs
-/

structure ProgramLoad where
  state : PathState
  buffer : Bytes
  addr : Word
  result : Word

def loadTurn (read : DeviceState.ReadOp) (task handle : Word)
    (x : ProgramLoad) : Result ProgramLoad :=
  read handle x.buffer 512 x.state.toDeviceState >>= fun r =>
    let count := r.1 &&& fileIoResultSizeMask
    .ok {
      state := { x.state with
        toDeviceState := DeviceState.taskSetMemory r.2.2 task x.addr r.2.1 count }
      buffer := r.2.1
      addr := x.addr + count
      result := r.1 }

/-- Has the last read returned bytes, and no error? -/
def loadGoes (x : ProgramLoad) : Bool :=
  decide (0 < x.result &&& fileIoResultSizeMask) &&
    x.result &&& fileIoResultStatusMask == 0

/-- Read a program to the memory of its task, in at most {lit}`turns` turns
behind the first one. -/
def loadProgram (turns : Nat) (read : DeviceState.ReadOp) (task handle : Word)
    (s : PathState) : Result PathState := do
  let (buffer, s) := s.leftover
  let x ← loadTurn read task handle ⟨s, buffer, 0, 0⟩
  let x ← whileLoop .hang loadGoes (loadTurn read task handle) turns x
  .ok x.state

def exec (s : PathState) (param : List Byte) : PathState :=
  { s with toKernelState := s.toKernelState.exec param }

@[simp] theorem exec_toKernelState (s : PathState) (param : List Byte) :
    (s.exec param).toKernelState = s.toKernelState.exec param := rfl

def sysExec (turns : Nat) (read : DeviceState.ReadOp) (task : Word)
    (s : PathState) : Result (Word × PathState) := do
  let (path, string, s) ← getString s task regBX
  let (param, paramString, s) ← getString s task DeviceState.regCX
  let (node, s) ←
    if path ≠ 0 then do
      let (node, s) ← vfsGetNodeForPath s string
      let s ← s.free path
      .ok (node, s)
    else .ok (0, s)
  let (handle, buffer, s) ←
    if node ≠ 0 then do
      let (handle, s) ← s.fileOpen node handleRead
      let (buffer, s) ← s.malloc 512
      .ok (handle, buffer, s)
    else .ok (0, 0, s)
  let s ←
    if handle ≠ 0 ∧ buffer ≠ 0 ∧ param ≠ 0 then do
      let s ← loadProgram turns read task handle s
      .ok (s.exec paramString)
    else .ok s
  let s ← if buffer ≠ 0 then s.free buffer else .ok s
  let s ← if handle ≠ 0 then s.fileClose handle else .ok s
  .ok (0, s)

end PathState

end Fs
end Rmmtos
