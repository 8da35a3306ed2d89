import Rmmtos.Fs.Path

/-!
# Mounting

{lit}`sys_mount` reads three strings of its task, looks two of them up, makes a
file system and redirects a directory to it.
-/

namespace Rmmtos
namespace Fs

open Library Kernel

/-!
# Strings of a task
-/

def charsFrom (bytes : Bytes) : Nat -> Nat -> List Byte
  | 0, _ => []
  | n + 1, i =>
      if bytes i = 0 then [] else bytes i :: charsFrom bytes n (i + 1)

/-- The loop that counts the characters of a string with its terminating zero:
the address, the length and the last character. -/
def stringLength (s : PathState) (task addr : Word) :
    Result (Word × Word × Byte) :=
  whileLoop .hang (fun x => x.2.2 != 0)
    (fun x => .ok (x.1 + 1, x.2.1 + 1, peek s.mem (s.task task).segment x.1))
    wordCount (addr, 0, 1)

/-- The string is returned with the characters that were copied. -/
def getString (s : PathState) (task reg : Word) :
    Result (Word × List Byte × PathState) := do
  let addr := taskGetRegister s.toKernelState task reg
  let x ← stringLength s task addr
  let (string, s) ← s.malloc x.2.1
  if string = 0 then .ok (0, [], s)
  else
    let addr := taskGetRegister s.toKernelState task reg
    let s := { s with
      mem := farmemcpy s.mem string addr x.2.1 kernelSegment
        (s.task task).segment }
    .ok (string, charsFrom (stringAt s.mem string) wordCount 0, s)

/-!
# New file systems
-/

def staticFlag : Word := 0x8000

def directorySize : Word := 18

def fatRootDirectorySize : Word := 54

def parametersSize : Word := 74

def fatType : List Byte := [0x66, 0x61, 0x74]

def ramType : List Byte := [0x72, 0x61, 0x6d]

def devType : List Byte := [0x64, 0x65, 0x76]

namespace PathState

def fileOpen (s : PathState) (node mode : Word) : Result (Word × PathState) :=
  (Fs.fileOpen s.fs node mode).within fun fs => { s with fs := fs }

def directoryRedirect (s : PathState) (node destination : Word) :
    Result PathState :=
  (Fs.directoryRedirect s.fs node destination).into fun fs => { s with fs := fs }

def directoryCreateNode (s : PathState) (name : List Byte) (flags : Word)
    (ops : DirectoryOps) : Result (Word × PathState) := do
  let (directory, s) ← s.malloc directorySize
  if directory ≠ 0 then
    let fs := nodeInit s.fs directory name
      (directoryFlag ||| (flags &&& attributeMask))
    let fs := fs.setNode directory
      { fs.node directory with
        ops := ops
        child := 0
        redirect := 0 }
    .ok (directory, { s with fs := nodeAcquire fs directory })
  else .ok (directory, s)

def reallocNode (s : PathState) (p size : Word) : Result (Word × PathState) :=
  (Fs.reallocNode s.toVfsState p size).within fun v => { s with toVfsState := v }

/-- What the next variable without a value holds. -/
def leftover (s : PathState) : Bytes × PathState :=
  (s.stack s.lookups, { s with lookups := s.lookups + 1 })

/-- A read of a file with {lit}`file_read`, into a buffer that holds what is
left in it. -/
def fileRead (read : DeviceState.ReadOp) (s : PathState) (handle size : Word) :
    Result (Bytes × PathState) :=
  let (buffer, s) := s.leftover
  read handle buffer size s.toDeviceState >>= fun r =>
    .ok (r.2.1, { s with toDeviceState := r.2.2 })

/-- Without a buffer the parameters keep what is left in their memory. -/
def fatReadParameters (read : DeviceState.ReadOp) (s : PathState) (handle : Word) :
    Result (Parameters × PathState) := do
  let (mbr, s) ← s.malloc 512
  if mbr ≠ 0 then
    let s := { s with
      toDeviceState := s.toDeviceState.setPosition handle (init64 0 0 0 0) }
    let (bytes, s) ← s.fileRead read handle 512
    let s ← s.free mbr
    .ok (parametersOf bytes, s)
  else
    let (bytes, s) := s.leftover
    .ok (parametersOf bytes, s)

def setFatRoot (s : PathState) (p : Word) (root : FatRootDirectory) : PathState :=
  { s with fatRoot := Function.update s.fatRoot p root }

def createFatFs (read : DeviceState.ReadOp) (s : PathState) (data : Word) :
    Result (Word × PathState) := do
  let (directory, s) ← s.directoryCreateNode [] 0 .fatRoot
  let (handle, s) ← s.fileOpen data handleRead
  let (params, s) ← s.malloc parametersSize
  let (rootDirectory, s) ← s.reallocNode directory fatRootDirectorySize
  let s ←
    if directory ≠ 0 ∧ params ≠ 0 ∧ handle ≠ 0 then do
      let (parameters, s) ← s.fatReadParameters read handle
      let geometry ← parseParams parameters
      .ok (s.setFatRoot rootDirectory
        { s.fatRoot rootDirectory with geometry := geometry })
    else .ok s
  let s := s.setFatRoot rootDirectory
    { s.fatRoot rootDirectory with handle := handle }
  let s ← s.free params
  .ok (rootDirectory, s)

def ramfsCreate (s : PathState) : Result (Word × PathState) :=
  s.directoryCreateNode [] staticFlag .ramfs

def vfsCreateFilesystem (read : DeviceState.ReadOp) (s : PathState)
    (type : List Byte) (node : Word) : Result (Word × PathState) :=
  if type = fatType then s.createFatFs read node
  else if type = ramType then s.ramfsCreate
  else if type = devType then .ok (s.devfsRoot, s)
  else .ok (0, s)

def sysMount (read : DeviceState.ReadOp) (task : Word) (s : PathState) :
    Result (Word × PathState) := do
  let (_, destinationPath, s) ← getString s task regBX
  let (_, type, s) ← getString s task DeviceState.regCX
  let (_, sourcePath, s) ← getString s task DeviceState.regDX
  let (sourceNode, s) ← vfsGetNodeForPath s sourcePath
  let (destinationNode, s) ← vfsGetNodeForPath s destinationPath
  let (fileSystem, s) ← s.vfsCreateFilesystem read type sourceNode
  let s ← s.directoryRedirect destinationNode fileSystem
  .ok (0, s)

end PathState

end Fs
end Rmmtos
