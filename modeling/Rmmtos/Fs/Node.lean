import Rmmtos.Kernel.Malloc
import Rmmtos.Kernel.Uint64

/-!
# Nodes and handles

The nodes of {lit}`fs/node.h` and the handles on them, with the operations of
{lit}`fs/file.c` and {lit}`fs/directory.c` that no file system replaces.  Nodes and
handles are kept by their addresses; the memory of a handle comes from the kernel
heap.
-/

namespace Rmmtos
namespace Fs

open Library Kernel

def fileFlag : Word := 0x0001

def directoryFlag : Word := 0x0002

def handleRead : Word := 0x8000

def handleWrite : Word := 0x4000

def attributeMask : Word := 0xff00

inductive DirectoryOps where
  | none
  | ramfs
  | fatRoot
deriving DecidableEq, Repr

/-- A {lit}`struct Node` with the fields of the {lit}`struct Directory` it may
be the head of. -/
structure Node where
  name : List Byte
  flags : Word
  refcount : Word
  writers : Word
  readers : Word
  next : Word
  ops : DirectoryOps
  child : Word
  redirect : Word
deriving DecidableEq, Repr

/-- A {lit}`struct Handle` with the position of a {lit}`struct FileHandle`. -/
structure Handle where
  flags : Word
  node : Word
  position : Uint64
deriving DecidableEq, Repr

def directoryHandleSize : Word := 4

def fileHandleSize : Word := 12

structure FsState where
  heap : Heap
  node : Word -> Node
  handle : Word -> Handle

def FsState.malloc (s : FsState) (size : Word) : Result (Word × FsState) :=
  (Kernel.malloc s.heap size).within fun heap => { s with heap := heap }

def FsState.free (s : FsState) (block : Word) : Result FsState :=
  (Kernel.free s.heap block).into fun heap => { s with heap := heap }

def FsState.setNode (s : FsState) (p : Word) (node : Node) : FsState :=
  { s with node := Function.update s.node p node }

def FsState.setHandle (s : FsState) (p : Word) (handle : Handle) : FsState :=
  { s with handle := Function.update s.handle p handle }

def nodeAcquire (s : FsState) (p : Word) : FsState :=
  s.setNode p { s.node p with refcount := (s.node p).refcount + 1 }

def nodeRelease (s : FsState) (p : Word) : FsState :=
  s.setNode p { s.node p with refcount := (s.node p).refcount - 1 }

def asks (mode access : Word) : Bool :=
  mode &&& access != 0

/-- Is the node open in a way that rules the mode out? -/
def busy (node : Node) (mode : Word) : Bool :=
  (asks mode handleWrite && (node.readers != 0 || node.writers != 0)) ||
    (asks mode handleRead && node.writers != 0)

def countOpen (mode : Word) (node : Node) : Node :=
  { node with
    writers := if asks mode handleWrite then node.writers + 1 else node.writers
    readers := if asks mode handleRead then node.readers + 1 else node.readers }

def countClose (mode : Word) (node : Node) : Node :=
  { node with
    readers := if asks mode handleRead then node.readers - 1 else node.readers
    writers := if asks mode handleWrite then node.writers - 1 else node.writers }

def openHandle (s : FsState) (p node type mode : Word) : FsState :=
  let s := s.setHandle p ⟨type ||| mode, node, init64 0 0 0 0⟩
  let s := s.setNode node (countOpen mode (s.node node))
  nodeAcquire s node

/-- No file system has an {lit}`open` operation of its own. -/
def fileOpen (s : FsState) (node mode : Word) : Result (Word × FsState) :=
  if busy (s.node node) mode then .ok (0, s)
  else if asks (s.node node).flags fileFlag = false ∨ node = 0 then
    panic .nonFile
  else
    s.malloc fileHandleSize >>= fun r =>
      if r.1 = 0 then .ok r
      else .ok (r.1, openHandle r.2 r.1 node fileFlag mode)

def closeHandle (s : FsState) (p : Word) : Result FsState :=
  let handle := s.handle p
  let s := s.setNode handle.node
    (countClose handle.flags (s.node handle.node))
  let s := nodeRelease s handle.node
  s.free p

def fileClose (s : FsState) (handle : Word) : Result FsState :=
  closeHandle s handle

def directoryClose (s : FsState) (handle : Word) : Result FsState :=
  closeHandle s handle

/-!
# Directories

A directory that is redirected stands for another one: its handles are handles on
that directory.
-/

/-- The directory that the handles of a directory are on. -/
def openTarget (s : FsState) (node : Word) : Word :=
  if (s.node node).redirect ≠ 0 then (s.node node).redirect else node

/-- The test for an open that rules this one out is made on the directory
itself, and the handle is counted on the one it is redirected to. -/
def directoryOpen (s : FsState) (node mode : Word) : Result (Word × FsState) :=
  if busy (s.node node) mode then .ok (0, s)
  else if asks (s.node node).flags directoryFlag = false ∨ node = 0 then
    panic .nonDir
  else
    s.malloc directoryHandleSize >>= fun r =>
      if r.1 = 0 then .ok r
      else .ok (r.1, openHandle r.2 r.1 (openTarget s node) directoryFlag mode)

def directoryRedirect (s : FsState) (node destination : Word) :
    Result FsState :=
  if asks (s.node node).flags directoryFlag = false ∨ node = 0 then
    panic .nonDir
  else .ok (s.setNode node { s.node node with redirect := destination })

def directoryAddToChildren (s : FsState) (directory node : Word) :
    Result FsState :=
  if (s.node node).next ≠ 0 then panic .addingNodeToTwoDirs
  else
    let s := s.setNode node
      { s.node node with next := (s.node directory).child }
    .ok (s.setNode directory { s.node directory with child := node })

def mayWrite (handle : Handle) : Bool :=
  asks (handle.flags &&& attributeMask) handleWrite

/-- No file system has an {lit}`add_node` operation of its own. -/
def directoryAddNode (s : FsState) (handle node : Word) : Result (Word × FsState) :=
  if mayWrite (s.handle handle) = false then panic .notWrite
  else
    directoryAddToChildren s (s.handle handle).node node >>= fun s => .ok (node, s)

end Fs
end Rmmtos
