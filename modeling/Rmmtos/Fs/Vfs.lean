import Rmmtos.Fs.FatNames
import Rmmtos.Fs.Node
import Rmmtos.Kernel.Task

/-!
# The file systems

The kernel with its trees of nodes, and the directory operations that a file
system may replace.  The only file system that does is the FAT driver, which
makes nodes from the entries of a directory on the disk.
-/

namespace Rmmtos
namespace Fs

open Library Kernel

inductive FileOps where
  | none
  | ramfs
  | block
  | fat
  | keyboard
  | screen
deriving DecidableEq, Repr

structure FatRootDirectory where
  geometry : FatGeometry
  handle : Word

structure FatFile where
  root : Word
  entryPosition : Uint64
  name : Bytes

/-- The kernel and its file systems.  A handle that a volume is read through
reads the {lit}`content` of its node, and {lit}`stack` is what each lookup in
turn finds in the place of the name it builds. -/
structure VfsState extends KernelState where
  vfsRoot : Word
  devfsRoot : Word
  fileOps : Word -> FileOps
  content : Word -> Bytes
  fatRoot : Word -> FatRootDirectory
  fatFile : Word -> FatFile
  stack : Nat -> Bytes
  lookups : Nat

def VfsState.malloc (s : VfsState) (size : Word) : Result (Word × VfsState) :=
  (s.fs.malloc size).within fun fs => { s with fs := fs }

def VfsState.free (s : VfsState) (block : Word) : Result VfsState :=
  (s.fs.free block).into fun fs => { s with fs := fs }

def VfsState.setNode (s : VfsState) (p : Word) (node : Node) : VfsState :=
  { s with fs := s.fs.setNode p node }

/-!
# New nodes
-/

def fileSize : Word := 14

def fatFileSize : Word := 38

def fatNameSize : Nat := 8 + 1 + 3 + 1

def cString (limit : Nat) (bytes : Bytes) : List Byte :=
  ((List.range limit).map bytes).takeWhile (· != 0)

def sameString (name : List Byte) (bytes : Bytes) : Bool :=
  (List.range name.length).all (fun i => name.getD i 0 == bytes i) &&
    bytes name.length == 0

def nodeInit (s : FsState) (p : Word) (name : List Byte) (flags : Word) :
    FsState :=
  s.setNode p { s.node p with
    name := name
    flags := flags
    refcount := 0
    writers := 0
    readers := 0
    next := 0 }

def fileCreateNode (s : VfsState) (name : List Byte) (flags : Word)
    (ops : FileOps) : Result (Word × VfsState) := do
  let (file, s) ← s.malloc fileSize
  let s :=
    if file ≠ 0 then
      { s with
        fs := nodeInit s.fs file name (fileFlag ||| (flags &&& attributeMask))
        fileOps := Function.update s.fileOps file ops }
    else s
  .ok (file, { s with fs := nodeAcquire s.fs file })

/-- {lit}`realloc` of a node: its record moves to the new block. -/
def reallocNode (s : VfsState) (p size : Word) :
    Result (Word × VfsState) := do
  let (q, s) ← s.malloc size
  if q = 0 then .ok (0, s)
  else
    let s := { s with
      fs := s.fs.setNode q (s.fs.node p)
      fileOps := Function.update s.fileOps q (s.fileOps p)
      fatRoot := Function.update s.fatRoot q (s.fatRoot p)
      fatFile := Function.update s.fatFile q (s.fatFile p) }
    let s ← s.free p
    .ok (q, s)

/-!
# Entries of a directory on the disk
-/

structure Scan where
  volume : Volume
  position : Uint64
  entry : Option DirectoryEntry
  ended : Bool

/-- Read an entry: pass it, stop at it, or take it. -/
def scanTurn (wanted : Bytes -> Bool) (x : Scan) : Scan :=
  let entry := directoryEntry x.volume.data
  let x := { x with
    position := x.volume.position
    volume := x.volume.advance directoryEntrySize }
  if entry.attributes &&& flagVolume ≠ 0 then x
  else if entry.name 0 = 0xe5 then x
  else if entry.name 0 = 0x00 then { x with ended := true }
  else if wanted entry.name = false then x
  else { x with entry := some entry }

/-- The number of states that the loop can be in. -/
def scanStates : Nat := 2 ^ 65

/-- The loop that the two node operations share: the first entry from a
position on whose name is wanted. -/
def scanEntries (root : FatGeometry) (wanted : Bytes -> Bool) (v : Volume)
    (position : Uint64) : Result Scan :=
  whileLoop .hang
    (fun x => x.entry.isNone && !x.ended &&
      decide (cmp64 x.position root.rootEnd < 0))
    (fun x => .ok (scanTurn wanted x))
    scanStates ⟨v.seek position, position, none, false⟩

/-- The volume of a file system and the handle on it. -/
def VfsState.volume (s : VfsState) (handle : Word) : Volume where
  image := s.content (s.fs.handle handle).node
  position := (s.fs.handle handle).position

def VfsState.setPosition (s : VfsState) (handle : Word) (position : Uint64) :
    VfsState :=
  { s with
    fs := s.fs.setHandle handle
      { s.fs.handle handle with position := position } }

def fatCreateNode (s : VfsState) (directory : Word) (entry : DirectoryEntry)
    (position : Uint64) : Result (Word × VfsState) := do
  let (file, s) ← fileCreateNode s [] 0 .fat
  let (fatFile, s) ← reallocNode s file fatFileSize
  let name := nameFromFat entry.name (s.fatFile fatFile).name
  let s := s.setNode fatFile
    { s.fs.node fatFile with name := cString fatNameSize name }
  .ok (fatFile, { s with
    fatFile := Function.update s.fatFile fatFile ⟨directory, position, name⟩ })

/-- What both node operations do with the entry they search for. -/
def fatLoadNode (s : VfsState) (directory : Word) (wanted : Bytes -> Bool)
    (position : Uint64) : Result (Word × VfsState) := do
  let root := s.fatRoot directory
  let x ← scanEntries root.geometry wanted (s.volume root.handle) position
  let s := s.setPosition root.handle x.volume.position
  match x.entry with
  | some entry => fatCreateNode s directory entry x.position
  | none => .ok (0, s)

def fatRootGetNextNode (s : VfsState) (handle currentNode : Word) :
    Result (Word × VfsState) :=
  let directory := (s.fs.handle handle).node
  let position :=
    if currentNode = 0 then (s.fatRoot directory).geometry.rootBegin
    else
      add64 (init64 0 0 0 directoryEntrySize)
        (s.fatFile currentNode).entryPosition
  fatLoadNode s directory (fun _ => true) position

def sameFatName (raw name : Bytes) : Bool :=
  (List.range 11).all fun i => raw i == name i

def fatRootGetNodeByName (s : VfsState) (handle : Word) (outerName : Bytes) :
    Result (Word × VfsState) :=
  let directory := (s.fs.handle handle).node
  let name := nameToFat outerName (s.stack s.lookups)
  fatLoadNode { s with lookups := s.lookups + 1 } directory
    (fun raw => sameFatName raw name)
    (s.fatRoot directory).geometry.rootBegin

/-!
# Directory operations
-/

def mayRead (handle : Handle) : Bool :=
  asks (handle.flags &&& attributeMask) handleRead

def VfsState.addToChildren (s : VfsState) (directory node : Word) :
    Result VfsState :=
  directoryAddToChildren s.fs directory node >>= fun fs =>
    .ok { s with fs := fs }

def directoryGetNextNode (s : VfsState) (handle currentNode : Word) :
    Result (Word × VfsState) :=
  let directory := (s.fs.handle handle).node
  if mayRead (s.fs.handle handle) = false then panic .notRead
  else
    match (s.fs.node directory).ops with
    | .fatRoot => do
        let (node, s) ← fatRootGetNextNode s handle currentNode
        if node ≠ 0 then
          let s ← s.addToChildren directory node
          .ok (node, s)
        else .ok (node, s)
    | .none | .ramfs =>
        if currentNode = 0 then .ok ((s.fs.node directory).child, s)
        else .ok ((s.fs.node currentNode).next, s)

/-- The first node of a list with a name, or zero. -/
def findChild (s : VfsState) (name : Bytes) (node : Word) : Result Word :=
  whileLoop .hang
    (fun p => p != 0 && !sameString (s.fs.node p).name name)
    (fun p => .ok (s.fs.node p).next)
    wordCount node

def directoryFindNode (s : VfsState) (handle : Word) (name : Bytes) :
    Result (Word × VfsState) :=
  let directory := (s.fs.handle handle).node
  if mayRead (s.fs.handle handle) = false then panic .notRead
  else do
    let node ← findChild s name (s.fs.node directory).child
    let (node, s) ←
      if node = 0 ∧ (s.fs.node directory).ops = .fatRoot then do
        let (node, s) ← fatRootGetNodeByName s handle name
        let s ← s.addToChildren directory node
        .ok (node, s)
      else .ok (node, s)
    if node ≠ 0 then .ok (node, { s with fs := nodeAcquire s.fs node })
    else .ok (node, s)

end Fs
end Rmmtos
