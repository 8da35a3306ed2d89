import Rmmtos.Fs.File

/-!
# Paths

The path functions of {lit}`fs/vfs.c`.  They work on a copy of the path in the
kernel heap, in which the separators have become zeros, so that each part of the
path is a string of its own.  A caller's string is given by its characters.
-/

namespace Rmmtos
namespace Fs

open Library Kernel

def slash : Byte := 0x2f

structure VfsPathResolution where
  path : Word
  endPart : Word
  currentPart : Word
  currentNode : Word
deriving DecidableEq, Repr

def pathResolutionSize : Word := 8

inductive ResolutionStatus where
  | ok
  | isFile
  | notFound
  | ended
deriving DecidableEq, Repr

/-- The kernel with the resolutions of paths that are under way. -/
structure PathState extends DeviceState where
  resolution : Word -> VfsPathResolution

namespace PathState

def malloc (s : PathState) (size : Word) : Result (Word × PathState) :=
  (s.fs.malloc size).within fun fs => { s with fs := fs }

def free (s : PathState) (block : Word) : Result PathState :=
  (s.fs.free block).into fun fs => { s with fs := fs }

def directoryOpen (s : PathState) (node mode : Word) :
    Result (Word × PathState) :=
  (Fs.directoryOpen s.fs node mode).within fun fs => { s with fs := fs }

def directoryClose (s : PathState) (handle : Word) : Result PathState :=
  (Fs.directoryClose s.fs handle).into fun fs => { s with fs := fs }

def directoryFindNode (s : PathState) (handle : Word) (name : Bytes) :
    Result (Word × PathState) :=
  (Fs.directoryFindNode s.toVfsState handle name).within fun v =>
    { s with toVfsState := v }

def setResolution (s : PathState) (p : Word) (resolution : VfsPathResolution) :
    PathState :=
  { s with resolution := Function.update s.resolution p resolution }

def setCurrentPart (s : PathState) (p part : Word) : PathState :=
  s.setResolution p { s.resolution p with currentPart := part }

def setCurrentNode (s : PathState) (p node : Word) : PathState :=
  s.setResolution p { s.resolution p with currentNode := node }

end PathState

def stringAt (m : Mem) (p : Word) : Bytes := fun i =>
  peek m kernelSegment (offsetFrom p i)

def strcpy (m : Mem) (dest : Word) (src : List Byte) : Mem :=
  writeRun (fun i => linear kernelSegment (offsetFrom dest i))
    (fun i => src.getD i 0) (src.length + 1) m

/-- Change directory separators to zero terminators.  A pass over the whole
segment leaves no separator, so a second one stops where the first one met one. -/
def cutPath (m : Mem) (pathCopy : Word) : Result Mem :=
  whileLoop .hang (fun x => peek x.2 kernelSegment x.1 != 0)
    (fun x => .ok (x.1 + 1,
      if peek x.2 kernelSegment x.1 = slash then poke x.2 kernelSegment x.1 0
      else x.2))
    (2 * wordCount) (pathCopy, m) >>= fun x => .ok x.2

def vfsStartResolve (s : PathState) (path : List Byte) :
    Result (Word × PathState) := do
  let pathSize := BitVec.ofNat 16 (path.length + 1)
  let (resolution, s) ← s.malloc pathResolutionSize
  if resolution = 0 then .ok (0, s)
  else
    let (pathCopy, s) ← s.malloc pathSize
    let s := { s with mem := strcpy s.mem pathCopy path }
    if pathCopy = 0 then
      let s ← s.free resolution
      .ok (0, s)
    else
      let mem ← cutPath s.mem pathCopy
      let s := { s with mem := mem }
      .ok (resolution, s.setResolution resolution
        ⟨pathCopy, pathCopy + pathSize - 1, pathCopy, s.vfsRoot⟩)

def vfsRetryResolution (s : PathState) (resolution : Word) :
    Result (ResolutionStatus × PathState) :=
  let node := (s.resolution resolution).currentNode
  let currentPart := (s.resolution resolution).currentPart
  if peek s.mem kernelSegment currentPart = 0 then .ok (.ok, s)
  else if asks (s.fs.node node).flags directoryFlag then do
    let (handle, s) ← s.directoryOpen node handleRead
    if handle ≠ 0 then
      let (node, s) ← s.directoryFindNode handle (stringAt s.mem currentPart)
      let s ← s.directoryClose handle
      if node = 0 then .ok (.notFound, s)
      else .ok (.ok, s.setCurrentNode resolution node)
    else .ok (.notFound, s)
  else .ok (.isFile, s)

/-- {lit}`while(*p != 0) p++`. -/
def skipPart (m : Mem) (p : Word) : Result Word :=
  whileLoop .hang (fun p => peek m kernelSegment p != 0) (fun p => .ok (p + 1))
    wordCount p

def vfsAdvanceResolution (s : PathState) (resolution : Word) :
    Result (ResolutionStatus × PathState) := do
  let currentPart ← skipPart s.mem (s.resolution resolution).currentPart
  let s := s.setCurrentPart resolution currentPart
  if currentPart = (s.resolution resolution).endPart then .ok (.ended, s)
  else
    vfsRetryResolution (s.setCurrentPart resolution (currentPart + 1)) resolution

def vfsFreePathResolution (s : PathState) (resolution : Word) :
    Result PathState := do
  let s ← s.free (s.resolution resolution).path
  s.free resolution

/-- The loop of {lit}`vfs_get_node_for_path`, with the status that it starts
a turn with. -/
def resolvePath (s : PathState) (resolution : Word) :
    Result (ResolutionStatus × PathState) :=
  whileLoop .hang (fun x => decide (x.1 = .ok))
    (fun x => vfsAdvanceResolution x.2 resolution) wordCount (.ok, s)

def vfsGetNodeForPath (s : PathState) (path : List Byte) :
    Result (Word × PathState) := do
  let (resolution, s) ← vfsStartResolve s path
  let (status, s) ← resolvePath s resolution
  let node :=
    if status = .ended then (s.resolution resolution).currentNode else 0
  let s ← vfsFreePathResolution s resolution
  .ok (node, s)

end Fs
end Rmmtos
