import Rmmtos.Fs.FileFrames
import Rmmtos.Fs.Mount
import Rmmtos.Fs.PathLoads

/-!
# Mounts that fail

A mount without a file system redirects its directory to the null directory,
which is what a directory without a redirect has.  The tree may have volumes in it
and directories that are open for writing.
-/

namespace Rmmtos
namespace Fs

open Library Zones Kernel

/-!
# The strings of a call
-/

theorem charsFrom_nonzero (bytes : Bytes) (n i : Nat) : 0 ∉ charsFrom bytes n i := by
  induction n generalizing i with
  | zero => exact List.not_mem_nil
  | succ n ih =>
      unfold charsFrom
      split
      · exact List.not_mem_nil
      · next hne =>
          intro hmem
          rcases List.mem_cons.mp hmem with hzero | hmem
          · exact hne hzero.symm
          · exact ih (i + 1) hmem

structure StringRead (s t : PathState) (string : List Byte) : Prop where
  node : t.fs.node = s.fs.node
  volumes : forall heap, VolumesKept heap s t
  root : t.vfsRoot = s.vfsRoot
  heap : HeapInv t.fs.heap
  pool : t.fs.heap.poolStart = s.fs.heap.poolStart
  notFree : forall p, NotFree s.fs.heap p -> NotFree t.fs.heap p
  chars : 0 ∉ string

theorem getString_read {s t : PathState} {task reg p : Word} {string : List Byte}
    (hheap : HeapInv s.fs.heap) (hrun : getString s task reg = .ok (p, string, t)) :
    StringRead s t string := by
  rcases ok_bind_iff.mp hrun with ⟨x, _, hrun⟩
  rcases ok_bind_iff.mp hrun with ⟨⟨q, u⟩, hmalloc, hrun⟩
  have hu : u.fs.node = s.fs.node ∧ (forall heap, VolumesKept heap s u) ∧
      u.vfsRoot = s.vfsRoot ∧ HeapInv u.fs.heap ∧
      u.fs.heap.poolStart = s.fs.heap.poolStart ∧
      forall p, NotFree s.fs.heap p -> NotFree u.fs.heap p := by
    rw [path_malloc_eq] at hmalloc
    rcases ok_bind_iff.mp hmalloc with ⟨r, hheapMalloc, hret⟩
    cases hret
    rcases malloc_block hheap.zoneTable hheapMalloc with ⟨b, _, hb, hfree, _, htake⟩
    dsimp only
    rw [htake]
    exact ⟨rfl, fun _ => ⟨fun _ _ => rfl, rfl, rfl, rfl, rfl⟩, rfl,
      take_inv hheap hb hfree, rfl, fun _ hp => hp.take⟩
  rcases hu with ⟨hnode, hvolumes, hroot, hinv, hpool, hfree⟩
  dsimp only at hrun
  split at hrun
  · cases hrun
    exact ⟨hnode, hvolumes, hroot, hinv, hpool, hfree, List.not_mem_nil⟩
  · cases hrun
    refine ⟨hnode, fun heap => ?_, hroot, hinv, hpool, hfree, charsFrom_nonzero _ _ _⟩
    exact ⟨(hvolumes heap).handle, (hvolumes heap).fatRoot, (hvolumes heap).content,
      (hvolumes heap).stack, (hvolumes heap).lookups⟩

structure MountStrings (s : PathState) (task : Word) (t : PathState)
    (destination type source : List Byte) : Prop where
  strings : exists p q r u v,
    getString s task regBX = .ok (p, destination, u) ∧
      getString u task DeviceState.regCX = .ok (q, type, v) ∧
      getString v task DeviceState.regDX = .ok (r, source, t)
  destination_short : destination.length + 1 < wordCount
  source_short : source.length + 1 < wordCount

section Strings

variable {s t : PathState} {task : Word} {destination type source : List Byte}

theorem MountStrings.read (h : MountStrings s task t destination type source)
    (hheap : HeapInv s.fs.heap) :
    StringRead s t source ∧ 0 ∉ destination := by
  rcases h.strings with ⟨p, q, r, u, v, hdestination, htype, hsource⟩
  have hu := getString_read hheap hdestination
  have hv := getString_read hu.heap htype
  have ht := getString_read hv.heap hsource
  refine ⟨⟨?_, fun heap => ?_, ?_, ht.heap, ?_, ?_, ht.chars⟩, hu.chars⟩
  · rw [ht.node, hv.node, hu.node]
  · exact ((hu.volumes heap).trans (hv.volumes heap)).trans (ht.volumes heap)
  · rw [ht.root, hv.root, hu.root]
  · rw [ht.pool, hv.pool, hu.pool]
  · exact fun p hp => ht.notFree p (hv.notFree p (hu.notFree p hp))

end Strings

/-!
# Failing mounts
-/

/-- The two resolutions of a mount: the volume, the directory and the state behind
them. -/
def MountPaths (t : PathState) (destination source : List Byte) (q d : Word)
    (v : PathState) : Prop :=
  exists u, vfsGetNodeForPath t source = .ok (q, u) ∧
    vfsGetNodeForPath u destination = .ok (d, v)

section Mounts

variable {read : DeviceState.ReadOp} {s t u v : PathState} {task : Word}
  {nodes : Set Word} {destination type source : List Byte}

structure Allocated (s : PathState) (p : Word) (t : PathState) (b : Nat) : Prop where
  inside : b < blockCount s.fs.heap.layout
  free : s.fs.heap.taken b = false
  address : p = s.fs.heap.address b
  state : t = { s with fs := { s.fs with heap := s.fs.heap.take b } }

/-- The nodes that are not in a free block keep their flags, and none of them
gets free. -/
structure FlagsKept (s t : PathState) : Prop where
  heap : HeapInv t.fs.heap
  notFree : forall p, NotFree s.fs.heap p -> NotFree t.fs.heap p
  flags : forall p, NotFree s.fs.heap p ->
    (t.fs.node p).flags = (s.fs.node p).flags

theorem FlagsKept.trans {s t u : PathState} (h : FlagsKept s t)
    (h' : FlagsKept t u) : FlagsKept s u where
  heap := h'.heap
  notFree := fun p hp => h'.notFree p (h.notFree p hp)
  flags := fun p hp => (h'.flags p (h.notFree p hp)).trans (h.flags p hp)

theorem Allocated.kept {p : Word} {b : Nat} (h : Allocated s p t b)
    (hheap : HeapInv s.fs.heap) : FlagsKept s t := by
  rw [h.state]
  exact ⟨take_inv hheap h.inside h.free, fun _ hp => hp.take, fun _ _ => rfl⟩

theorem SameVolumes.trans (h : SameVolumes s t) (h' : SameVolumes t u) :
    SameVolumes s u := by
  refine ⟨⟨h'.heap.trans h.heap, h'.root.trans h.root, h.nodes.trans h'.nodes⟩,
    h.volumes.trans (h'.volumes.mono fun p hp => ?_)⟩
  rw [h.heap]
  exact hp

theorem SameVolumes.heapInv (h : SameVolumes s t) (hheap : HeapInv s.fs.heap) :
    HeapInv t.fs.heap := by
  rw [h.heap]
  exact hheap

theorem SameVolumes.pool (h : SameVolumes s t) (hpool : 0 < s.fs.heap.poolStart.toNat) :
    0 < t.fs.heap.poolStart.toNat := by
  rw [h.heap]
  exact hpool

theorem StringRead.sameNodes {string : List Byte} (h : StringRead s t string) :
    SameNodes s.fs t.fs := by
  refine ⟨⟨fun p => ?_⟩, fun p => ?_, fun p => ?_⟩ <;> rw [h.node]

theorem SameVolumes.held (h : SameVolumes s t) (htree : TreeHeld s nodes) :
    TreeHeld t nodes := by
  refine htree.same h.nodes h.root h.volumes.fatRoot fun p hp => ?_
  rw [h.heap]
  exact hp

theorem MountStrings.held (h : MountStrings s task t destination type source)
    (hheap : HeapInv s.fs.heap) (htree : TreeHeld s nodes) : TreeHeld t nodes := by
  have hread := (h.read hheap).1
  exact htree.same hread.sameNodes hread.root (hread.volumes s.fs.heap).fatRoot
    hread.notFree

theorem MountPaths.walked {q d : Word}
    (hpaths : MountPaths t destination source q d v)
    (h : MountStrings s task t destination type source) (hheap : HeapInv s.fs.heap)
    (hpool : 0 < s.fs.heap.poolStart.toNat) (htree : TreeHeld s nodes)
    (hlookups : v.lookups = t.lookups) :
    SameVolumes t v ∧ (d = 0 ∨ d ∈ nodes) := by
  rcases hpaths with ⟨a, hsource, hdestination⟩
  rcases h.read hheap with ⟨hread, hchars⟩
  have hpoolT : 0 < t.fs.heap.poolStart.toNat := by
    rw [hread.pool]
    exact hpool
  have hfirst := getNodeForPath_counted hsource
  have hsecond := getNodeForPath_counted hdestination
  have htreeT := h.held hheap htree
  have hta := walked_of_ok hread.heap hpoolT htreeT hread.chars h.source_short hsource
    (by omega)
  have htreeA := hta.2.held htreeT
  have hav := walked_of_ok (hta.2.heapInv hread.heap) (hta.2.pool hpoolT) htreeA hchars
    h.destination_short hdestination (by omega)
  exact ⟨hta.2.trans hav.2, htreeA.walk_mem htreeA.root hav.1⟩

end Mounts

/-!
# Two mounts of a file system of no known type
-/

end Fs
end Rmmtos
