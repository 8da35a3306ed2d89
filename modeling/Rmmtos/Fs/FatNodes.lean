import Rmmtos.Fs.FatScan
import Rmmtos.Kernel.Ownership

/-!
# Nodes made from entries

What the FAT driver leaves when it makes a node: one new block, filled from the
entry, and everything that was there before as it was.
-/

namespace Rmmtos
namespace Fs

open Library Kernel

/-!
# The heap under the file systems
-/

section Heap

variable {s : VfsState} {live : List Word} {n p : Word} {h : Heap}

def VfsState.withHeap (s : VfsState) (h : Heap) : VfsState :=
  { s with fs := { s.fs with heap := h } }

theorem vfs_malloc_ok (hrun : Kernel.malloc s.fs.heap n = .ok (p, h)) :
    s.malloc n = .ok (p, s.withHeap h) := by
  unfold VfsState.malloc FsState.malloc
  rw [hrun]
  rfl

theorem vfs_malloc_panic (hrun : Kernel.malloc s.fs.heap n = panic .outOfMem) :
    s.malloc n = panic .outOfMem := by
  unfold VfsState.malloc FsState.malloc
  rw [hrun]
  rfl

theorem vfs_free_ok (hrun : Kernel.free s.fs.heap p = .ok h) :
    s.free p = .ok (s.withHeap h) := by
  unfold VfsState.free FsState.free
  rw [hrun]
  rfl

end Heap

/-!
# A new node
-/

/-- Everything at the addresses that are in use stays as it is. -/
structure VfsFrame (live : List Word) (s s' : VfsState) : Prop where
  node : forall a, a ∈ live ∨ a = 0 -> s'.fs.node a = s.fs.node a
  fatFile : forall a, a ∈ live ∨ a = 0 -> s'.fatFile a = s.fatFile a
  fatRoot : forall a, a ∈ live ∨ a = 0 -> s'.fatRoot a = s.fatRoot a
  handle : s'.fs.handle = s.fs.handle
  content : s'.content = s.content

structure Created (s : VfsState) (live : List Word) (directory : Word)
    (entry : DirectoryEntry) (position : Uint64) (q : Word) (s' : VfsState) :
    Prop where
  fresh : q ∉ live
  owns : Owns s'.fs.heap (q :: live)
  file : exists junk, s'.fatFile q =
    ⟨directory, position, nameFromFat entry.name junk⟩
  node : (s'.fs.node q).next = 0 ∧
    (s'.fs.node q).name = cString fatNameSize (s'.fatFile q).name
  isFile : asks (s'.fs.node q).flags directoryFlag = false
  frame : VfsFrame live s s'

section Create

variable {s : VfsState} {live : List Word}

def createdFile (s : VfsState) (h : Heap) (p : Word) (name : List Byte)
    (flags : Word) (ops : FileOps) : VfsState :=
  { s with
    fs := nodeAcquire (nodeInit { s.fs with heap := h } p name
      (fileFlag ||| (flags &&& attributeMask))) p
    fileOps := Function.update s.fileOps p ops }

theorem fileCreateNode_ok {p : Word} {h : Heap} (name : List Byte)
    (flags : Word) (ops : FileOps) (hp : p ≠ 0)
    (hrun : Kernel.malloc s.fs.heap fileSize = .ok (p, h)) :
    fileCreateNode s name flags ops =
      .ok (p, createdFile s h p name flags ops) := by
  unfold fileCreateNode
  rw [vfs_malloc_ok hrun, ok_bind]
  dsimp only
  rw [if_pos hp]
  rfl

def movedNode (s : VfsState) (h : Heap) (p q : Word) : VfsState :=
  { s with
    fs := { s.fs.setNode q (s.fs.node p) with heap := h }
    fileOps := Function.update s.fileOps q (s.fileOps p)
    fatRoot := Function.update s.fatRoot q (s.fatRoot p)
    fatFile := Function.update s.fatFile q (s.fatFile p) }

theorem reallocNode_ok {p q n : Word} {h h' : Heap} (hq : q ≠ 0)
    (hmalloc : Kernel.malloc s.fs.heap n = .ok (q, h))
    (hfree : Kernel.free h p = .ok h') :
    reallocNode s p n = .ok (q, movedNode s h' p q) := by
  unfold reallocNode
  rw [vfs_malloc_ok hmalloc, ok_bind]
  dsimp only
  rw [if_neg hq, vfs_free_ok (h := h') hfree, ok_bind]
  rfl

theorem fatCreateNode_cases (hs : Owns s.fs.heap live) (directory : Word)
    (entry : DirectoryEntry) (position : Uint64) :
    fatCreateNode s directory entry position = panic .outOfMem ∨
      exists q s', fatCreateNode s directory entry position = .ok (q, s') ∧
        Created s live directory entry position q s' := by
  unfold fatCreateNode
  rcases hs.malloc_cases fileSize with hpanic | ⟨p, h, hmalloc, hp, howns⟩
  · left
    unfold fileCreateNode
    rw [vfs_malloc_panic hpanic]
    rfl
  have hp0 := howns.ne_zero List.mem_cons_self
  rw [fileCreateNode_ok [] 0 .fat hp0 hmalloc, ok_bind]
  generalize hs₁ : createdFile s h p [] 0 .fat = s₁
  have hheap₁ : s₁.fs.heap = h := by
    rw [← hs₁]
    rfl
  rw [← hheap₁] at howns
  rcases howns.malloc_cases fatFileSize with hpanic | ⟨q, h₁, hmalloc₁, hq, howns₁⟩
  · left
    unfold reallocNode
    dsimp only
    rw [vfs_malloc_panic hpanic]
    rfl
  have hq0 := howns₁.ne_zero List.mem_cons_self
  have hqp : q ≠ p := fun heq => hq (heq ▸ List.mem_cons_self)
  have hqlive : q ∉ live := fun hmem => hq (List.mem_cons_of_mem p hmem)
  rcases howns₁.free (List.mem_cons_of_mem q List.mem_cons_self) with
    ⟨h₂, hfree, howns₂⟩
  have herase : (q :: p :: live).erase p = q :: live := by
    rw [List.erase_cons_tail (by simpa using hqp), List.erase_cons_head]
  rw [herase] at howns₂
  right
  dsimp only
  rw [reallocNode_ok hq0 hmalloc₁ hfree, ok_bind]
  dsimp only
  refine ⟨_, _, rfl, hqlive, howns₂, ⟨_, Function.update_self ..⟩, ?_, ?_, ?_⟩
  · subst hs₁
    simp [VfsState.setNode, movedNode, FsState.setNode, createdFile,
      nodeAcquire, nodeInit]
  · have hfile : asks (fileFlag ||| (0 &&& attributeMask)) directoryFlag = false := by
      decide
    subst hs₁
    simpa [VfsState.setNode, movedNode, FsState.setNode, createdFile,
      nodeAcquire, nodeInit] using hfile
  · have hne : forall a, a ∈ live ∨ a = 0 -> a ≠ q ∧ a ≠ p := by
      rintro a (ha | rfl)
      · exact ⟨fun heq => hqlive (heq ▸ ha), fun heq => hp (heq ▸ ha)⟩
      · exact ⟨hq0.symm, hp0.symm⟩
    subst hs₁
    refine ⟨?_, ?_, ?_, rfl, rfl⟩
    · intro a ha
      simp [VfsState.setNode, movedNode, FsState.setNode, createdFile,
        nodeAcquire, nodeInit, (hne a ha).1, (hne a ha).2]
    · intro a ha
      simp [VfsState.setNode, movedNode, createdFile, (hne a ha).1]
    · intro a ha
      simp [VfsState.setNode, movedNode, createdFile, (hne a ha).1]

theorem fatLoadNode_cases (hs : Owns s.fs.heap live) (directory : Word)
    (wanted : Bytes -> Bool) (position : Uint64) {image : Bytes}
    {root : FatGeometry} (hroot : (s.fatRoot directory).geometry = root)
    (himage : s.content (s.fs.handle (s.fatRoot directory).handle).node = image)
    (hend : root.rootEnd.toNat < 2 ^ 32)
    (hstart : position.toNat < root.rootEnd.toNat + 64) :
    (exists moved, (forall k, ¬ FirstEntry image root wanted position.toNat k) ∧
      fatLoadNode s directory wanted position =
        .ok (0, s.setPosition (s.fatRoot directory).handle moved)) ∨
    exists k, FirstEntry image root wanted position.toNat k ∧
      (fatLoadNode s directory wanted position = panic .outOfMem ∨
        exists q s' place moved,
          fatLoadNode s directory wanted position = .ok (q, s') ∧
          place.toNat = position.toNat + 32 * k ∧
          Created (s.setPosition (s.fatRoot directory).handle moved) live
            directory (entryAt image (position.toNat + 32 * k)) place q s') := by
  subst hroot himage
  rcases scanEntries_eq (s.fatRoot directory).geometry wanted
    (s.volume (s.fatRoot directory).handle) position hend hstart with
    ⟨x, hrun, hfound | hnone⟩
  · rcases hfound with ⟨k, hfirst, hentry, hplace⟩
    refine Or.inr ⟨k, hfirst, ?_⟩
    have hmoved : Owns (s.setPosition (s.fatRoot directory).handle
        x.volume.position).fs.heap live := hs
    unfold fatLoadNode
    dsimp only
    rw [hrun, ok_bind]
    simp only [hentry]
    rcases fatCreateNode_cases hmoved directory _ x.position with
      hpanic | ⟨q, s', hcreate, hq⟩
    · exact Or.inl hpanic
    · exact Or.inr ⟨q, s', _, _, hcreate, hplace, hq⟩
  · refine Or.inl ⟨x.volume.position, hnone.2, ?_⟩
    unfold fatLoadNode
    dsimp only
    rw [hrun, ok_bind]
    simp only [hnone.1]

end Create

/-!
# Lookups in a directory of a file system
-/

theorem find_in_fat {s : VfsState} {handle dir : Word} {name : Bytes}
    (hmay : mayRead (s.fs.handle handle) = true)
    (hhandle : (s.fs.handle handle).node = dir)
    (hops : (s.fs.node dir).ops = .fatRoot)
    (hfind : findChild s name (s.fs.node dir).child = .ok 0) :
    directoryFindNode s handle name =
      fatRootGetNodeByName s handle name >>= fun r =>
        r.2.addToChildren dir r.1 >>= fun t =>
          if r.1 ≠ 0 then .ok (r.1, { t with fs := nodeAcquire t.fs r.1 })
          else .ok (r.1, t) := by
  unfold directoryFindNode
  dsimp only
  rw [hhandle, hmay, if_neg Bool.noConfusion, hfind, ok_bind, if_pos ⟨rfl, hops⟩]
  cases fatRootGetNodeByName s handle name with
  | error e => rfl
  | ok r => simp only [ok_bind]

end Fs
end Rmmtos
