import Rmmtos.Fs.ReadBounds

/-!
# What reads and lookups leave alone

A read of a file changes buffers, the cache and the positions of handles.  The
trees, the tasks, the handle tables and the handles themselves stay as they are.
A lookup in a directory changes blocks, nodes and handles.
-/

namespace Rmmtos
namespace Fs

open Library Kernel

namespace DeviceState

structure FileKept (s s' : DeviceState) : Prop where
  node : s'.fs.node = s.fs.node
  flags : forall p, (s'.fs.handle p).flags = (s.fs.handle p).flags
  target : forall p, (s'.fs.handle p).node = (s.fs.handle p).node
  task : s'.task = s.task
  taskList : s'.taskList = s.taskList
  handleTable : s'.handleTable = s.handleTable
  vfsRoot : s'.vfsRoot = s.vfsRoot
  devfsRoot : s'.devfsRoot = s.devfsRoot
  fileOps : s'.fileOps = s.fileOps
  fatRoot : s'.fatRoot = s.fatRoot
  fatFile : s'.fatFile = s.fatFile

theorem FileKept.refl (s : DeviceState) : FileKept s s :=
  ⟨rfl, fun _ => rfl, fun _ => rfl, rfl, rfl, rfl, rfl, rfl, rfl, rfl, rfl⟩

theorem FileKept.trans {s s' s'' : DeviceState} (h : FileKept s s')
    (h' : FileKept s' s'') : FileKept s s'' where
  node := h'.node.trans h.node
  flags := fun p => (h'.flags p).trans (h.flags p)
  target := fun p => (h'.target p).trans (h.target p)
  task := h'.task.trans h.task
  taskList := h'.taskList.trans h.taskList
  handleTable := h'.handleTable.trans h.handleTable
  vfsRoot := h'.vfsRoot.trans h.vfsRoot
  devfsRoot := h'.devfsRoot.trans h.devfsRoot
  fileOps := h'.fileOps.trans h.fileOps
  fatRoot := h'.fatRoot.trans h.fatRoot
  fatFile := h'.fatFile.trans h.fatFile

theorem setPosition_kept (s : DeviceState) (handle : Word) (position : Uint64) :
    FileKept s (s.setPosition handle position) := by
  have hfield : forall {α : Type} (f : Handle -> α),
      (forall h : Handle, f { h with position := position } = f h) ->
      forall p, f ((s.setPosition handle position).fs.handle p) =
        f (s.fs.handle p) := by
    intro α f hf p
    change f (Function.update s.fs.handle handle
      { s.fs.handle handle with position := position } p) = _
    cases Decidable.em (p = handle) with
    | inl hp =>
        rw [hp, Function.update_self]
        exact hf _
    | inr hp => rw [Function.update_of_ne hp]
  exact ⟨rfl, hfield Handle.flags fun _ => rfl, hfield Handle.node fun _ => rfl,
    rfl, rfl, rfl, rfl, rfl, rfl, rfl, rfl⟩

theorem blockfileRead_kept : Keeps FileKept blockfileRead := by
  intro handle buffer size s word bytes s' hrun
  rcases ok_bind_iff.mp hrun with ⟨r, _, hr⟩
  cases hr
  have hstate : FileKept s (s.setBlockState r.state) :=
    ⟨rfl, fun _ => rfl, fun _ => rfl, rfl, rfl, rfl, rfl, rfl, rfl, rfl, rfl⟩
  exact hstate.trans (setPosition_kept ..)

theorem keybRead_kept : Keeps FileKept keybRead := by
  intro handle buffer size s word bytes s' hrun
  cases hrun
  exact ⟨rfl, fun _ => rfl, fun _ => rfl, rfl, rfl, rfl, rfl, rfl, rfl, rfl, rfl⟩

theorem fileKept_frame : ReadFrame FileKept where
  refl := FileKept.refl
  trans := FileKept.trans
  position := setPosition_kept
  lookup := fun _ =>
    ⟨rfl, fun _ => rfl, fun _ => rfl, rfl, rfl, rfl, rfl, rfl, rfl, rfl, rfl⟩
  block := blockfileRead_kept
  keyb := keybRead_kept

end DeviceState

/-!
# Lookups
-/

structure FilesOnly (s t : VfsState) : Prop where
  kernel : exists fs, t.toKernelState = { s.toKernelState with fs := fs }
  vfsRoot : t.vfsRoot = s.vfsRoot
  lookups : s.lookups ≤ t.lookups

section Nodes

variable {s t u : VfsState}

theorem FilesOnly.refl (s : VfsState) : FilesOnly s s :=
  ⟨⟨s.fs, rfl⟩, rfl, Nat.le_refl _⟩

theorem FilesOnly.trans (h : FilesOnly s t) (h' : FilesOnly t u) :
    FilesOnly s u := by
  rcases h.kernel with ⟨fs, hfs⟩
  rcases h'.kernel with ⟨fs', hfs'⟩
  refine ⟨⟨fs', ?_⟩, h'.vfsRoot.trans h.vfsRoot, Nat.le_trans h.lookups h'.lookups⟩
  rw [hfs', hfs]

theorem FilesOnly.mem (h : FilesOnly s t) : t.mem = s.mem := by
  rcases h.kernel with ⟨fs, hfs⟩
  have hmem := congrArg KernelState.mem hfs
  exact hmem

theorem vfs_malloc_only {size p : Word} (hrun : s.malloc size = .ok (p, t)) :
    FilesOnly s t := by
  rcases ok_bind_iff.mp hrun with ⟨r, _, hr⟩
  cases hr
  exact ⟨⟨r.2, rfl⟩, rfl, Nat.le_refl _⟩

theorem vfs_free_only {p : Word} (hrun : s.free p = .ok t) : FilesOnly s t := by
  rcases ok_bind_iff.mp hrun with ⟨fs, _, hr⟩
  cases hr
  exact ⟨⟨fs, rfl⟩, rfl, Nat.le_refl _⟩

theorem fileCreateNode_only {name : List Byte} {flags p : Word} {ops : FileOps}
    (hrun : fileCreateNode s name flags ops = .ok (p, t)) : FilesOnly s t := by
  rcases ok_bind_iff.mp hrun with ⟨⟨file, s₁⟩, hmalloc, hrun⟩
  refine (vfs_malloc_only hmalloc).trans ?_
  cases hrun
  split
  · exact ⟨⟨_, rfl⟩, rfl, Nat.le_refl _⟩
  · exact ⟨⟨_, rfl⟩, rfl, Nat.le_refl _⟩

theorem reallocNode_only {p q size : Word}
    (hrun : reallocNode s p size = .ok (q, t)) : FilesOnly s t := by
  rcases ok_bind_iff.mp hrun with ⟨⟨q₁, s₁⟩, hmalloc, hrun⟩
  refine (vfs_malloc_only hmalloc).trans ?_
  dsimp only at hrun
  split at hrun
  · cases hrun
    exact FilesOnly.refl t
  · rcases ok_bind_iff.mp hrun with ⟨s₂, hfree, hrun⟩
    cases hrun
    refine FilesOnly.trans ?_ (vfs_free_only hfree)
    exact ⟨⟨_, rfl⟩, rfl, Nat.le_refl _⟩

theorem fatCreateNode_only {directory p : Word} {entry : DirectoryEntry}
    {position : Uint64}
    (hrun : fatCreateNode s directory entry position = .ok (p, t)) :
    FilesOnly s t := by
  rcases ok_bind_iff.mp hrun with ⟨⟨file, s₁⟩, hcreate, hrun⟩
  rcases ok_bind_iff.mp hrun with ⟨⟨fatFile, s₂⟩, hrealloc, hrun⟩
  cases hrun
  exact ((fileCreateNode_only hcreate).trans (reallocNode_only hrealloc)).trans
    ⟨⟨_, rfl⟩, rfl, Nat.le_refl _⟩

theorem fatLoadNode_only {directory p : Word} {wanted : Bytes -> Bool}
    {position : Uint64}
    (hrun : fatLoadNode s directory wanted position = .ok (p, t)) :
    FilesOnly s t := by
  rcases ok_bind_iff.mp hrun with ⟨x, _, hrun⟩
  have hmoved : FilesOnly s
      (s.setPosition (s.fatRoot directory).handle x.volume.position) := ⟨⟨_, rfl⟩, rfl, Nat.le_refl _⟩
  refine hmoved.trans ?_
  cases hentry : x.entry with
  | none =>
      rw [hentry] at hrun
      cases hrun
      exact FilesOnly.refl _
  | some entry =>
      rw [hentry] at hrun
      exact fatCreateNode_only hrun

theorem addToChildren_only {directory node : Word}
    (hrun : s.addToChildren directory node = .ok t) : FilesOnly s t := by
  rcases ok_bind_iff.mp hrun with ⟨fs, _, hr⟩
  cases hr
  exact ⟨⟨fs, rfl⟩, rfl, Nat.le_refl _⟩

theorem getNextNode_only {handle currentNode p : Word}
    (hrun : directoryGetNextNode s handle currentNode = .ok (p, t)) :
    FilesOnly s t := by
  unfold directoryGetNextNode at hrun
  dsimp only at hrun
  split at hrun
  · cases hrun
  · split at hrun
    · rcases ok_bind_iff.mp hrun with ⟨⟨node, s₁⟩, hload, hrun⟩
      refine (fatLoadNode_only hload).trans ?_
      dsimp only at hrun
      split at hrun
      · rcases ok_bind_iff.mp hrun with ⟨s₂, hadd, hrun⟩
        cases hrun
        exact addToChildren_only hadd
      · cases hrun
        exact FilesOnly.refl t
    all_goals
      split at hrun
      all_goals
        cases hrun
        exact FilesOnly.refl _

theorem findNode_only {handle p : Word} {name : Bytes}
    (hrun : directoryFindNode s handle name = .ok (p, t)) : FilesOnly s t := by
  unfold directoryFindNode at hrun
  dsimp only at hrun
  split at hrun
  · cases hrun
  · rcases ok_bind_iff.mp hrun with ⟨node, _, hrun⟩
    have hacquired : forall {s₁ : VfsState} {node : Word}, FilesOnly s s₁ ->
        (if node ≠ 0 then .ok (node, { s₁ with fs := nodeAcquire s₁.fs node })
          else .ok (node, s₁) : Result (Word × VfsState)) = .ok (p, t) ->
        FilesOnly s t := by
      intro s₁ node h₁ hrun
      split at hrun
      · cases hrun
        exact h₁.trans ⟨⟨_, rfl⟩, rfl, Nat.le_refl _⟩
      · cases hrun
        exact h₁
    split at hrun
    · rcases ok_bind_iff.mp hrun with ⟨⟨node₁, s₁⟩, hfound, hrun⟩
      rcases ok_bind_iff.mp hrun with ⟨s₂, hadd, hrun⟩
      have hlooked : FilesOnly s { s with lookups := s.lookups + 1 } :=
        ⟨⟨_, rfl⟩, rfl, Nat.le_succ _⟩
      exact hacquired ((hlooked.trans (fatLoadNode_only hfound)).trans
        (addToChildren_only hadd)) hrun
    · exact hacquired (FilesOnly.refl s) hrun

end Nodes

end Fs
end Rmmtos
