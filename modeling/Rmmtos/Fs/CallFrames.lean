import Rmmtos.Fs.FileFrames
import Rmmtos.Fs.SystemCalls
import Rmmtos.Kernel.Segments

/-!
# What a call leaves alone

A call of the current task writes to the kernel, to the screen and to the
program of the task.  It does not move a task to another segment, end one or
begin one, and only the stack pointer of the current task changes.
-/

namespace Rmmtos
namespace Fs

open Library Kernel

/-- An address that a call of the current task does not write to. -/
structure OutOfReach (k : KernelState) (a : Nat) : Prop where
  kernel : OutsideKernel a
  screen : forall off, a ≠ linear screenSegment off
  program : forall off, a ≠ linear (k.task k.currentTask).segment off

structure CallKept (k k' : KernelState) : Prop where
  taskList : k'.taskList = k.taskList
  currentTask : k'.currentTask = k.currentTask
  segmentBitmap : k'.segmentBitmap = k.segmentBitmap
  segment : forall p, (k'.task p).segment = (k.task p).segment
  live : forall p, k'.Live p <-> k.Live p
  userSp : forall p, p ≠ k.currentTask -> (k'.task p).userSp = (k.task p).userSp
  mem : forall a, OutOfReach k a -> k'.mem a = k.mem a

section Kept

variable {k k' k'' : KernelState}

theorem CallKept.refl (k : KernelState) : CallKept k k :=
  ⟨rfl, rfl, rfl, fun _ => rfl, fun _ => Iff.rfl, fun _ _ => rfl, fun _ _ => rfl⟩

theorem CallKept.outOfReach (h : CallKept k k') {a : Nat} (ha : OutOfReach k a) :
    OutOfReach k' a := by
  refine ⟨ha.kernel, ha.screen, ?_⟩
  rw [h.currentTask, h.segment]
  exact ha.program

theorem CallKept.trans (h : CallKept k k') (h' : CallKept k' k'') :
    CallKept k k'' where
  taskList := h'.taskList.trans h.taskList
  currentTask := h'.currentTask.trans h.currentTask
  segmentBitmap := h'.segmentBitmap.trans h.segmentBitmap
  segment p := (h'.segment p).trans (h.segment p)
  live p := (h'.live p).trans (h.live p)
  userSp p hp :=
    (h'.userSp p fun heq => hp (heq.trans h.currentTask)).trans (h.userSp p hp)
  mem a ha := (h'.mem a (h.outOfReach ha)).trans (h.mem a ha)

theorem kept_parts {fs : FsState} {m : Mem} {table : Word -> Nat -> Word}
    (h : forall a, OutOfReach k a -> m a = k.mem a) :
    CallKept k { k with fs := fs, mem := m, handleTable := table } :=
  ⟨rfl, rfl, rfl, fun _ => rfl, fun _ => Iff.rfl, fun _ _ => rfl, h⟩

theorem kept_fs (k : KernelState) (fs : FsState) : CallKept k { k with fs := fs } :=
  kept_parts fun _ _ => rfl

theorem kept_mem {m : Mem} (h : forall a, OutOfReach k a -> m a = k.mem a) :
    CallKept k { k with mem := m } :=
  kept_parts h

theorem kept_entry (k : KernelState) (table : Word) (i : Nat) (handle : Word) :
    CallKept k (k.setEntry table i handle) :=
  kept_parts fun _ _ => rfl

/-- A record changes, but not in the segment of its task, and not in the stack
pointer of another task. -/
theorem kept_setTask {p : Word} {t : Task}
    (hsegment : t.segment = (k.task p).segment)
    (hlive : t.state ≠ .exited <-> k.Live p)
    (hsp : p ≠ k.currentTask -> t.userSp = (k.task p).userSp) :
    CallKept k (k.setTask p t) := by
  have hcase : forall q, ((k.setTask p t).task q).segment = (k.task q).segment ∧
      ((k.setTask p t).Live q <-> k.Live q) ∧
      (q ≠ k.currentTask -> ((k.setTask p t).task q).userSp = (k.task q).userSp) := by
    intro q
    unfold KernelState.Live
    by_cases hq : q = p
    · subst hq
      rw [setTask_self]
      exact ⟨hsegment, hlive, hsp⟩
    · rw [setTask_other _ _ _ hq]
      exact ⟨rfl, Iff.rfl, fun _ => rfl⟩
  exact ⟨rfl, rfl, rfl, fun q => (hcase q).1, fun q => (hcase q).2.1,
    fun q => (hcase q).2.2, fun _ _ => rfl⟩

theorem kept_setState {p : Word} {st : TaskState} (hlive : k.Live p)
    (hst : st ≠ .exited) : CallKept k (k.setState p st) :=
  kept_setTask rfl (iff_of_true hst hlive) fun _ => rfl

theorem kept_malloc {size p : Word} (hrun : k.malloc size = .ok (p, k')) :
    CallKept k k' := by
  rcases ok_bind_iff.mp hrun with ⟨r, _, hr⟩
  cases hr
  exact kept_fs k r.2

theorem kept_free {p : Word} (hrun : k.free p = .ok k') : CallKept k k' := by
  rcases ok_bind_iff.mp hrun with ⟨fs, _, hr⟩
  cases hr
  exact kept_fs k fs

/-!
# Tasks
-/

theorem kept_setWakeup {task ms : Word} (hrun : k.setWakeup task ms = .ok k') :
    CallKept k k' := by
  rcases setWakeup_eq hrun with ⟨p, k₁, queue, hmalloc, _, rfl⟩
  exact (kept_malloc hmalloc).trans ⟨rfl, rfl, rfl, fun _ => rfl,
    fun _ => Iff.rfl, fun _ _ => rfl, fun _ _ => rfl⟩

theorem kept_irqSetWakeup {task : Word} {irq : Nat}
    (hrun : irqSetWakeup k task irq = .ok k') : CallKept k k' := by
  rcases irqSetWakeup_eq hrun with ⟨p, k₁, hmalloc, _, rfl⟩
  exact (kept_malloc hmalloc).trans ⟨rfl, rfl, rfl, fun _ => rfl,
    fun _ => Iff.rfl, fun _ _ => rfl, fun _ _ => rfl⟩

theorem kept_setWaiting (target task : Word) :
    CallKept k (setWaiting k target task) := by
  unfold setWaiting
  split
  · exact kept_setTask rfl Iff.rfl fun _ => rfl
  · exact CallKept.refl k

theorem kept_addHandle {p handle id : Word}
    (hrun : taskAddHandle k p handle = .ok (id, k')) : CallKept k k' := by
  unfold taskAddHandle at hrun
  dsimp only at hrun
  split at hrun
  · cases hrun
    exact kept_entry ..
  · rcases ok_bind_iff.mp hrun with ⟨⟨newTable, k₁⟩, hmalloc, hrun⟩
    dsimp only at hrun
    split at hrun
    · cases hrun
      exact kept_malloc hmalloc
    · have hgrown : CallKept k (growTable k₁ newTable (k.task p).handles
          (k.task p).handleCount.toNat) :=
        (kept_malloc hmalloc).trans (kept_parts fun _ _ => rfl)
      have hadded : forall k₂ : KernelState, CallKept k k₂ -> CallKept k
          ((k₂.setTask p { k₂.task p with
            handles := newTable
            handleCount := BitVec.ofNat 8 ((k.task p).handleCount.toNat + 5)
            }).setEntry newTable (k.task p).handleCount.toNat handle) := by
        intro k₂ h₂
        refine (h₂.trans (kept_setTask ?_ ?_ ?_)).trans (kept_entry ..)
        · rfl
        · exact Iff.rfl
        · exact fun _ => rfl
      split at hrun
      · rcases ok_bind_iff.mp hrun with ⟨k₂, hfree, hrun⟩
        cases hrun
        exact hadded k₂ (hgrown.trans (kept_free hfree))
      · cases hrun
        exact hadded _ hgrown

theorem kept_removeHandle (p id : Word) : CallKept k (taskRemoveHandle k p id) := by
  unfold taskRemoveHandle
  split
  · exact kept_entry ..
  · exact CallKept.refl k

theorem kept_openNode {p node mode : Word}
    (hrun : openNode k p node mode = .ok k') : CallKept k k' := by
  rcases ok_bind_iff.mp hrun with ⟨⟨handle, fs⟩, _, hrun⟩
  dsimp only at hrun
  split at hrun
  · cases hrun
    exact kept_fs k fs
  · rcases ok_bind_iff.mp hrun with ⟨r, hadd, hr⟩
    cases hr
    exact (kept_fs k fs).trans (kept_addHandle hadd)

theorem kept_setRegister (reg value : Word) :
    CallKept k (taskSetRegister k k.currentTask reg value) :=
  kept_mem fun _ ha => pokew_other (ha.program _) (ha.program _)

end Kept

/-!
# Reads and lookups
-/

theorem FilesOnly.kept {s t : VfsState} (h : FilesOnly s t) :
    CallKept s.toKernelState t.toKernelState := by
  rcases h.kernel with ⟨fs, hfs⟩
  rw [hfs]
  exact kept_fs s.toKernelState fs


theorem kept_frame : DeviceState.ReadFrame
    (fun s t => CallKept s.toKernelState t.toKernelState) where
  refl s := CallKept.refl s.toKernelState
  trans := CallKept.trans
  position s _ _ := kept_fs s.toKernelState _
  lookup s := CallKept.refl s.toKernelState
  block := by
    intro handle buffer size s word bytes s' hrun
    rcases ok_bind_iff.mp hrun with ⟨r, hread, hr⟩
    cases hr
    refine kept_parts fun a ha => ?_
    exact blockfileRead_outside (s := s.blockState) ha.kernel hread
  keyb := by
    intro handle buffer size s word bytes s' hrun
    cases hrun
    exact CallKept.refl s.toKernelState

section Paths

variable {s t : PathState}

theorem onFs_kept {x : Result (α × FsState)} {r : α}
    (hrun : (x >>= fun r => .ok (r.1, { s with fs := r.2 })) = .ok (r, t)) :
    CallKept s.toKernelState t.toKernelState := by
  rcases ok_bind_iff.mp hrun with ⟨y, _, hy⟩
  cases hy
  exact kept_fs s.toKernelState y.2

theorem onFs_kept_unit {x : Result FsState}
    (hrun : (x >>= fun fs => .ok { s with fs := fs }) = .ok t) :
    CallKept s.toKernelState t.toKernelState := by
  rcases ok_bind_iff.mp hrun with ⟨fs, _, hr⟩
  cases hr
  exact kept_fs s.toKernelState fs

theorem path_malloc_kept {size p : Word} (hrun : s.malloc size = .ok (p, t)) :
    CallKept s.toKernelState t.toKernelState :=
  onFs_kept hrun

theorem path_free_kept {p : Word} (hrun : s.free p = .ok t) :
    CallKept s.toKernelState t.toKernelState :=
  onFs_kept_unit hrun

theorem path_findNode_kept {handle p : Word} {name : Bytes}
    (hrun : s.directoryFindNode handle name = .ok (p, t)) :
    CallKept s.toKernelState t.toKernelState := by
  rcases ok_bind_iff.mp hrun with ⟨r, hfind, hr⟩
  cases hr
  exact (findNode_only hfind).kept

theorem path_getNextNode_kept {handle currentNode p : Word}
    (hrun : s.directoryGetNextNode handle currentNode = .ok (p, t)) :
    CallKept s.toKernelState t.toKernelState := by
  rcases ok_bind_iff.mp hrun with ⟨r, hnext, hr⟩
  cases hr
  exact (getNextNode_only hnext).kept

theorem kernelStore_kept {k : KernelState} {m : Mem} {off : Nat -> Word}
    {value : Nat -> Byte} {n : Nat}
    (h : m = writeRun (fun i => linear kernelSegment (off i)) value n k.mem) :
    CallKept k { k with mem := m } := by
  refine kept_mem fun a ha => ?_
  rw [h]
  exact writeRun_other fun i _ => ha.kernel _

theorem cutPath_outside {m m' : Mem} {p : Word} {a : Nat} (ha : OutsideKernel a)
    (hrun : cutPath m p = .ok m') : m' a = m a := by
  rcases ok_bind_iff.mp hrun with ⟨x, hloop, hx⟩
  cases hx
  refine (whileLoop_invariant (I := fun x : Word × Mem => x.2 a = m a) ?_
    hloop rfl).1
  intro x y hx _ hturn
  cases hturn
  dsimp only
  split
  · exact (poke_other (ha _)).trans hx
  · exact hx

theorem startResolve_kept {path : List Byte} {p : Word}
    (hrun : vfsStartResolve s path = .ok (p, t)) :
    CallKept s.toKernelState t.toKernelState := by
  rcases ok_bind_iff.mp hrun with ⟨⟨resolution, s₁⟩, hmalloc, hrun⟩
  refine (path_malloc_kept hmalloc).trans ?_
  dsimp only at hrun
  split at hrun
  · cases hrun
    exact CallKept.refl _
  · rcases ok_bind_iff.mp hrun with ⟨⟨pathCopy, s₂⟩, hmalloc₂, hrun⟩
    refine (path_malloc_kept hmalloc₂).trans ?_
    have hcopied : CallKept s₂.toKernelState
        { s₂.toKernelState with mem := strcpy s₂.mem pathCopy path } :=
      kernelStore_kept rfl
    refine hcopied.trans ?_
    dsimp only at hrun
    split at hrun
    · rcases ok_bind_iff.mp hrun with ⟨s₃, hfree, hrun⟩
      cases hrun
      exact path_free_kept hfree
    · rcases ok_bind_iff.mp hrun with ⟨mem, hcut, hrun⟩
      cases hrun
      exact kept_mem fun a ha => cutPath_outside ha.kernel hcut

theorem retryResolution_kept {resolution : Word} {status : ResolutionStatus}
    (hrun : vfsRetryResolution s resolution = .ok (status, t)) :
    CallKept s.toKernelState t.toKernelState := by
  unfold vfsRetryResolution at hrun
  dsimp only at hrun
  split at hrun
  · cases hrun
    exact CallKept.refl _
  · split at hrun
    · rcases ok_bind_iff.mp hrun with ⟨⟨handle, s₁⟩, hopen, hrun⟩
      refine (onFs_kept hopen).trans ?_
      dsimp only at hrun
      split at hrun
      · rcases ok_bind_iff.mp hrun with ⟨⟨node, s₂⟩, hfind, hrun⟩
        rcases ok_bind_iff.mp hrun with ⟨s₃, hclose, hrun⟩
        refine ((path_findNode_kept hfind).trans (onFs_kept_unit hclose)).trans ?_
        dsimp only at hrun
        split at hrun
        all_goals
          cases hrun
          exact CallKept.refl _
      · cases hrun
        exact CallKept.refl _
    · cases hrun
      exact CallKept.refl _

theorem advanceResolution_kept {resolution : Word} {status : ResolutionStatus}
    (hrun : vfsAdvanceResolution s resolution = .ok (status, t)) :
    CallKept s.toKernelState t.toKernelState := by
  rcases ok_bind_iff.mp hrun with ⟨part, _, hrun⟩
  dsimp only at hrun
  split at hrun
  · cases hrun
    exact CallKept.refl _
  · have hretry := retryResolution_kept hrun
    exact hretry

theorem getNodeForPath_kept {path : List Byte} {p : Word}
    (hrun : vfsGetNodeForPath s path = .ok (p, t)) :
    CallKept s.toKernelState t.toKernelState := by
  rcases ok_bind_iff.mp hrun with ⟨⟨resolution, s₁⟩, hstart, hrun⟩
  rcases ok_bind_iff.mp hrun with ⟨⟨status, s₂⟩, hloop, hrun⟩
  rcases ok_bind_iff.mp hrun with ⟨s₃, hfree, hrun⟩
  rcases ok_bind_iff.mp hfree with ⟨s₄, hpath, hrest⟩
  cases hrun
  have hresolved : CallKept s₁.toKernelState s₂.toKernelState := by
    refine (whileLoop_invariant (I := fun x : ResolutionStatus × PathState =>
      CallKept s₁.toKernelState x.2.toKernelState) ?_ hloop (CallKept.refl _)).1
    intro x y hx _ hturn
    exact hx.trans (advanceResolution_kept hturn)
  exact (((startResolve_kept hstart).trans hresolved).trans
    (path_free_kept hpath)).trans (path_free_kept hrest)

end Paths

end Fs
end Rmmtos
