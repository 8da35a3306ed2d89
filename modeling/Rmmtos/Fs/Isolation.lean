import Rmmtos.Fs.HandlerFrames
import Rmmtos.Fs.PathResolution
import Rmmtos.Kernel.HeapCalls
import Rmmtos.Kernel.Switch

/-!
# Isolation

No task reaches into the program of another one.  Whatever the other tasks do,
a task that is taken off the processor gets its segment, its stack and its
registers back as it left them.
-/

namespace Rmmtos
namespace Fs

open Library Kernel

/-!
# What a step does
-/

/-- Memory, segments and stacks stay, and the current task is again one of the
list. -/
structure Quiet (k k' : KernelState) : Prop where
  taskList : k'.taskList = k.taskList
  currentTask : k.currentTask ∈ k.taskList -> k'.currentTask ∈ k.taskList
  segmentBitmap : k'.segmentBitmap = k.segmentBitmap
  segment : forall p, (k'.task p).segment = (k.task p).segment
  live : forall p, k'.Live p <-> k.Live p
  userSp : forall p, (k'.task p).userSp = (k.task p).userSp
  mem : k'.mem = k.mem

section Quiet

variable {k k' k'' : KernelState}

theorem Quiet.refl (k : KernelState) : Quiet k k :=
  ⟨rfl, id, rfl, fun _ => rfl, fun _ => Iff.rfl, fun _ => rfl, rfl⟩

theorem Quiet.trans (h : Quiet k k') (h' : Quiet k' k'') : Quiet k k'' where
  taskList := h'.taskList.trans h.taskList
  currentTask hk := by
    have hmiddle := h.currentTask hk
    rw [← h.taskList] at hmiddle ⊢
    exact h'.currentTask hmiddle
  segmentBitmap := h'.segmentBitmap.trans h.segmentBitmap
  segment p := (h'.segment p).trans (h.segment p)
  live p := (h'.live p).trans (h.live p)
  userSp p := (h'.userSp p).trans (h.userSp p)
  mem := h'.mem.trans h.mem

theorem quiet_fs (k : KernelState) (fs : FsState) : Quiet k { k with fs := fs } :=
  ⟨rfl, id, rfl, fun _ => rfl, fun _ => Iff.rfl, fun _ => rfl, rfl⟩

theorem quiet_setState {p : Word} {st : TaskState} (hlive : k.Live p)
    (hst : st ≠ .exited) : Quiet k (k.setState p st) := by
  have hkept := kept_setState hlive hst
  refine ⟨rfl, id, rfl, hkept.segment, hkept.live, fun q => ?_, rfl⟩
  unfold KernelState.setState
  by_cases hq : q = p
  · rw [hq, setTask_self]
  · rw [setTask_other _ _ _ hq]

theorem quiet_free {p : Word} (hrun : k.free p = .ok k') : Quiet k k' := by
  rcases ok_bind_iff.mp hrun with ⟨fs, _, hr⟩
  cases hr
  exact quiet_fs k fs

theorem quiet_wakeup {p : Word} (hrun : taskWakeup p k = .ok k') :
    Quiet k k' := by
  rcases taskWakeup_eq hrun with ⟨hlive, st, hst, rfl⟩
  exact quiet_setState hlive hst

theorem quiet_tick (hrun : k.clockTick = .ok k') : Quiet k k' := by
  rcases ok_bind_iff.mp hrun with ⟨r, htick, hr⟩
  rcases ok_bind_iff.mp htick with ⟨⟨queue, k₁⟩, hwake, htick⟩
  cases htick
  cases hr
  have hend : Quiet k k₁ := wakeDue_invariant (c := kernelCalls)
    (I := fun _ t => Quiet k t) ?_ (fun _ _ _ _ h => h) hwake (Quiet.refl k)
  · exact hend.trans ⟨rfl, id, rfl, fun _ => rfl, fun _ => Iff.rfl,
      fun _ => rfl, rfl⟩
  · intro a rest t t₁ t₂ ht hwake hfree
    exact (ht.trans (quiet_wakeup hwake)).trans (quiet_free hfree)

theorem quiet_irq {irq : Nat} (hrun : irqResumeWaitingTasks k irq = .ok k') :
    Quiet k k' := by
  rcases ok_bind_iff.mp hrun with ⟨k₁, hresume, hr⟩
  cases hr
  have hend : Quiet k k₁ := resumeTasks_invariant
    (I := fun _ t => Quiet k t) ?_ hresume (Quiet.refl k)
  · exact hend.trans ⟨rfl, id, rfl, fun _ => rfl, fun _ => Iff.rfl,
      fun _ => rfl, rfl⟩
  · intro w rest t t₁ t₂ ht hwake hfree
    exact (ht.trans (quiet_wakeup hwake)).trans (quiet_free hfree)

theorem quiet_switch {p : Word} (hp : p ∈ k.taskList) :
    Quiet k { k with currentTask := p } :=
  ⟨rfl, fun _ => hp, rfl, fun _ => rfl, fun _ => Iff.rfl, fun _ => rfl, rfl⟩

theorem quiet_schedule (hcurrent : k.currentTask ∈ k.taskList)
    (hrun : taskSchedule k = .ok k') : Quiet k k' := by
  have hnext := taskSchedule_current hcurrent hrun
  rcases taskSchedule_eq hrun with rfl | ⟨p, rfl⟩
  · exact Quiet.refl k'
  · exact quiet_switch hnext

theorem quiet_sleep (hcurrent : k.currentTask ∈ k.taskList)
    (hlive : k.Live k.currentTask) (hrun : taskSleep k k.currentTask = .ok k') :
    Quiet k k' := by
  rcases taskSleep_eq hlive hrun with ⟨st, hst, hschedule⟩
  exact (quiet_setState hlive hst).trans (quiet_schedule hcurrent hschedule)

theorem quiet_wakeWaiting {p : Word} (hrun : wakeWaiting k p = .ok k') :
    Quiet k k' := by
  unfold wakeWaiting at hrun
  split at hrun
  · exact quiet_wakeup hrun
  · cases hrun
    exact Quiet.refl k

end Quiet

theorem interruptStep_quiet {s s' : CallState}
    (h : CallState.InterruptStep s s') :
    Quiet s.toKernelState s'.toKernelState := by
  cases h with
  | tick hrun => exact quiet_tick hrun
  | irq hrun => exact quiet_irq hrun
  | key _ => exact Quiet.refl _

structure TaskGone (k k' : KernelState) : Prop where
  taskList : k'.taskList = k.taskList
  currentTask : k'.currentTask = k.currentTask
  segmentBitmap : k'.segmentBitmap =
    freeSegment k.segmentBitmap (k.task k.currentTask).segment
  exited : ¬ k'.Live k.currentTask
  segment : forall p, (k'.task p).segment = (k.task p).segment
  other : forall p, p ≠ k.currentTask -> k'.task p = k.task p
  mem : k'.mem = k.mem

section TaskGone

variable {k k' k'' : KernelState}

def TablesOnly (k k' : KernelState) : Prop :=
  exists fs table, k' = { k with fs := fs, handleTable := table }

theorem TablesOnly.trans (h : TablesOnly k k') (h' : TablesOnly k' k'') :
    TablesOnly k k'' := by
  rcases h with ⟨fs, table, rfl⟩
  rcases h' with ⟨fs', table', rfl⟩
  exact ⟨fs', table', rfl⟩

theorem free_tables {p : Word} (hrun : k.free p = .ok k') : TablesOnly k k' := by
  rcases ok_bind_iff.mp hrun with ⟨fs, _, hr⟩
  cases hr
  exact ⟨fs, _, rfl⟩

theorem closeEntry_tables {table : Word} {i : Nat}
    (hrun : closeEntry table k i = .ok k') : TablesOnly k k' := by
  unfold closeEntry at hrun
  dsimp only at hrun
  split at hrun
  · cases hrun
    exact ⟨_, _, rfl⟩
  · split at hrun
    · rcases ok_bind_iff.mp hrun with ⟨fs, _, hr⟩
      cases hr
      exact ⟨fs, _, rfl⟩
    · split at hrun
      · rcases ok_bind_iff.mp hrun with ⟨fs, _, hr⟩
        cases hr
        exact ⟨fs, _, rfl⟩
      · cases hrun
        exact ⟨_, _, rfl⟩

theorem closeEntries_tables {table : Word} {n : Nat}
    (hrun : closeEntries table k n = .ok k') : TablesOnly k k' :=
  foldlM_invariant (I := fun t => TablesOnly k t)
    (fun _ _ _ _ ht hclose => ht.trans (closeEntry_tables hclose)) hrun
    ⟨_, _, rfl⟩

theorem releaseTask_released
    (hrun : releaseTask k k.currentTask = .ok k') : TaskGone k k' := by
  rcases ok_bind_iff.mp hrun with ⟨k₁, hentries, hrun⟩
  rcases ok_bind_iff.mp hrun with ⟨k₂, htable, hrun⟩
  rcases ok_bind_iff.mp hrun with ⟨k₃, hstack, hr⟩
  cases hr
  rcases (closeEntries_tables hentries).trans (free_tables htable) with
    ⟨fs, table, rfl⟩
  rcases free_tables hstack with ⟨fs', table', rfl⟩
  refine ⟨rfl, rfl, rfl, ?_, fun p => ?_, fun p hp => ?_, rfl⟩
  · unfold KernelState.Live
    rw [setTask_self]
    simp [KernelState.setTask]
  · by_cases hp : p = k.currentTask
    · rw [hp, setTask_self]
      simp [KernelState.setTask]
    · rw [setTask_other _ _ _ hp]
      simp [KernelState.setTask, Function.update_of_ne hp]
  · rw [setTask_other _ _ _ hp]
    simp [KernelState.setTask, Function.update_of_ne hp]

end TaskGone

structure TaskAdded (k k' : KernelState) (p : Word) (i : Nat) : Prop where
  index : i < 8
  free : byteBit k.segmentBitmap i = false
  taskList : k'.taskList = p :: k.taskList
  currentTask : k'.currentTask = k.currentTask
  segmentBitmap : k'.segmentBitmap = k.segmentBitmap ||| byteMask i
  segment : (k'.task p).segment = segmentOf i
  live : k'.Live p <-> k.Live k.currentTask
  other : forall q, q ≠ p -> k'.task q = k.task q
  mem : forall a, OutsideKernel a -> (forall off, a ≠ linear (segmentOf i) off) ->
    k'.mem a = k.mem a

theorem fork_added {k k' : KernelState} {segment : Word}
    (hrun : fork k = .ok (segment, k')) : exists p i, TaskAdded k k' p i := by
  rcases fork_eq hrun with
    ⟨p, stack, k₁, k₂, htask, hstack, hsegment, hne, _, rfl⟩
  rw [← hsegment] at hne
  rcases allocateSegment_spec _ hne with ⟨i, hi, hfree, hallocate⟩
  rw [hallocate] at hsegment
  have hsame := (kernel_malloc_sameTasks htask).trans
    (kernel_malloc_sameTasks hstack)
  have hsegments := congrArg (fun r => r.2) hallocate
  refine ⟨p, i, hi, hfree, rfl, ?_, hsegments, ?_, ?_, fun q hq => ?_,
    fun a ha hout => ?_⟩
  · exact hsame.currentTask
  · rw [setTask_self, forkTask_segment, ← hsegment]
  · unfold KernelState.Live
    rw [setTask_self, forkTask_state]
  · rw [setTask_other _ _ _ hq]
    exact congrFun hsame.task q
  · rw [← hsegment]
    exact forkMem_other hout fun j _ => ha _

/-- What the current task does before another one may be chosen. -/
inductive Acts (k k' : KernelState) : Prop where
  | kept : CallKept k k' -> Acts k k'
  | forked {k₁ : KernelState} {p : Word} {i : Nat} : TaskAdded k k₁ p i ->
      CallKept k₁ k' -> Acts k k'
  | released : TaskGone k k' -> Acts k k'

section Calls

variable {s s' : CallState} {b : CallBounds}

/-- A handler that works for the current task keeps what is not the task's, or
it is the one that makes a task. -/
def HandlerActs (handler : CallState.Handler) : Prop :=
  forall s r, handler s.currentTask s = .ok r ->
    CallKept s.toKernelState r.2.toKernelState ∨
      exists p i, TaskAdded s.toKernelState r.2.toKernelState p i

theorem onFiles_acts {f : Word -> PathState -> Result (Word × PathState)}
    (hf : forall (s : PathState) (r : Word) (t : PathState),
      f s.currentTask s = .ok (r, t) ->
      CallKept s.toKernelState t.toKernelState) :
    HandlerActs (CallState.onFiles f) := by
  intro s r hrun
  rcases ok_bind_iff.mp hrun with ⟨⟨word, t⟩, hcall, hr⟩
  cases hr
  exact Or.inl (hf _ _ _ hcall)

theorem syscallTable_returns {handler : CallState.Handler}
    (h : .returns handler ∈ CallState.syscallTable b) : HandlerActs handler := by
  have hread : KeepsCalls (CallState.readOp b) := fileRead_kept_calls b.turns b.depth
  simp only [CallState.syscallTable, List.mem_cons, CallState.Entry.returns.injEq,
    reduceCtorEq, false_or, List.not_mem_nil, or_false] at h
  rcases h with rfl | rfl | rfl | rfl | rfl | rfl | rfl | rfl | rfl | rfl | rfl | rfl
  · intro s r hrun
    cases hrun
    exact Or.inl (CallKept.refl _)
  · exact onFiles_acts fun _ _ _ hrun => sysOpenFile_kept hrun
  · exact onFiles_acts fun _ _ _ hrun => sysCloseFile_kept hrun
  · exact onFiles_acts fun _ _ _ hrun => sysReadFile_kept hread hrun
  · intro s r hrun
    rcases ok_bind_iff.mp hrun with ⟨⟨word, console, t⟩, hcall, hr⟩
    cases hr
    exact Or.inl (sysWriteFile_kept hcall)
  · exact onFiles_acts fun _ _ _ hrun => sysSeek_kept hrun
  · intro s r hrun
    cases hrun
    exact Or.inl (CallKept.refl _)
  · exact onFiles_acts fun _ _ _ hrun => sysMount_kept hread hrun
  · exact onFiles_acts fun _ _ _ hrun => sysUnmount_kept hrun
  · intro s r hrun
    rcases ok_bind_iff.mp hrun with ⟨⟨word, k⟩, hcall, hr⟩
    cases hr
    exact Or.inr (fork_added hcall)
  · exact onFiles_acts fun _ _ _ hrun => sysExec_kept hread rfl hrun
  · intro s r hrun
    cases hrun
    exact Or.inl (CallKept.refl _)

theorem syscallTable_sleeps
    {handler : KernelState -> Word -> Result KernelState}
    (h : .sleeps handler ∈ CallState.syscallTable b) {k k' : KernelState}
    (hcurrent : k.currentTask ∈ k.taskList) (hlive : k.Live k.currentTask)
    (hrun : handler k k.currentTask = .ok k') :
    exists k₁, CallKept k k₁ ∧ Quiet k₁ k' := by
  have hsleeps : forall k₁, CallKept k k₁ ->
      taskSleep k₁ k.currentTask = .ok k' -> CallKept k k₁ ∧ Quiet k₁ k' := by
    intro k₁ hkept hsleep
    rw [← hkept.currentTask] at hsleep hcurrent hlive
    rw [← hkept.taskList] at hcurrent
    exact ⟨hkept, quiet_sleep hcurrent ((hkept.live _).mpr hlive) hsleep⟩
  simp only [CallState.syscallTable, List.mem_cons, CallState.Entry.sleeps.injEq,
    reduceCtorEq, false_or, List.not_mem_nil, or_false] at h
  rcases h with rfl | rfl
  · rcases ok_bind_iff.mp hrun with ⟨k₁, hwakeup, hsleep⟩
    exact ⟨k₁, hsleeps k₁ (kept_setWakeup hwakeup) hsleep⟩
  · exact ⟨_, hsleeps _ (kept_setWaiting _ _) hrun⟩

theorem syscallFunc_acts (hcurrent : s.currentTask ∈ s.taskList)
    (hlive : s.Live s.currentTask)
    (hrun : CallState.syscallFunc b s = .ok s') :
    exists k, Acts s.toKernelState k ∧ Quiet k s'.toKernelState := by
  unfold CallState.syscallFunc at hrun
  dsimp only at hrun
  split at hrun
  · next handler hentry =>
      rcases ok_bind_iff.mp hrun with ⟨⟨word, t⟩, hcall, hr⟩
      cases hr
      refine ⟨_, ?_, Quiet.refl _⟩
      have hstored : CallKept t.toKernelState (t.setResult word).toKernelState :=
        kept_setRegister regAX word
      rcases syscallTable_returns (List.mem_of_getElem? hentry) _ _ hcall with
        hkept | ⟨p, i, hforked⟩
      · exact .kept (hkept.trans hstored)
      · exact .forked hforked hstored
  · next handler hentry =>
      rcases ok_bind_iff.mp hrun with ⟨k, hcall, hr⟩
      cases hr
      rcases syscallTable_sleeps (List.mem_of_getElem? hentry) hcurrent hlive hcall
        with ⟨k₁, hkept, hquiet⟩
      exact ⟨k₁, .kept hkept, hquiet⟩
  · cases hrun
    exact ⟨_, .kept (kept_setRegister regAX 0xffff), Quiet.refl _⟩

theorem kernelStep_acts {k k' : KernelState} (hcurrent : k.currentTask ∈ k.taskList)
    (h : KernelStep k k') :
    Quiet k k' ∨ Running k ∧ exists k₁, Acts k k₁ ∧ Quiet k₁ k' := by
  have hacts : Running k -> Acts k k' ->
      Quiet k k' ∨ Running k ∧ exists k₁, Acts k k₁ ∧ Quiet k₁ k' :=
    fun hrunning hk => Or.inr ⟨hrunning, k', hk, Quiet.refl k'⟩
  cases h with
  | user hrunning hmem =>
      refine hacts hrunning (.kept ?_)
      exact (kept_mem fun a ha => hmem a ha.program).trans
        (kept_setTask rfl Iff.rfl fun hne => absurd rfl hne)
  | fork hrunning hrun =>
      rcases fork_added hrun with ⟨p, i, hforked⟩
      exact hacts hrunning (.forked hforked (CallKept.refl k'))
  | exit hrunning hrun =>
      rcases ok_bind_iff.mp hrun with ⟨k₁, hrelease, hrun⟩
      rcases ok_bind_iff.mp hrun with ⟨k₂, hwake, hschedule⟩
      have hreleased := releaseTask_released hrelease
      have hquiet := quiet_wakeWaiting hwake
      have hcurrent₁ : k₁.currentTask ∈ k₁.taskList := by
        rw [hreleased.currentTask, hreleased.taskList]
        exact hcurrent
      have hcurrent₂ : k₂.currentTask ∈ k₂.taskList := by
        rw [hquiet.taskList]
        exact hquiet.currentTask hcurrent₁
      exact Or.inr ⟨hrunning, k₁, .released hreleased,
        hquiet.trans (quiet_schedule hcurrent₂ hschedule)⟩
  | sleep hrunning hrun =>
      exact Or.inl (quiet_sleep hcurrent hrunning.live hrun)
  | setWakeup hrunning hrun => exact hacts hrunning (.kept (kept_setWakeup hrun))
  | irqSetWakeup hrunning hrun =>
      exact hacts hrunning (.kept (kept_irqSetWakeup hrun))
  | waitFor hrunning _ => exact hacts hrunning (.kept (kept_setWaiting _ _))
  | openNode hrunning hrun => exact hacts hrunning (.kept (kept_openNode hrun))
  | tick hrun => exact Or.inl (quiet_tick hrun)
  | irq hrun => exact Or.inl (quiet_irq hrun)
  | schedule hrun => exact Or.inl (quiet_schedule hcurrent hrun)
  | dispatch hp _ => exact Or.inl (quiet_switch hp)

theorem callStep_acts (hcurrent : s.currentTask ∈ s.taskList)
    (h : CallState.CallStep s s') :
    Quiet s.toKernelState s'.toKernelState ∨ Running s.toKernelState ∧
      exists k, Acts s.toKernelState k ∧ Quiet k s'.toKernelState := by
  cases h with
  | kernel h => exact kernelStep_acts hcurrent h
  | call b hrunning hrun =>
      exact Or.inr ⟨hrunning, syscallFunc_acts hcurrent hrunning.live hrun⟩
  | awake result hrunning =>
      exact Or.inr ⟨hrunning, _, .kept (kept_setRegister regAX result),
        Quiet.refl _⟩
  | interrupt h => exact Or.inl (interruptStep_quiet h)

end Calls

/-!
# The segments of the tasks
-/

/-- Every live task of the list has a segment of its own, with its bit set. -/
structure SegmentsHeld (k : KernelState) : Prop where
  current : k.currentTask ∈ k.taskList
  segments : forall p, p ∈ k.taskList ->
    exists i, i < 8 ∧ (k.task p).segment = segmentOf i
  bits : forall p i, p ∈ k.taskList -> k.Live p -> i < 8 ->
    (k.task p).segment = segmentOf i -> byteBit k.segmentBitmap i = true
  apart : forall p q, p ∈ k.taskList -> k.Live p -> q ∈ k.taskList -> k.Live q ->
    (k.task p).segment = (k.task q).segment -> p = q

section Held

variable {k k' : KernelState} {p t : Word} {i j : Nat}

theorem SegmentsHeld.same (hk : SegmentsHeld k)
    (hlist : k'.taskList = k.taskList) (hcurrent : k'.currentTask ∈ k.taskList)
    (hbitmap : k'.segmentBitmap = k.segmentBitmap)
    (hsegment : forall p, (k'.task p).segment = (k.task p).segment)
    (hlive : forall p, k'.Live p <-> k.Live p) : SegmentsHeld k' := by
  refine ⟨hlist ▸ hcurrent, fun p hp => ?_, fun p i hp hlivep hi hseg => ?_,
    fun p q hp hlivep hq hliveq hseg => ?_⟩
  · rw [hsegment]
    exact hk.segments p (hlist ▸ hp)
  · rw [hbitmap]
    rw [hsegment] at hseg
    exact hk.bits p i (hlist ▸ hp) ((hlive p).mp hlivep) hi hseg
  · rw [hsegment, hsegment] at hseg
    exact hk.apart p q (hlist ▸ hp) ((hlive p).mp hlivep) (hlist ▸ hq)
      ((hlive q).mp hliveq) hseg

theorem SegmentsHeld.quiet (hk : SegmentsHeld k) (h : Quiet k k') :
    SegmentsHeld k' :=
  hk.same h.taskList (h.currentTask hk.current) h.segmentBitmap h.segment h.live

theorem SegmentsHeld.kept (hk : SegmentsHeld k) (h : CallKept k k') :
    SegmentsHeld k' :=
  hk.same h.taskList (h.currentTask ▸ hk.current) h.segmentBitmap h.segment h.live

theorem SegmentsHeld.forked (hk : SegmentsHeld k) (h : TaskAdded k k' p i) :
    SegmentsHeld k' := by
  have hold : forall q, q ∈ k'.taskList -> q ≠ p -> q ∈ k.taskList := by
    intro q hq hne
    rw [h.taskList] at hq
    exact (List.mem_cons.mp hq).resolve_left hne
  have hlive : forall q, q ≠ p -> (k'.Live q <-> k.Live q) := by
    intro q hne
    unfold KernelState.Live
    rw [h.other q hne]
  have hbit : forall q j, q ∈ k'.taskList -> q ≠ p -> k'.Live q -> j < 8 ->
      (k'.task q).segment = segmentOf j -> byteBit k.segmentBitmap j = true := by
    intro q j hq hne hliveq hj hseg
    rw [h.other q hne] at hseg
    exact hk.bits q j (hold q hq hne) ((hlive q hne).mp hliveq) hj hseg
  -- The bit of the new segment was clear, so no other live task has it.
  have hnew : forall q, q ∈ k'.taskList -> k'.Live q ->
      (k'.task q).segment = segmentOf i -> q = p := by
    intro q hq hliveq hseg
    by_contra hne
    have hset := hbit q i hq hne hliveq h.index hseg
    rw [h.free] at hset
    cases hset
  refine ⟨?_, fun q hq => ?_, fun q j hq hliveq hj hseg => ?_,
    fun q r hq hliveq hr hliver hseg => ?_⟩
  · rw [h.currentTask, h.taskList]
    exact List.mem_cons_of_mem p hk.current
  · by_cases hne : q = p
    · rw [hne, h.segment]
      exact ⟨i, h.index, rfl⟩
    · rw [h.other q hne]
      exact hk.segments q (hold q hq hne)
  · rw [h.segmentBitmap, byteBit_or_byteMask hj h.index, Bool.or_eq_true,
      decide_eq_true_iff]
    by_cases hne : q = p
    · rw [hne, h.segment] at hseg
      exact Or.inr (segmentOf_injective hj h.index hseg.symm)
    · exact Or.inl (hbit q j hq hne hliveq hj hseg)
  · by_cases hq' : q = p
    · subst hq'
      rw [h.segment] at hseg
      exact (hnew r hr hliver hseg.symm).symm
    · by_cases hr' : r = p
      · subst hr'
        rw [h.segment] at hseg
        exact hnew q hq hliveq hseg
      · rw [h.other q hq', h.other r hr'] at hseg
        exact hk.apart q r (hold q hq hq') ((hlive q hq').mp hliveq)
          (hold r hr hr') ((hlive r hr').mp hliver) hseg

theorem TaskGone.live (h : TaskGone k k') {q : Word} (hq : k'.Live q) :
    q ≠ k.currentTask ∧ k.Live q := by
  have hne : q ≠ k.currentTask := fun heq => h.exited (heq ▸ hq)
  unfold KernelState.Live at hq ⊢
  rw [h.other q hne] at hq
  exact ⟨hne, hq⟩

theorem TaskGone.bit (h : TaskGone k k') (hj : j < 8) (hi : i < 8)
    (hseg : (k.task k.currentTask).segment = segmentOf j) (hne : i ≠ j)
    (hbit : byteBit k.segmentBitmap i = true) :
    byteBit k'.segmentBitmap i = true := by
  rw [h.segmentBitmap, hseg, freeSegment_segmentOf _ hj,
    byteBit_and_not_byteMask hi hj, hbit, Bool.true_and, Bool.not_eq_true',
    decide_eq_false_iff_not]
  exact hne

theorem SegmentsHeld.released (hk : SegmentsHeld k) (hlive : k.Live k.currentTask)
    (h : TaskGone k k') : SegmentsHeld k' := by
  refine ⟨?_, fun q hq => ?_, fun q j hq hliveq hj hseg => ?_,
    fun q r hq hliveq hr hliver hseg => ?_⟩
  · rw [h.currentTask, h.taskList]
    exact hk.current
  · rw [h.segment]
    exact hk.segments q (h.taskList ▸ hq)
  · rw [h.segment] at hseg
    rw [h.taskList] at hq
    rcases h.live hliveq with ⟨hne, hliveq⟩
    rcases hk.segments _ hk.current with ⟨l, hl, hsegl⟩
    refine h.bit hl hj hsegl ?_ (hk.bits q j hq hliveq hj hseg)
    intro hjl
    rw [hjl, ← hsegl] at hseg
    exact hne (hk.apart q _ hq hliveq hk.current hlive hseg)
  · rw [h.segment, h.segment] at hseg
    rw [h.taskList] at hq hr
    exact hk.apart q r hq (h.live hliveq).2 hr (h.live hliver).2 hseg

theorem SegmentsHeld.acts (hk : SegmentsHeld k) (hlive : k.Live k.currentTask)
    (h : Acts k k') : SegmentsHeld k' := by
  cases h with
  | kept h => exact hk.kept h
  | forked h h' => exact (hk.forked h).kept h'
  | released h => exact hk.released hlive h

theorem callStep_held {s s' : CallState} (hs : SegmentsHeld s.toKernelState)
    (h : CallState.CallStep s s') : SegmentsHeld s'.toKernelState := by
  rcases callStep_acts hs.current h with hquiet | ⟨hrunning, k, hacts, hquiet⟩
  · exact hs.quiet hquiet
  · exact (hs.acts hrunning.live hacts).quiet hquiet

theorem begun_held {s : CallState} (hs : CallState.Begun s) :
    SegmentsHeld s.toKernelState := by
  have hsegments := Started.segments hs
  refine ⟨(Started.inv hs).current, hsegments.segments, ?_, ?_⟩
  · intro p i hp hlive hi hseg
    exact (hsegments.bits i hi).mpr ⟨p, hp, hlive, hseg⟩
  · intro p q hp hlivep hq hliveq hseg
    by_contra hne
    exact hsegments.distinct hp hlivep hq hliveq hne hseg

end Held

/-!
# A task that does not run
-/

/-- Steps that the task itself does not take: those of another task, interrupts,
and choices of the next task. -/
inductive StepOfOthers (t : Word) : CallState -> CallState -> Prop where
  | other {s s' : CallState} : s.currentTask ≠ t -> CallState.CallStep s s' ->
      StepOfOthers t s s'
  | interrupt {s s' : CallState} : CallState.InterruptStep s s' ->
      StepOfOthers t s s'
  | schedule {s : CallState} {k : KernelState} :
      taskSchedule s.toKernelState = .ok k ->
      StepOfOthers t s { s with toKernelState := k }
  | dispatch {s : CallState} {p : Word} : p ∈ s.taskList -> s.Live p ->
      StepOfOthers t s
        { s with toKernelState := { s.toKernelState with currentTask := p } }

/-- Between the two states a task's segment is its own and has not changed.  Its
record has not changed either, unless the heap has given it away. -/
structure Undisturbed (t : Word) (i : Nat) (k k' : KernelState) : Prop where
  bit : byteBit k'.segmentBitmap i = true
  only : forall q, q ∈ k'.taskList -> k'.Live q ->
    (k'.task q).segment = segmentOf i -> q = t
  mem : forall off, k'.mem (linear (segmentOf i) off) = k.mem (linear (segmentOf i) off)
  listed : t ∈ k'.taskList
  record : k'.taskList.Nodup -> k'.Live t ∧ (k'.task t).segment = segmentOf i ∧
    (k'.task t).userSp = (k.task t).userSp

section Undisturbed

variable {k k' k'' : KernelState} {t p : Word} {i j : Nat}

theorem segmentOf_outside (hi : i < 8) (off : Word) :
    OutsideKernel (linear (segmentOf i) off) := by
  intro off' heq
  have hoff' := off'.isLt
  rw [linear_segmentOf hi, linear_kernelSegment] at heq
  omega

theorem segmentOf_screen (hi : i < 8) (off off' : Word) :
    linear (segmentOf i) off ≠ linear screenSegment off' := by
  have hoff := off.isLt
  rw [linear_segmentOf hi]
  unfold linear screenSegment
  have hoff' := off'.isLt
  rw [show (0xb800 : Word).toNat = 0xb800 from rfl, Nat.mod_eq_of_lt (by omega)]
  omega

theorem segmentOf_apart (hi : i < 8) (hj : j < 8) (hne : i ≠ j) (off off' : Word) :
    linear (segmentOf i) off ≠ linear (segmentOf j) off' := by
  have hoff := off.isLt
  have hoff' := off'.isLt
  rw [linear_segmentOf hi, linear_segmentOf hj]
  omega

theorem Undisturbed.away (h : Undisturbed t i k k') (hk : SegmentsHeld k')
    (hne : k'.currentTask ≠ t) (hlive : k'.Live k'.currentTask) :
    exists j, j < 8 ∧ j ≠ i ∧ (k'.task k'.currentTask).segment = segmentOf j := by
  rcases hk.segments _ hk.current with ⟨j, hj, hseg⟩
  refine ⟨j, hj, fun heq => ?_, hseg⟩
  rw [heq] at hseg
  exact hne (h.only _ hk.current hlive hseg)

theorem Undisturbed.same (h : Undisturbed t i k k')
    (hlist : k''.taskList = k'.taskList)
    (hbitmap : k''.segmentBitmap = k'.segmentBitmap)
    (hsegment : forall p, (k''.task p).segment = (k'.task p).segment)
    (hlive : forall p, k''.Live p <-> k'.Live p)
    (huserSp : (k''.task t).userSp = (k'.task t).userSp)
    (hmem : forall off, k''.mem (linear (segmentOf i) off) =
      k'.mem (linear (segmentOf i) off)) : Undisturbed t i k k'' := by
  refine ⟨?_, fun q hq hliveq hseg => ?_, fun off => ?_, ?_, fun hnodup => ?_⟩
  · rw [hbitmap]
    exact h.bit
  · rw [hsegment] at hseg
    exact h.only q (hlist ▸ hq) ((hlive q).mp hliveq) hseg
  · rw [hmem, h.mem]
  · rw [hlist]
    exact h.listed
  · rw [hlist] at hnodup
    rcases h.record hnodup with ⟨hlivet, hseg, hsp⟩
    exact ⟨(hlive t).mpr hlivet, (hsegment t).trans hseg, huserSp.trans hsp⟩

theorem Undisturbed.quiet (h : Undisturbed t i k k') (hq : Quiet k' k'') :
    Undisturbed t i k k'' := by
  refine h.same hq.taskList hq.segmentBitmap hq.segment hq.live (hq.userSp t) ?_
  intro off
  rw [hq.mem]

theorem Undisturbed.kept (h : Undisturbed t i k k') (hi : i < 8)
    (hk : SegmentsHeld k') (hne : k'.currentTask ≠ t)
    (hlive : k'.Live k'.currentTask) (hkept : CallKept k' k'') :
    Undisturbed t i k k'' := by
  rcases h.away hk hne hlive with ⟨j, hj, hji, hseg⟩
  refine h.same hkept.taskList hkept.segmentBitmap hkept.segment hkept.live
    (hkept.userSp t hne.symm) fun off => hkept.mem _ ?_
  refine ⟨segmentOf_outside hi off, segmentOf_screen hi off, fun off' => ?_⟩
  rw [hseg]
  exact segmentOf_apart hi hj hji.symm off off'

theorem Undisturbed.forked (h : Undisturbed t i k k') (hi : i < 8)
    (hfork : TaskAdded k' k'' p j) : Undisturbed t i k k'' := by
  have hji : i ≠ j := by
    intro heq
    have hfree := hfork.free
    rw [← heq, h.bit] at hfree
    cases hfree
  refine ⟨?_, fun q hq hliveq hseg => ?_, fun off => ?_, ?_, fun hnodup => ?_⟩
  · rw [hfork.segmentBitmap, byteBit_or_byteMask hi hfork.index, h.bit]
    rfl
  · rw [hfork.taskList] at hq
    by_cases hqp : q = p
    · rw [hqp, hfork.segment] at hseg
      exact absurd (segmentOf_injective hi hfork.index hseg.symm) hji
    · unfold KernelState.Live at hliveq
      rw [hfork.other q hqp] at hliveq hseg
      exact h.only q ((List.mem_cons.mp hq).resolve_left hqp) hliveq hseg
  · rw [hfork.mem _ (segmentOf_outside hi off)
      (segmentOf_apart hi hfork.index hji off), h.mem]
  · rw [hfork.taskList]
    exact List.mem_cons_of_mem p h.listed
  · rw [hfork.taskList, List.nodup_cons] at hnodup
    have htp : t ≠ p := fun heq => hnodup.1 (heq ▸ h.listed)
    unfold KernelState.Live
    rw [hfork.other t htp]
    exact h.record hnodup.2

theorem Undisturbed.released (h : Undisturbed t i k k') (hi : i < 8)
    (hk : SegmentsHeld k') (hne : k'.currentTask ≠ t)
    (hlive : k'.Live k'.currentTask) (hreleased : TaskGone k' k'') :
    Undisturbed t i k k'' := by
  rcases h.away hk hne hlive with ⟨j, hj, hji, hseg⟩
  refine ⟨hreleased.bit hj hi hseg hji.symm h.bit, fun q hq hliveq hsegq => ?_,
    fun off => ?_, ?_, fun hnodup => ?_⟩
  · rw [hreleased.taskList] at hq
    rw [hreleased.segment] at hsegq
    exact h.only q hq (hreleased.live hliveq).2 hsegq
  · rw [hreleased.mem, h.mem]
  · rw [hreleased.taskList]
    exact h.listed
  · rw [hreleased.taskList] at hnodup
    unfold KernelState.Live
    rw [hreleased.other t hne.symm]
    exact h.record hnodup

theorem Undisturbed.acts (h : Undisturbed t i k k') (hi : i < 8)
    (hk : SegmentsHeld k') (hne : k'.currentTask ≠ t)
    (hlive : k'.Live k'.currentTask) (hacts : Acts k' k'') :
    Undisturbed t i k k'' := by
  cases hacts with
  | kept hkept => exact h.kept hi hk hne hlive hkept
  | @forked k₁ p j hfork hkept =>
      have hne₁ : k₁.currentTask ≠ t := hfork.currentTask ▸ hne
      have hlive₁ : k₁.Live k₁.currentTask := by
        rw [hfork.currentTask]
        by_cases hp : k'.currentTask = p
        · rw [hp]
          exact hfork.live.mpr hlive
        · unfold KernelState.Live
          rw [hfork.other _ hp]
          exact hlive
      exact (h.forked hi hfork).kept hi (hk.forked hfork) hne₁ hlive₁ hkept
  | released hreleased => exact h.released hi hk hne hlive hreleased

theorem undisturbed_refl (hk : SegmentsHeld k) (ht : t ∈ k.taskList)
    (hlive : k.Live t) (hi : i < 8) (hseg : (k.task t).segment = segmentOf i) :
    Undisturbed t i k k := by
  refine ⟨hk.bits t i ht hlive hi hseg, fun q hq hliveq hsegq => ?_, fun _ => rfl,
    ht, fun _ => ⟨hlive, hseg, rfl⟩⟩
  exact hk.apart q t hq hliveq ht hlive (hsegq.trans hseg.symm)

theorem StepOfOthers.callStep {s s' : CallState} (h : StepOfOthers t s s') :
    CallState.CallStep s s' := by
  cases h with
  | other _ hstep => exact hstep
  | interrupt hstep => exact .interrupt hstep
  | schedule hrun => exact .kernel (.schedule hrun)
  | dispatch hp hlive => exact .kernel (.dispatch hp hlive)

theorem Undisturbed.step {s s' : CallState} (h : Undisturbed t i k s.toKernelState)
    (hi : i < 8) (hs : SegmentsHeld s.toKernelState) (hstep : StepOfOthers t s s') :
    Undisturbed t i k s'.toKernelState := by
  cases hstep with
  | other hne hstep =>
      rcases callStep_acts hs.current hstep with
        hquiet | ⟨hrunning, k₁, hacts, hquiet⟩
      · exact h.quiet hquiet
      · exact (h.acts hi hs hne hrunning.live hacts).quiet hquiet
  | interrupt hstep => exact h.quiet (interruptStep_quiet hstep)
  | schedule hrun => exact h.quiet (quiet_schedule hs.current hrun)
  | dispatch hp _ => exact h.quiet (quiet_switch hp)

theorem undisturbed_run {s s' : CallState} (hs : SegmentsHeld s.toKernelState)
    (ht : t ∈ s.taskList) (hlive : s.Live t) (hi : i < 8)
    (hseg : (s.task t).segment = segmentOf i)
    (hrun : Relation.ReflTransGen (StepOfOthers t) s s') :
    SegmentsHeld s'.toKernelState ∧
      Undisturbed t i s.toKernelState s'.toKernelState := by
  induction hrun with
  | refl => exact ⟨hs, undisturbed_refl hs ht hlive hi hseg⟩
  | tail _ hstep ih =>
      rcases ih with ⟨hheld, hundisturbed⟩
      exact ⟨callStep_held hheld hstep.callStep, hundisturbed.step hi hheld hstep⟩

end Undisturbed

/-!
# Blocks with one user

A read across two blocks may free the buffer of a slot that keeps it.  The next
block that the kernel needs for a task is then one that later reads write over.
-/

/-- A node of the tree, or the node of an open handle. -/
inductive NodeInUse (s : CallState) : Word -> Prop where
  | root : NodeInUse s s.vfsRoot
  | devices : NodeInUse s s.devfsRoot
  | handle {x p : Word} {i : Nat} : Uses s.toKernelState x (.handle p i) ->
      NodeInUse s (s.fs.handle x).node
  | child {p : Word} : NodeInUse s p -> (s.fs.node p).child ≠ 0 ->
      NodeInUse s (s.fs.node p).child
  | next {p : Word} : NodeInUse s p -> (s.fs.node p).next ≠ 0 ->
      NodeInUse s (s.fs.node p).next
  | redirect {p : Word} : NodeInUse s p -> (s.fs.node p).redirect ≠ 0 ->
      NodeInUse s (s.fs.node p).redirect

/-- What the tasks, the nodes and the slots of the cache use are different
blocks, and none of them is free. -/
structure BlocksOwned (label : Word -> Option Owner) (s : CallState) : Prop where
  kernel : KernelOwned s.toKernelState label
  nodes : forall p, NodeInUse s p -> label p = none
  live : forall i, (s.cachedBlock i).buffer ≠ 0 ->
    s.fs.heap.Live (s.cachedBlock i).buffer
  unlabelled : forall i, (s.cachedBlock i).buffer ≠ 0 ->
    label (s.cachedBlock i).buffer = none
  noNode : forall i, (s.cachedBlock i).buffer ≠ 0 ->
    ¬ NodeInUse s (s.cachedBlock i).buffer
  distinct : forall i j, (s.cachedBlock i).buffer ≠ 0 ->
    (s.cachedBlock i).buffer = (s.cachedBlock j).buffer -> i = j

def OwnedOnce (s : CallState) : Prop :=
  exists label, BlocksOwned label s

/-- A step to a state in which no block has two users. -/
def KeepsOwned (step : CallState -> CallState -> Prop) (s s' : CallState) : Prop :=
  step s s' ∧ OwnedOnce s'

/-- What a task finds when it runs again. -/
structure ComesBack (t : Word) (s s' : CallState) : Prop where
  memory : forall off, s'.mem (linear (s.task t).segment off) =
    s.mem (linear (s.task t).segment off)
  owner : forall q, q ∈ s'.taskList -> s'.Live q ->
    (s'.task q).segment = (s.task t).segment -> q = t
  listed : t ∈ s'.taskList
  live : s'.Live t
  segment : (s'.task t).segment = (s.task t).segment
  userSp : (s'.task t).userSp = (s.task t).userSp
  registers : forall reg, taskGetRegister s'.toKernelState t reg =
    taskGetRegister s.toKernelState t reg

/-- Whatever system calls the others make, in any order and with any interrupts
between them, a task that does not run keeps its program and its registers, as
long as no block gets a second user. -/
theorem task_comes_back {s s' : CallState} {t : Word}
    (hs : Reachable (fun s => CallState.Begun s ∧ OwnedOnce s)
      (KeepsOwned CallState.CallStep) s) (ht : t ∈ s.taskList) (hlive : s.Live t)
    (hrun : Relation.ReflTransGen (KeepsOwned (StepOfOthers t)) s s') :
    ComesBack t s s' := by
  have hheld : SegmentsHeld s.toKernelState :=
    hs.invariant (I := fun s => SegmentsHeld s.toKernelState)
      (fun _ hs => begun_held hs.1) (fun _ _ hs h => callStep_held hs h.1)
  have howned : OwnedOnce s := hs.invariant (I := OwnedOnce)
    (fun _ hs => hs.2) (fun _ _ _ h => h.2)
  have howned' : OwnedOnce s' := by
    cases hrun with
    | refl => exact howned
    | tail _ hstep => exact hstep.2
  rcases howned' with ⟨label, howned'⟩
  rcases hheld.segments t ht with ⟨i, hi, hseg⟩
  have hsteps : Relation.ReflTransGen (StepOfOthers t) s s' :=
    Relation.ReflTransGen.mono (fun _ _ h => h.1) _ _ hrun
  rcases undisturbed_run hheld ht hlive hi hseg hsteps with ⟨_, hend⟩
  rcases hend.record howned'.kernel.tasks_nodup with ⟨hlive', hseg', hsp⟩
  refine ⟨?_, ?_, hend.listed, hlive', hseg'.trans hseg.symm, hsp, fun reg => ?_⟩
  · rw [hseg]
    exact hend.mem
  · rw [hseg]
    exact hend.only
  · unfold taskGetRegister peekw peek
    rw [hseg', hseg, hsp, hend.mem, hend.mem]

theorem no_owner_of_low {k : KernelState} {label : Word -> Option Owner}
    (h : KernelOwned k label) {p : Word}
    (hp : p.toNat < k.fs.heap.poolStart.toNat) : label p = none := by
  cases hlabel : label p with
  | none => rfl
  | some o =>
      rcases h.owned.taken p o hlabel with ⟨b, hb, rfl, _⟩
      rw [address_toNat h.owned.heap (h.owned.heap.taken_lt b hb)] at hp
      omega

def smallCalls : CallState :=
  { smallPaths with
    toKernelState := smallStart
    console := ⟨0, 0, 0⟩ }

def smallTasks (k : KernelState) : CallState :=
  { smallCalls with toKernelState := k }

theorem smallTasks_owned {k : KernelState} (hkernel : exists label, KernelOwned k label)
    (hnode : k.fs.node = smallBoot.fs.node) (hhandle : k.fs.handle = smallBoot.fs.handle)
    (hpool : k.fs.heap.poolStart = 0x9000) : OwnedOnce (smallTasks k) := by
  rcases hkernel with ⟨label, hkernel⟩
  have hnodes : forall p, NodeInUse (smallTasks k) p -> p = 8 ∨ p = 0 := by
    intro p hp
    cases hp with
    | root => exact Or.inl rfl
    | devices => exact Or.inr rfl
    | @handle x =>
        right
        change (k.fs.handle x).node = 0
        rw [hhandle]
        rfl
    | @child q _ hne =>
        change (k.fs.node q).child ≠ 0 at hne
        rw [hnode] at hne
        exact absurd rfl hne
    | @next q _ hne =>
        change (k.fs.node q).next ≠ 0 at hne
        rw [hnode] at hne
        exact absurd rfl hne
    | @redirect q _ hne =>
        change (k.fs.node q).redirect ≠ 0 at hne
        rw [hnode] at hne
        exact absurd rfl hne
  refine ⟨label, hkernel, fun p hp => ?_, fun _ h => absurd rfl h,
    fun _ h => absurd rfl h, fun _ h => absurd rfl h, fun _ _ h => absurd rfl h⟩
  apply no_owner_of_low hkernel
  rw [hpool]
  rcases hnodes p hp with rfl | rfl <;> decide

theorem smallStart_owned : exists label, KernelOwned smallStart label :=
  taskInit_owned smallBoot_boot rfl

theorem smallFork_owned : exists label, KernelOwned smallFork label := by
  rcases smallStart_owned with ⟨label, howned⟩
  exact howned.fork smallFork_eq

theorem smallForked_reachable :
    Reachable (fun s => CallState.Begun s ∧ OwnedOnce s)
      (KeepsOwned CallState.CallStep) (smallTasks smallFork) := by
  have hstart : CallState.Begun (smallTasks smallStart) := smallStart_started
  have hfork : KernelStep smallStart smallFork := .fork smallStart_running smallFork_eq
  have hstep : CallState.CallStep (smallTasks smallStart) (smallTasks smallFork) :=
    .kernel hfork
  exact (Reachable.start ⟨hstart, smallTasks_owned smallStart_owned rfl rfl rfl⟩).step
    ⟨hstep, smallTasks_owned smallFork_owned rfl rfl rfl⟩

def smallChild : KernelState :=
  { smallFork with currentTask := 0x9200 }

def smallChildRuns : KernelState :=
  userStep smallChild (poke smallChild.mem 0x2050 0 1) 0xff00

theorem smallChildRuns_same : SameBlocks smallFork smallChildRuns where
  heap := rfl
  taskList := rfl
  live p h := by
    by_cases hp : p = 0x9200
    · subst hp
      exact TaskState.noConfusion
    · have hother : smallChildRuns.task p = smallFork.task p := setTask_other _ _ _ hp
      unfold KernelState.Live at h ⊢
      rwa [hother] at h
  stack p := by
    by_cases hp : p = 0x9200
    · subst hp
      rfl
    · exact congrArg Task.stack (setTask_other _ _ _ hp)
  handles p := by
    by_cases hp : p = 0x9200
    · subst hp
      rfl
    · exact congrArg Task.handles (setTask_other _ _ _ hp)
  handleCount p := by
    by_cases hp : p = 0x9200
    · subst hp
      rfl
    · exact congrArg Task.handleCount (setTask_other _ _ _ hp)
  handleTable := rfl
  alarms := rfl
  irqEvents := rfl

theorem first_task_comes_back : ComesBack 0x9000 (smallTasks smallFork)
    (smallTasks smallChildRuns) := by
  have hlive : (smallTasks smallFork).Live 0x9000 := TaskState.noConfusion
  have hchild : smallFork.Live 0x9200 := TaskState.noConfusion
  rcases smallFork_owned with ⟨label, howned⟩
  have hdispatch : StepOfOthers 0x9000 (smallTasks smallFork) (smallTasks smallChild) :=
    .dispatch (by decide +kernel) hchild
  have hother : (0x9200 : Word) ≠ 0x9000 := by decide
  have hmem : OnlySegment smallChild.mem (poke smallChild.mem 0x2050 0 1)
      (smallChild.task smallChild.currentTask).segment :=
    fun x hx => poke_other (hx 0)
  have hruns : StepOfOthers 0x9000 (smallTasks smallChild)
      (smallTasks smallChildRuns) :=
    .other hother (.kernel (.user (Or.inl (by decide +kernel)) hmem))
  have hchildOwned : KernelOwned smallChild label :=
    howned.same ⟨rfl, rfl, fun _ h => h, fun _ => rfl, fun _ => rfl, fun _ => rfl,
      rfl, rfl, rfl⟩
  refine task_comes_back smallForked_reachable (by decide +kernel) hlive
    ((Relation.ReflTransGen.single ⟨hdispatch, ?_⟩).tail ⟨hruns, ?_⟩)
  · exact smallTasks_owned ⟨label, howned.same smallChildRuns_same⟩ rfl rfl rfl
  · exact smallTasks_owned ⟨label, hchildOwned⟩ rfl rfl rfl

end Fs
end Rmmtos
