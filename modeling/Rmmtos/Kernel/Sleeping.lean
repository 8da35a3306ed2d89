import Rmmtos.Kernel.WakeSources

/-!
# Sleeping tasks

A task that sleeps should have a source that can still wake it.  The kernel
keeps it so as long as no task waits for the end of a task that cannot be found,
that has exited, or that another task waits for already.
-/

namespace Rmmtos
namespace Kernel

open Library Fs

/-!
# Operations

A system call registers its source and goes to sleep in one step.
-/

inductive SleepOp where
  | user (m : Mem) (userSp : Word)
  | fork
  | exit
  | sysSleep
  | sysWaitForTask
  | irqSleep (irq : Nat)
  | openNode (node mode : Word)
  | tick
  | irq (irq : Nat)
  | schedule
  | dispatch (p : Word)

/-- The operations of the current task need a task that runs. -/
def SleepOp.Enabled (s : KernelState) : SleepOp -> Prop
  | .user m _ => Running s ∧ OnlySegment s.mem m (s.task s.currentTask).segment
  | .tick => True
  | .irq _ => True
  | .schedule => True
  | .dispatch p => p ∈ s.taskList ∧ s.Live p
  | _ => Running s

def SleepOp.run (s : KernelState) : SleepOp -> Result KernelState
  | .user m userSp => .ok (userStep s m userSp)
  | .fork => Kernel.fork s >>= fun r => .ok r.2
  | .exit => taskExit s s.currentTask
  | .sysSleep => Kernel.sysSleep s s.currentTask
  | .sysWaitForTask => Kernel.sysWaitForTask s s.currentTask
  | .irqSleep index => Kernel.irqSleep s s.currentTask index
  | .openNode node mode => Kernel.openNode s s.currentTask node mode
  | .tick => s.clockTick
  | .irq index => irqResumeWaitingTasks s index
  | .schedule => taskSchedule s
  | .dispatch p => .ok { s with currentTask := p }

def SleepStep (s s' : KernelState) : Prop :=
  exists op : SleepOp, op.Enabled s ∧ op.run s = .ok s'

def waitTarget (s : KernelState) : Word :=
  segmentToTask s (taskGetRegister s s.currentTask regBX)

/-- The task to wait for is there, has not exited, and nobody waits for it
yet. -/
def WaitMet (s : KernelState) : Prop :=
  waitTarget s ≠ 0 ∧ s.Live (waitTarget s) ∧
    (s.task (waitTarget s)).taskWaitingForExit = 0

def WaitMetStep (s s' : KernelState) : Prop :=
  exists op : SleepOp, op.Enabled s ∧ (op = .sysWaitForTask -> WaitMet s) ∧
    op.run s = .ok s'

/-- Every sleeping task has a source that can still wake it. -/
def SleepersNamed (s : KernelState) : Prop :=
  forall p, p ∈ s.taskList -> (s.task p).state = .sleeping ->
    exists src, Fires s src p

theorem run_sysWaitForTask (s : KernelState) :
    SleepOp.run s .sysWaitForTask =
      taskSleep (setWaiting s (waitTarget s) s.currentTask) s.currentTask := rfl

/-!
# The operations as kernel steps
-/

section Steps

variable {s s' : KernelState}

theorem segmentToTask_mem (s : KernelState) (segment : Word) :
    segmentToTask s segment = 0 ∨ segmentToTask s segment ∈ s.taskList := by
  unfold segmentToTask
  cases hfind : s.taskList.find? (fun p => (s.task p).segment == segment) with
  | none => exact Or.inl rfl
  | some p => exact Or.inr (List.mem_of_find?_eq_some hfind)

theorem Running.of_task (hs : Running s) (htask : s'.task = s.task)
    (hcurrent : s'.currentTask = s.currentTask) : Running s' := by
  unfold Running
  rw [htask, hcurrent]
  exact hs

theorem Running.setWaiting (hs : Running s) (target p : Word) :
    Running (setWaiting s target p) := by
  by_cases hzero : target = 0
  · unfold Kernel.setWaiting
    rw [if_neg (not_not_intro hzero)]
    exact hs
  · have hcurrent : (Kernel.setWaiting s target p).currentTask =
        s.currentTask := by
      unfold Kernel.setWaiting
      split <;> rfl
    unfold Running
    rw [hcurrent, (setWaiting_task _ hzero).1]
    exact hs

theorem SleepOp.system {op : SleepOp} (hs : SystemInv s) (hen : op.Enabled s)
    (hrun : op.run s = .ok s') : SystemInv s' := by
  cases op with
  | user m userSp =>
      cases hrun
      exact hs.step (.user hen.1 hen.2)
  | fork =>
      rcases ok_bind_iff.mp hrun with ⟨⟨segment, s₁⟩, hfork, hr⟩
      cases hr
      exact hs.step (.fork hen hfork)
  | exit => exact hs.step (.exit hen hrun)
  | sysSleep =>
      rcases ok_bind_iff.mp hrun with ⟨s₁, hset, hsleep⟩
      rcases setWakeup_view hset with ⟨htask, _, hcurrent, _⟩
      rw [← hcurrent] at hsleep
      exact (hs.step (.setWakeup hen hset)).step
        (.sleep (Running.of_task hen htask hcurrent) hsleep)
  | sysWaitForTask =>
      have hset := hs.step (.waitFor hen (segmentToTask_mem s
        (taskGetRegister s s.currentTask regBX)))
      refine hset.step (.sleep (Running.setWaiting hen _ _) ?_)
      have hcurrent : (setWaiting s (segmentToTask s
          (taskGetRegister s s.currentTask regBX)) s.currentTask).currentTask =
            s.currentTask := by
        unfold setWaiting
        split <;> rfl
      rw [hcurrent]
      exact hrun
  | irqSleep irq =>
      rcases ok_bind_iff.mp hrun with ⟨s₁, hset, hsleep⟩
      rcases irqSetWakeup_view hset with ⟨htask, _, hcurrent, _⟩
      rw [← hcurrent] at hsleep
      exact (hs.step (.irqSetWakeup hen hset)).step
        (.sleep (Running.of_task hen htask hcurrent) hsleep)
  | openNode node mode => exact hs.step (.openNode hen hrun)
  | tick => exact hs.step (.tick hrun)
  | irq irq => exact hs.step (.irq hrun)
  | schedule => exact hs.step (.schedule hrun)
  | dispatch p =>
      cases hrun
      exact hs.step (.dispatch hen.1 hen.2)

/-!
# Sleeping and waking
-/

theorem SleepersNamed.of_sources (hs : SleepersNamed s)
    (hsources : SameSources s s')
    (hstate : forall p, (s'.task p).state = (s.task p).state) :
    SleepersNamed s' := by
  intro p hp hsleeping
  rw [hsources.taskList] at hp
  rw [hstate] at hsleeping
  rcases hs p hp hsleeping with ⟨src, hsrc⟩
  exact ⟨src, hsources.fires.mpr hsrc⟩

theorem SleepersNamed.schedule (hs : SleepersNamed s)
    (hrun : taskSchedule s = .ok s') : SleepersNamed s' := by
  refine hs.of_sources (taskSchedule_sources hrun) fun p => ?_
  rw [taskSchedule_task hrun]

theorem SleepersNamed.setState (hs : SleepersNamed s) {p : Word}
    {st : TaskState} (hlive : s.Live p) (hst : st ≠ .exited)
    (hsource : st = .sleeping -> exists src, Fires s src p) :
    SleepersNamed (s.setState p st) := by
  have hsources := setState_sources hlive hst
  intro q hq hsleeping
  rw [setState_state] at hsleeping
  by_cases hqp : q = p
  · rw [if_pos hqp] at hsleeping
    rcases hsource hsleeping with ⟨src, hsrc⟩
    rw [hqp]
    exact ⟨src, hsources.fires.mpr hsrc⟩
  · rw [if_neg hqp] at hsleeping
    rcases hs q hq hsleeping with ⟨src, hsrc⟩
    exact ⟨src, hsources.fires.mpr hsrc⟩

theorem SleepersNamed.taskSleep (hs : SleepersNamed s) {p : Word}
    (hlive : s.Live p) (hsource : exists src, Fires s src p)
    (hrun : taskSleep s p = .ok s') : SleepersNamed s' := by
  rcases taskSleep_cases hlive hrun with ⟨_, hschedule⟩ | ⟨_, hschedule⟩
  · exact (hs.setState hlive (by decide) fun _ => hsource).schedule hschedule
  · exact (hs.setState hlive (by decide) (by simp)).schedule hschedule

theorem sleepersNamed_wakeup {p : Word}
    (hs : forall q, q ∈ s.taskList -> (s.task q).state = .sleeping -> q ≠ p ->
      exists src, Fires s src q)
    (hrun : taskWakeup p s = .ok s') : SleepersNamed s' := by
  have hwoken : exists st, st ≠ .sleeping ∧ st ≠ .exited ∧ s.Live p ∧
      s' = s.setState p st := by
    unfold KernelState.Live
    rcases taskWakeup_cases hrun with ⟨hstate, rfl⟩ | ⟨hstate, rfl⟩
    · exact ⟨.wakenBeforeSleep, by decide, by decide, by simp [hstate], rfl⟩
    · exact ⟨.running, by decide, by decide, by simp [hstate], rfl⟩
  rcases hwoken with ⟨st, hawake, hst, hlive, rfl⟩
  intro q hq hsleeping
  rw [setState_state] at hsleeping
  by_cases hqp : q = p
  · rw [if_pos hqp] at hsleeping
    exact absurd hsleeping hawake
  · rw [if_neg hqp] at hsleeping
    rcases hs q hq hsleeping hqp with ⟨src, hsrc⟩
    exact ⟨src, (setState_sources hlive hst).fires.mpr hsrc⟩

theorem SleepersNamed.tick (hs : SleepersNamed s) (hrun : s.clockTick = .ok s') :
    SleepersNamed s' := by
  rcases ok_bind_iff.mp hrun with ⟨r, htick, hr⟩
  rcases ok_bind_iff.mp htick with ⟨⟨queue, s₁⟩, hwake, htick⟩
  cases htick
  cases hr
  rw [Clock.count_alarmQueue] at hwake
  have hend := wakeDue_invariant (c := kernelCalls)
    (I := fun queue s => SleepersNamed (withQueue s queue)) ?_ ?_ hwake hs
  · exact hend.of_sources ⟨rfl, fun _ => Iff.rfl, fun _ => rfl, rfl, rfl⟩
      fun _ => rfl
  · intro a rest t t₁ t₂ ht hwake hfree
    have hwakeQueue : taskWakeup a.task (withQueue t rest) =
        .ok (withQueue t₁ rest) := taskWakeup_withQueue hwake
    have ht₁ : SleepersNamed (withQueue t₁ rest) := by
      refine sleepersNamed_wakeup ?_ hwakeQueue
      intro q hq hsleeping hne
      rcases ht q hq hsleeping with ⟨src, hsrc⟩
      rcases withQueue_fires.mp hsrc with ⟨_, heq⟩ | hsrc
      · exact absurd heq hne
      · exact ⟨src, hsrc⟩
    have hsame := kernel_free_sameTasks (kernel_free_withQueue
      (q := rest) hfree)
    refine ht₁.of_sources hsame.sources fun q => ?_
    rw [hsame.task]
  · intro a rest t d ht q hq hsleeping
    rcases ht q hq hsleeping with ⟨src, hsrc⟩
    have hsplit := (withQueue_fires (a := a)).mp hsrc
    exact ⟨src, withQueue_fires.mpr hsplit⟩

theorem SleepersNamed.irq (hs : SleepersNamed s) {irq : Nat}
    (hrun : irqResumeWaitingTasks s irq = .ok s') : SleepersNamed s' := by
  rcases ok_bind_iff.mp hrun with ⟨s₁, hresume, hr⟩
  cases hr
  have hstart : SleepersNamed (withWaits s irq (s.irqEvents irq)) := by
    rw [withWaits, Function.update_eq_self]
    exact hs
  refine resumeTasks_invariant
    (I := fun waits s => SleepersNamed (withWaits s irq waits)) ?_ hresume hstart
  intro w rest t t₁ t₂ ht hwake hfree
  have hwakeWaits : taskWakeup w.task (withWaits t irq rest) =
      .ok (withWaits t₁ irq rest) := taskWakeup_withWaits hwake
  have ht₁ : SleepersNamed (withWaits t₁ irq rest) := by
    refine sleepersNamed_wakeup ?_ hwakeWaits
    intro q hq hsleeping hne
    rcases ht q hq hsleeping with ⟨src, hsrc⟩
    rcases withWaits_fires.mp hsrc with ⟨_, heq⟩ | hsrc
    · exact absurd heq hne
    · exact ⟨src, hsrc⟩
  have hsame := kernel_free_sameTasks (kernel_free_withWaits (n := irq)
    (l := rest) hfree)
  refine ht₁.of_sources hsame.sources fun q => ?_
  rw [hsame.task]

/-!
# Tasks that come and go
-/

theorem SleepersNamed.fork (hs : SleepersNamed s) (hsystem : SystemInv s)
    (hrunning : Running s) {segment : Word}
    (hrun : Kernel.fork s = .ok (segment, s')) : SleepersNamed s' := by
  rcases hsystem.owned with ⟨label, howned⟩
  rcases fork_eq hrun with ⟨p, stack, s₁, s₂, htask, hstack, _, _, _, rfl⟩
  have hsame := (kernel_malloc_sameTasks htask).trans
    (kernel_malloc_sameTasks hstack)
  have hnew := howned.malloc_fresh htask
  intro q hq hsleeping
  rcases List.mem_cons.mp hq with rfl | hq
  · rw [setTask_self, forkTask_state] at hsleeping
    rcases hrunning with hstate | hstate <;> rw [hstate] at hsleeping <;>
      cases hsleeping
  · have hne : q ≠ p := fun heq => hnew (heq ▸ hq)
    rw [setTask_other _ _ _ hne] at hsleeping
    change (s₂.task q).state = .sleeping at hsleeping
    rw [hsame.task] at hsleeping
    rcases hs q hq hsleeping with ⟨src, hsrc⟩
    refine ⟨src, ?_⟩
    apply (add_fires (t := forkTask (s.task s.currentTask) segment stack)
      hnew ?_ ?_ ?_ ?_ ?_).mpr hsrc
    · rfl
    · change Function.update s₂.task p _ = _
      rw [hsame.task]
    · rw [forkTask]
    · change s₂.clock.alarmQueue = _
      rw [hsame.clock]
    · exact hsame.irqEvents

theorem SleepersNamed.exit (hs : SleepersNamed s) (hsystem : SystemInv s)
    (hrunning : Running s) (hrun : taskExit s s.currentTask = .ok s') :
    SleepersNamed s' := by
  rcases hsystem.owned with ⟨label, howned⟩
  rcases howned.taskExit hsystem.current hrunning.live hrun with
    ⟨s₁, s₂, hsame, _, hwake, hschedule⟩
  have hlist : s₁.taskList = s.taskList := hsame.taskList
  have hwaiting : (s₁.task s.currentTask).taskWaitingForExit =
      (s.task s.currentTask).taskWaitingForExit := by
    rw [hsame.task, afterExit_waiting]
  have hothers : forall q, q ∈ s₁.taskList -> (s₁.task q).state = .sleeping ->
      (s.task s.currentTask).taskWaitingForExit = 0 ∨
        q ≠ (s.task s.currentTask).taskWaitingForExit ->
      exists src, Fires s₁ src q := by
    intro q hq hsleeping hne
    rw [hlist] at hq
    rw [hsame.task, afterExit_state] at hsleeping
    split at hsleeping
    · cases hsleeping
    · rcases hs q hq hsleeping with ⟨src, hsrc⟩
      refine ⟨src, hsame.sources.fires.mpr (afterExit_fires.mpr ⟨?_, hsrc⟩)⟩
      rintro rfl
      rcases fires_exit_iff.mp hsrc with ⟨_, _, hzero, heq⟩
      rcases hne with hnone | hne
      · exact hzero (heq.symm.trans hnone)
      · exact hne heq.symm
  have hs₂ : SleepersNamed s₂ := by
    unfold wakeWaiting at hwake
    rw [hwaiting] at hwake
    split at hwake
    · exact sleepersNamed_wakeup (fun q hq hsleeping hne =>
        hothers q hq hsleeping (Or.inr hne)) hwake
    · next hnone =>
        cases hwake
        exact fun q hq hsleeping =>
          hothers q hq hsleeping (Or.inl (not_not.mp hnone))
  exact hs₂.schedule hschedule

/-!
# Tasks that wait
-/

theorem SleepersNamed.more (hs : SleepersNamed s) (htask : s'.task = s.task)
    (hlist : s'.taskList = s.taskList)
    (hmore : forall src p, Fires s src p -> Fires s' src p) :
    SleepersNamed s' := by
  intro q hq hsleeping
  rw [hlist] at hq
  rw [htask] at hsleeping
  rcases hs q hq hsleeping with ⟨src, hsrc⟩
  exact ⟨src, hmore src q hsrc⟩

theorem SleepersNamed.sysSleep (hs : SleepersNamed s) {p : Word}
    (hlive : s.Live p) (hrun : sysSleep s p = .ok s') : SleepersNamed s' := by
  rcases ok_bind_iff.mp hrun with ⟨s₁, hset, hsleep⟩
  rcases setWakeup_view hset with ⟨htask, hlist, _⟩
  rcases setWakeup_fires hset with ⟨x, hfires⟩
  have hs₁ : SleepersNamed s₁ :=
    hs.more htask hlist fun src q hsrc => (hfires src q).mpr (Or.inl hsrc)
  have hlive₁ : s₁.Live p := by
    unfold KernelState.Live
    rw [htask]
    exact hlive
  exact hs₁.taskSleep hlive₁ ⟨_, (hfires _ p).mpr (Or.inr ⟨rfl, rfl⟩)⟩ hsleep

theorem SleepersNamed.irqSleep (hs : SleepersNamed s) {p : Word} {irq : Nat}
    (hlive : s.Live p) (hrun : irqSleep s p irq = .ok s') :
    SleepersNamed s' := by
  rcases ok_bind_iff.mp hrun with ⟨s₁, hset, hsleep⟩
  rcases irqSetWakeup_view hset with ⟨htask, hlist, _⟩
  rcases irqSetWakeup_fires hset with ⟨x, hfires⟩
  have hs₁ : SleepersNamed s₁ :=
    hs.more htask hlist fun src q hsrc => (hfires src q).mpr (Or.inl hsrc)
  have hlive₁ : s₁.Live p := by
    unfold KernelState.Live
    rw [htask]
    exact hlive
  exact hs₁.taskSleep hlive₁ ⟨_, (hfires _ p).mpr (Or.inr ⟨rfl, rfl⟩)⟩ hsleep

/-- A wait that meets its condition takes no other task's place. -/
theorem SleepersNamed.sysWaitForTask (hs : SleepersNamed s)
    (hsystem : SystemInv s) (hlive : s.Live s.currentTask) (hmet : WaitMet s)
    (hrun : sysWaitForTask s s.currentTask = .ok s') : SleepersNamed s' := by
  rcases hsystem.owned with ⟨label, howned⟩
  rcases hmet with ⟨hne, hliveTarget, hfree⟩
  have hmem : waitTarget s ∈ s.taskList :=
    (segmentToTask_mem s _).resolve_left hne
  have hcurrent : s.currentTask ≠ 0 := howned.task_ne_zero hsystem.current
  have hset : SleepersNamed (setWaiting s (waitTarget s) s.currentTask) := by
    intro q hq hsleeping
    have hlist : (setWaiting s (waitTarget s) s.currentTask).taskList =
        s.taskList := by
      unfold setWaiting
      split <;> rfl
    rw [hlist] at hq
    rw [(setWaiting_task q hne).1] at hsleeping
    rcases hs q hq hsleeping with ⟨src, hsrc⟩
    refine ⟨src, (setWaiting_fires hne src q).mpr ?_⟩
    rw [if_neg]
    · exact hsrc
    · rintro rfl
      rcases fires_exit_iff.mp hsrc with ⟨_, _, hzero, heq⟩
      exact hzero (heq.symm.trans hfree)
  refine hset.taskSleep ?_ ⟨.exit (waitTarget s), ?_⟩ hrun
  · unfold KernelState.Live
    rw [(setWaiting_task _ hne).1]
    exact hlive
  · rw [setWaiting_fires hne, if_pos rfl]
    exact ⟨hmem, hliveTarget, hcurrent, rfl⟩

theorem SleepersNamed.step (hs : SleepersNamed s) (hsystem : SystemInv s)
    {op : SleepOp} (hen : op.Enabled s)
    (hmet : op = .sysWaitForTask -> WaitMet s) (hrun : op.run s = .ok s') :
    SleepersNamed s' := by
  cases op with
  | user m userSp =>
      cases hrun
      rcases userStep_sources (s := s) m userSp with ⟨hsources, hstate⟩
      exact hs.of_sources hsources hstate
  | fork =>
      rcases ok_bind_iff.mp hrun with ⟨⟨segment, s₁⟩, hfork, hr⟩
      cases hr
      exact hs.fork hsystem hen hfork
  | exit => exact hs.exit hsystem hen hrun
  | sysSleep => exact hs.sysSleep (Running.live hen) hrun
  | sysWaitForTask =>
      exact hs.sysWaitForTask hsystem (Running.live hen) (hmet rfl) hrun
  | irqSleep irq => exact hs.irqSleep (Running.live hen) hrun
  | openNode node mode =>
      rcases hsystem.owned with ⟨label, howned⟩
      rcases howned.openNode hsystem.current (Running.live hen) hrun with
        ⟨_, hview⟩
      exact hs.of_sources hview.sources hview.state
  | tick => exact hs.tick hrun
  | irq irq => exact hs.irq hrun
  | schedule => exact hs.schedule hrun
  | dispatch p =>
      cases hrun
      exact hs.of_sources ⟨rfl, fun _ => Iff.rfl, fun _ => rfl, rfl, rfl⟩
        fun _ => rfl

theorem Started.sleepers (hs : Started s) : SleepersNamed s := by
  rcases hs with ⟨boot, hboot, hrun⟩
  rcases taskInit_eq hboot hrun with ⟨p, stack, s₁, s₂, _, _, _, rfl⟩
  intro q hq hsleeping
  rcases List.mem_singleton.mp hq with rfl
  rw [setTask_self] at hsleeping
  cases hsleeping

end Steps

/-!
# Runs
-/

/-- In a run whose waits meet their condition, every sleeping task has a source
that can still wake it. -/
theorem sleepers_named {s : KernelState}
    (hs : Reachable Started WaitMetStep s) : SleepersNamed s := by
  have hinv : SystemInv s ∧ SleepersNamed s := by
    apply hs.invariant (I := fun s => SystemInv s ∧ SleepersNamed s)
    · intro s hs
      exact ⟨hs.inv, hs.sleepers⟩
    · rintro s s' ⟨hsystem, hs⟩ ⟨op, hen, hmet, hrun⟩
      exact ⟨SleepOp.system hsystem hen hrun, hs.step hsystem hen hmet hrun⟩
  exact hinv.2

def askingParent : KernelState :=
  userStep smallFork (pokew smallFork.mem firstSegment
    ((smallFork.task 0x9000).userSp + regBX) 0x2050) (smallFork.task 0x9000).userSp

def waitingParent : KernelState :=
  (sysWaitForTask askingParent 0x9000).toOption.getD askingParent

theorem waitingParent_reachable : Reachable Started WaitMetStep waitingParent := by
  have hfork : WaitMetStep smallStart smallFork :=
    ⟨.fork, Or.inl rfl, SleepOp.noConfusion, rfl⟩
  have honly : OnlySegment smallFork.mem askingParent.mem firstSegment := by
    intro x hx
    change pokew smallFork.mem firstSegment _ 0x2050 x = _
    unfold pokew poke
    rw [Function.update_of_ne (hx _), Function.update_of_ne (hx _)]
  have hask : WaitMetStep smallFork askingParent :=
    ⟨.user _ _, ⟨smallFork_running, honly⟩, SleepOp.noConfusion, rfl⟩
  have htarget : waitTarget askingParent = 0x9200 := by
    decide +kernel
  have hmet : WaitMet askingParent := by
    unfold WaitMet
    rw [htarget]
    exact ⟨by decide, TaskState.noConfusion, rfl⟩
  have hwait : WaitMetStep askingParent waitingParent :=
    ⟨.sysWaitForTask, Or.inl rfl, fun _ => hmet, rfl⟩
  exact .step (.step (.step (.start smallStart_started) hfork) hask) hwait

theorem sleepers_named_waiting_parent :
    (waitingParent.task 0x9000).state = .sleeping ∧
      waitingParent.currentTask = 0x9200 ∧ SleepersNamed waitingParent :=
  ⟨by decide +kernel, by decide +kernel, sleepers_named waitingParent_reachable⟩

/-- The first task asks to wait for a task that does not exist, and sleeps for
ever. -/
theorem sleeper_not_named : ¬ forall s, Reachable Started SleepStep s ->
    SleepersNamed s := by
  intro hall
  let asleep : KernelState :=
    smallStart.setState smallStart.currentTask .sleeping
  have hnone : waitTarget smallStart = 0 := by
    decide +kernel
  have hstep : SleepStep smallStart asleep := by
    refine ⟨.sysWaitForTask, Or.inl rfl, ?_⟩
    rw [run_sysWaitForTask, hnone]
    rfl
  have hnamed := hall asleep (.step (.start smallStart_started) hstep)
  rcases hnamed 0x9000 (by decide) (by decide) with ⟨src, hsrc⟩
  cases src with
  | alarm x =>
      rcases fires_alarm_iff.mp hsrc with ⟨a, ha, _⟩
      cases ha
  | irqWait irq x =>
      rcases fires_irqWait_iff.mp hsrc with ⟨w, hw, _⟩
      cases hw
  | exit q =>
      rcases fires_exit_iff.mp hsrc with ⟨hq, _, hne, heq⟩
      rcases List.mem_singleton.mp hq with rfl
      exact hne heq.symm

end Kernel
end Rmmtos
