import Rmmtos.Kernel.System

/-!
# Wake sources

A task may be woken by an alarm, by an interrupt, or by the end of a task it
waits for.  Every operation on tasks is told here by the sources that it adds
and by those that it takes away.
-/

namespace Rmmtos
namespace Kernel

open Library Fs

/-!
# Sources
-/

inductive Source where
  | alarm (address : Word)
  | irqWait (irq : Nat) (address : Word)
  | exit (target : Word)
deriving DecidableEq

/-- A source that can still fire, and the task it then wakes. -/
inductive Fires (s : KernelState) : Source -> Word -> Prop where
  | alarm {a : ClockAlarm Word} : a ∈ s.clock.alarmQueue ->
      Fires s (.alarm a.address) a.task
  | irqWait {irq : Nat} {w : IrqWait} : w ∈ s.irqEvents irq ->
      Fires s (.irqWait irq w.address) w.task
  | exit {q : Word} : q ∈ s.taskList -> s.Live q ->
      (s.task q).taskWaitingForExit ≠ 0 ->
      Fires s (.exit q) (s.task q).taskWaitingForExit

section Sources

variable {s s' : KernelState}

theorem fires_alarm_iff {x p : Word} : Fires s (.alarm x) p <->
    exists a, a ∈ s.clock.alarmQueue ∧ a.address = x ∧ a.task = p := by
  constructor
  · intro h
    cases h with
    | alarm ha => exact ⟨_, ha, rfl, rfl⟩
  · rintro ⟨a, ha, rfl, rfl⟩
    exact .alarm ha

theorem fires_irqWait_iff {irq : Nat} {x p : Word} :
    Fires s (.irqWait irq x) p <->
      exists w, w ∈ s.irqEvents irq ∧ w.address = x ∧ w.task = p := by
  constructor
  · intro h
    cases h with
    | irqWait hw => exact ⟨_, hw, rfl, rfl⟩
  · rintro ⟨w, hw, rfl, rfl⟩
    exact .irqWait hw

theorem fires_exit_iff {q p : Word} : Fires s (.exit q) p <->
    q ∈ s.taskList ∧ s.Live q ∧ p ≠ 0 ∧ (s.task q).taskWaitingForExit = p := by
  constructor
  · intro h
    cases h with
    | exit hq hlive hne => exact ⟨hq, hlive, hne, rfl⟩
  · rintro ⟨hq, hlive, hne, rfl⟩
    exact .exit hq hlive hne

structure SameSources (s s' : KernelState) : Prop where
  taskList : s'.taskList = s.taskList
  live : forall p, s'.Live p <-> s.Live p
  waiting : forall p,
    (s'.task p).taskWaitingForExit = (s.task p).taskWaitingForExit
  alarms : s'.clock.alarmQueue = s.clock.alarmQueue
  irqEvents : s'.irqEvents = s.irqEvents

theorem SameSources.fires (h : SameSources s s') {o : Source} {p : Word} :
    Fires s' o p <-> Fires s o p := by
  cases o with
  | alarm x => rw [fires_alarm_iff, fires_alarm_iff, h.alarms]
  | irqWait irq x => rw [fires_irqWait_iff, fires_irqWait_iff, h.irqEvents]
  | exit q =>
      rw [fires_exit_iff, fires_exit_iff, h.taskList, h.live, h.waiting]

theorem OnlyStates.sources (h : OnlyStates s s')
    (halarms : s'.clock.alarmQueue = s.clock.alarmQueue)
    (hirqs : s'.irqEvents = s.irqEvents) : SameSources s s' :=
  ⟨h.taskList, h.live, h.waiting, halarms, hirqs⟩

theorem SameTasks.sources (h : SameTasks s s') : SameSources s s' :=
  h.onlyStates.sources (by rw [h.clock]) h.irqEvents

theorem SameView.sources (h : SameView s s') : SameSources s s' := by
  refine ⟨h.taskList, ?_, h.waiting, by rw [h.clock], h.irqEvents⟩
  intro p
  unfold KernelState.Live
  rw [h.state]

theorem setState_sources {p : Word} {t : TaskState} (hlive : s.Live p)
    (hst : t ≠ .exited) : SameSources s (s.setState p t) :=
  (setState_onlyStates hlive hst).sources rfl rfl

theorem taskSchedule_sources (h : taskSchedule s = .ok s') :
    SameSources s s' := by
  rcases taskSchedule_eq h with rfl | ⟨p, rfl⟩
  · exact ⟨rfl, fun _ => Iff.rfl, fun _ => rfl, rfl, rfl⟩
  · exact ⟨rfl, fun _ => Iff.rfl, fun _ => rfl, rfl, rfl⟩

theorem taskSchedule_task (h : taskSchedule s = .ok s') : s'.task = s.task := by
  rcases taskSchedule_eq h with rfl | ⟨p, rfl⟩ <;> rfl

theorem userStep_sources (m : Mem) (userSp : Word) :
    SameSources s (userStep s m userSp) ∧
      forall q, ((userStep s m userSp).task q).state = (s.task q).state := by
  have hcase : forall q, ((userStep s m userSp).task q).state =
        (s.task q).state ∧
      ((userStep s m userSp).task q).taskWaitingForExit =
        (s.task q).taskWaitingForExit := by
    intro q
    unfold userStep
    by_cases hq : q = s.currentTask
    · subst hq
      rw [setTask_self]
      exact ⟨rfl, rfl⟩
    · rw [setTask_other _ _ _ hq]
      exact ⟨rfl, rfl⟩
  refine ⟨⟨rfl, ?_, fun q => (hcase q).2, rfl, rfl⟩, fun q => (hcase q).1⟩
  intro q
  unfold KernelState.Live
  rw [(hcase q).1]

/-!
# States
-/

theorem setState_state (p q : Word) (st : TaskState) :
    ((s.setState p st).task q).state =
      if q = p then st else (s.task q).state := by
  unfold KernelState.setState
  by_cases hq : q = p
  · rw [hq, setTask_self, if_pos rfl]
  · rw [setTask_other _ _ _ hq, if_neg hq]

/-- A wakeup wakes a sleeping task, or is kept for one that has not slept
yet. -/
theorem taskWakeup_cases {p : Word} (h : taskWakeup p s = .ok s') :
    (s.task p).state = .running ∧ s' = s.setState p .wakenBeforeSleep ∨
      (s.task p).state = .sleeping ∧ s' = s.setState p .running := by
  unfold taskWakeup at h
  cases hstate : (s.task p).state with
  | running =>
      rw [hstate] at h
      cases h
      exact Or.inl ⟨rfl, rfl⟩
  | sleeping =>
      rw [hstate] at h
      cases h
      exact Or.inr ⟨rfl, rfl⟩
  | wakenBeforeSleep =>
      rw [hstate] at h
      cases h
  | exited =>
      rw [hstate] at h
      cases h

theorem taskWakeup_withQueue {p : Word} {queue : List (ClockAlarm Word)}
    (h : taskWakeup p s = .ok s') :
    taskWakeup p (withQueue s queue) = .ok (withQueue s' queue) := by
  unfold taskWakeup withQueue
  rcases taskWakeup_cases h with ⟨hstate, rfl⟩ | ⟨hstate, rfl⟩
  · simp only [hstate]
    rfl
  · simp only [hstate]
    rfl

theorem taskWakeup_withWaits {p : Word} {irq : Nat} {waits : List IrqWait}
    (h : taskWakeup p s = .ok s') :
    taskWakeup p (withWaits s irq waits) = .ok (withWaits s' irq waits) := by
  unfold taskWakeup withWaits
  rcases taskWakeup_cases h with ⟨hstate, rfl⟩ | ⟨hstate, rfl⟩
  · simp only [hstate]
    rfl
  · simp only [hstate]
    rfl

/-- A task falls asleep, or goes on when its wakeup has come already. -/
theorem taskSleep_cases {p : Word} (hlive : s.Live p)
    (h : taskSleep s p = .ok s') :
    (s.task p).state = .running ∧
        taskSchedule (s.setState p .sleeping) = .ok s' ∨
      (s.task p).state = .wakenBeforeSleep ∧
        taskSchedule (s.setState p .running) = .ok s' := by
  unfold taskSleep at h
  unfold KernelState.Live at hlive
  cases hstate : (s.task p).state with
  | running =>
      rw [hstate] at h
      exact Or.inl ⟨rfl, h⟩
  | wakenBeforeSleep =>
      rw [hstate] at h
      exact Or.inr ⟨rfl, h⟩
  | sleeping =>
      rw [hstate] at h
      cases h
  | exited => exact absurd hstate hlive

/-!
# Registration
-/

theorem setWakeup_fires {task ms : Word} (hrun : s.setWakeup task ms = .ok s') :
    exists x, forall src p, Fires s' src p <->
      Fires s src p ∨ src = .alarm x ∧ p = task := by
  rcases setWakeup_eq hrun with ⟨x, s₁, queue, hmalloc, hinsert, rfl⟩
  have hsame := (kernel_malloc_sameTasks hmalloc).sources
  have hperm := insertAlarm_perm hinsert
  have hmem : forall y p, (exists a, a ∈ queue ∧ a.address = y ∧ a.task = p) <->
      (exists a, a ∈ s.clock.alarmQueue ∧ a.address = y ∧ a.task = p) ∨
        y = x ∧ p = task := by
    intro y p
    have hqueue := hperm.mem_iff (a := (y, p))
    simp only [List.mem_map, Prod.mk.injEq, List.mem_cons] at hqueue
    rw [hqueue]
    exact or_comm
  refine ⟨x, fun src p => ?_⟩
  cases src with
  | alarm y =>
      rw [fires_alarm_iff, fires_alarm_iff]
      refine (hmem y p).trans (or_congr_right ?_)
      simp
  | irqWait irq y =>
      have hfires := hsame.fires (o := .irqWait irq y) (p := p)
      rw [fires_irqWait_iff] at hfires ⊢
      exact hfires.trans (by simp)
  | exit q =>
      have hfires := hsame.fires (o := .exit q) (p := p)
      rw [fires_exit_iff] at hfires ⊢
      exact hfires.trans (by simp)

theorem irqSetWakeup_fires {task : Word} {irq : Nat}
    (hrun : irqSetWakeup s task irq = .ok s') :
    exists x, forall src p, Fires s' src p <->
      Fires s src p ∨ src = .irqWait irq x ∧ p = task := by
  rcases irqSetWakeup_eq hrun with ⟨x, s₁, hmalloc, _, rfl⟩
  have hsame := (kernel_malloc_sameTasks hmalloc).sources
  refine ⟨x, fun src p => ?_⟩
  cases src with
  | alarm y =>
      have hfires := hsame.fires (o := .alarm y) (p := p)
      rw [fires_alarm_iff] at hfires ⊢
      exact hfires.trans (by simp)
  | irqWait n y =>
      rw [fires_irqWait_iff, fires_irqWait_iff]
      change (exists w, w ∈ Function.update s₁.irqEvents irq _ n ∧ _) <-> _
      by_cases hn : n = irq
      · subst hn
        rw [Function.update_self]
        simp only [List.mem_cons, or_and_right, exists_or, exists_eq_left,
          Source.irqWait.injEq, true_and]
        rw [or_comm]
        exact or_congr_right (and_congr eq_comm eq_comm)
      · rw [Function.update_of_ne hn, hsame.irqEvents]
        simp [hn]
  | exit q =>
      have hfires := hsame.fires (o := .exit q) (p := p)
      rw [fires_exit_iff] at hfires ⊢
      exact hfires.trans (by simp)

theorem setWaiting_task {q p : Word} (r : Word) (hq : q ≠ 0) :
    ((setWaiting s q p).task r).state = (s.task r).state ∧
      ((setWaiting s q p).task r).taskWaitingForExit =
        if r = q then p else (s.task r).taskWaitingForExit := by
  unfold setWaiting
  rw [if_pos hq]
  by_cases hr : r = q
  · rw [hr, setTask_self, if_pos rfl]
    exact ⟨rfl, rfl⟩
  · rw [setTask_other _ _ _ hr, if_neg hr]
    exact ⟨rfl, rfl⟩

/-- A task that waits for another one takes the place of an earlier waiter. -/
theorem setWaiting_fires {q p : Word} (hq : q ≠ 0) (src : Source) (r : Word) :
    Fires (setWaiting s q p) src r <->
      if src = .exit q then q ∈ s.taskList ∧ s.Live q ∧ p ≠ 0 ∧ r = p
      else Fires s src r := by
  have hlist : (setWaiting s q p).taskList = s.taskList := by
    unfold setWaiting
    split <;> rfl
  have hlive : forall r, (setWaiting s q p).Live r <-> s.Live r := by
    intro r
    unfold KernelState.Live
    rw [(setWaiting_task r hq).1]
  cases src with
  | alarm y =>
      rw [if_neg (by simp), fires_alarm_iff, fires_alarm_iff]
      unfold setWaiting
      rw [if_pos hq]
      rfl
  | irqWait irq y =>
      rw [if_neg (by simp), fires_irqWait_iff, fires_irqWait_iff]
      unfold setWaiting
      rw [if_pos hq]
      rfl
  | exit t =>
      rw [fires_exit_iff, hlist, hlive, (setWaiting_task t hq).2]
      by_cases ht : t = q
      · subst ht
        rw [if_pos rfl, if_pos rfl]
        constructor
        · rintro ⟨hmem, hlivet, hne, rfl⟩
          exact ⟨hmem, hlivet, hne, rfl⟩
        · rintro ⟨hmem, hlivet, hne, rfl⟩
          exact ⟨hmem, hlivet, hne, rfl⟩
      · rw [if_neg ht, if_neg (by simpa using ht), fires_exit_iff]

/-!
# Wakeups
-/

theorem withQueue_fires {a : ClockAlarm Word} {rest : List (ClockAlarm Word)}
    {src : Source} {p : Word} :
    Fires (withQueue s (a :: rest)) src p <->
      src = .alarm a.address ∧ p = a.task ∨ Fires (withQueue s rest) src p := by
  cases src with
  | alarm x =>
      rw [fires_alarm_iff, fires_alarm_iff]
      change (exists b, b ∈ a :: rest ∧ _) <-> _ ∨ exists b, b ∈ rest ∧ _
      simp only [List.mem_cons, or_and_right, exists_or, exists_eq_left,
        Source.alarm.injEq]
      exact or_congr_left (and_congr eq_comm eq_comm)
  | irqWait irq x =>
      rw [fires_irqWait_iff, fires_irqWait_iff]
      simp [withQueue]
  | exit q =>
      rw [fires_exit_iff, fires_exit_iff]
      simp [withQueue, KernelState.Live]

theorem withWaits_fires {w : IrqWait} {irq : Nat} {rest : List IrqWait}
    {src : Source} {p : Word} :
    Fires (withWaits s irq (w :: rest)) src p <->
      src = .irqWait irq w.address ∧ p = w.task ∨
        Fires (withWaits s irq rest) src p := by
  cases src with
  | alarm x =>
      rw [fires_alarm_iff, fires_alarm_iff]
      simp [withWaits]
  | irqWait n x =>
      rw [fires_irqWait_iff, fires_irqWait_iff]
      change (exists v, v ∈ Function.update s.irqEvents irq (w :: rest) n ∧ _) <->
        _ ∨ exists v, v ∈ Function.update s.irqEvents irq rest n ∧ _
      by_cases hn : n = irq
      · subst hn
        rw [Function.update_self, Function.update_self]
        simp only [List.mem_cons, or_and_right, exists_or, exists_eq_left,
          Source.irqWait.injEq, true_and]
        exact or_congr_left (and_congr eq_comm eq_comm)
      · rw [Function.update_of_ne hn, Function.update_of_ne hn]
        simp [hn]
  | exit q =>
      rw [fires_exit_iff, fires_exit_iff]
      simp [withWaits, KernelState.Live]

theorem add_fires {p : Word} {t : Task} (hnew : p ∉ s.taskList)
    (hlist : s'.taskList = p :: s.taskList)
    (htasks : s'.task = Function.update s.task p t)
    (hwaiting : t.taskWaitingForExit = 0)
    (halarms : s'.clock.alarmQueue = s.clock.alarmQueue)
    (hirqs : s'.irqEvents = s.irqEvents) {src : Source} {r : Word} :
    Fires s' src r <-> Fires s src r := by
  cases src with
  | alarm x => rw [fires_alarm_iff, fires_alarm_iff, halarms]
  | irqWait irq x => rw [fires_irqWait_iff, fires_irqWait_iff, hirqs]
  | exit q =>
      rw [fires_exit_iff, fires_exit_iff, hlist, htasks]
      unfold KernelState.Live
      rw [htasks]
      by_cases hq : q = p
      · subst hq
        rw [Function.update_self, hwaiting]
        constructor
        · rintro ⟨_, _, hne, rfl⟩
          exact absurd rfl hne
        · rintro ⟨hmem, _⟩
          exact absurd hmem hnew
      · rw [Function.update_of_ne hq, List.mem_cons, or_iff_right hq]

theorem afterExit_fires {p : Word} {src : Source} {r : Word} :
    Fires (afterExit s p) src r <-> src ≠ .exit p ∧ Fires s src r := by
  cases src with
  | alarm x =>
      rw [fires_alarm_iff, fires_alarm_iff]
      simp [afterExit]
  | irqWait irq x =>
      rw [fires_irqWait_iff, fires_irqWait_iff]
      simp [afterExit]
  | exit q =>
      rw [fires_exit_iff, fires_exit_iff]
      unfold KernelState.Live afterExit
      by_cases hq : q = p
      · subst hq
        rw [setTask_self]
        constructor
        · rintro ⟨_, hlive, _⟩
          exact absurd rfl hlive
        · rintro ⟨hne, _⟩
          exact absurd rfl hne
      · rw [setTask_other _ _ _ hq]
        simp [hq]

theorem afterExit_state (p q : Word) : ((afterExit s p).task q).state =
    if q = p then .exited else (s.task q).state := by
  unfold afterExit
  by_cases hq : q = p
  · rw [hq, setTask_self, if_pos rfl]
    rfl
  · rw [setTask_other _ _ _ hq, if_neg hq]

theorem afterExit_waiting (p q : Word) :
    ((afterExit s p).task q).taskWaitingForExit =
      (s.task q).taskWaitingForExit := by
  unfold afterExit
  by_cases hq : q = p
  · rw [hq, setTask_self]
    rfl
  · rw [setTask_other _ _ _ hq]

end Sources

end Kernel
end Rmmtos
