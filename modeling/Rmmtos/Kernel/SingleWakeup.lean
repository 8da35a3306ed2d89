import Rmmtos.Kernel.WakeSources

/-!
# Single wakeup

A task registers one source and then sleeps, and other tasks, ticks and
interrupts may come between the two.  No task then ever has two sources, so no
task is woken twice, and no task that has exited is woken at all.
-/

namespace Rmmtos
namespace Kernel

open Library Fs

/-!
# Calls

The running system, with a mark on every task that has registered a source and
has not slept yet.
-/

structure Waits where
  kernel : KernelState
  registered : Word -> Bool

/-- The current task runs and has nothing registered. -/
def Waits.Idle (w : Waits) : Prop :=
  Running w.kernel ∧ w.registered w.kernel.currentTask = false

def Waits.register (w : Waits) : Word -> Bool :=
  Function.update w.registered w.kernel.currentTask true

/-- The marks after the current task has slept. -/
def Waits.forget (w : Waits) : Word -> Bool :=
  Function.update w.registered w.kernel.currentTask false

/-- What the kernel may be called to do, with the outcome and the marks then. -/
inductive WakeCall (w : Waits) : Result KernelState -> (Word -> Bool) -> Prop where
  | setWakeup (ms : Word) : w.Idle ->
      WakeCall w (w.kernel.setWakeup w.kernel.currentTask ms) w.register
  | irqSetWakeup (irq : Nat) : w.Idle ->
      WakeCall w (irqSetWakeup w.kernel w.kernel.currentTask irq) w.register
  | waitFor (target : Word) : w.Idle ->
      target = 0 ∨ target ∈ w.kernel.taskList ∧ target ≠ w.kernel.currentTask ->
      WakeCall w (.ok (setWaiting w.kernel target w.kernel.currentTask)) w.register
  | sleep : w.registered w.kernel.currentTask = true ->
      WakeCall w (taskSleep w.kernel w.kernel.currentTask) w.forget
  | fork : w.Idle ->
      WakeCall w (fork w.kernel >>= fun r => .ok r.2) w.registered
  | exit : w.Idle ->
      WakeCall w (taskExit w.kernel w.kernel.currentTask) w.registered
  | tick : WakeCall w w.kernel.clockTick w.registered
  | irq (irq : Nat) :
      WakeCall w (irqResumeWaitingTasks w.kernel irq) w.registered
  | user (m : Mem) (userSp : Word) : Running w.kernel ->
      OnlySegment w.kernel.mem m
        (w.kernel.task w.kernel.currentTask).segment ->
      WakeCall w (.ok (userStep w.kernel m userSp)) w.registered
  | openNode (node mode : Word) : Running w.kernel ->
      WakeCall w (openNode w.kernel w.kernel.currentTask node mode) w.registered
  | dispatch (p : Word) : p ∈ w.kernel.taskList ->
      (w.kernel.task p).state = .running ∨
        (w.kernel.task p).state = .wakenBeforeSleep ->
      WakeCall w (.ok { w.kernel with currentTask := p }) w.registered

def WakeStep (w w' : Waits) : Prop :=
  WakeCall w (.ok w'.kernel) w'.registered

def WaitsStarted (w : Waits) : Prop :=
  Started w.kernel ∧ forall p, w.registered p = false

/-!
# The invariant
-/

/-- The task may still be woken: it has registered a source and not slept yet,
or it sleeps. -/
def Awaits (s : KernelState) (registered : Word -> Bool) (p : Word) : Prop :=
  (s.task p).state = .running ∧ registered p = true ∨
    (s.task p).state = .sleeping ∧ registered p = false

structure WakeInv (s : KernelState) (registered : Word -> Bool) : Prop where
  named : forall src p, Fires s src p -> p ∈ s.taskList ∧ Awaits s registered p
  single : forall src src' p, Fires s src p -> Fires s src' p -> src = src'
  awake : forall p, registered p = true -> p ∈ s.taskList ∧
    ((s.task p).state = .running ∨ (s.task p).state = .wakenBeforeSleep)
  waken : forall p, p ∈ s.taskList -> (s.task p).state = .wakenBeforeSleep ->
    registered p = true

section Invariant

variable {s s' : KernelState} {registered : Word -> Bool}

theorem WakeInv.unnamed (hs : WakeInv s registered) {p : Word}
    (hstate : (s.task p).state = .running) (hreg : registered p = false)
    (src : Source) : ¬ Fires s src p := by
  intro hsrc
  rcases (hs.named src p hsrc).2 with ⟨_, htrue⟩ | ⟨hsleeping, _⟩
  · rw [hreg] at htrue
    cases htrue
  · rw [hstate] at hsleeping
    cases hsleeping

theorem WakeInv.running (hs : WakeInv s registered) {p : Word}
    (hp : p ∈ s.taskList) (hrunning : (s.task p).state = .running ∨
      (s.task p).state = .wakenBeforeSleep) (hreg : registered p = false) :
    (s.task p).state = .running := by
  rcases hrunning with hstate | hstate
  · exact hstate
  · have htrue := hs.waken p hp hstate
    rw [hreg] at htrue
    cases htrue

theorem WakeInv.less (hs : WakeInv s registered)
    (hlist : s'.taskList = s.taskList)
    (hstate : forall p, (s'.task p).state = (s.task p).state)
    (hless : forall src p, Fires s' src p -> Fires s src p) :
    WakeInv s' registered := by
  constructor
  · intro src p hsrc
    unfold Awaits
    rw [hlist, hstate]
    exact hs.named src p (hless src p hsrc)
  · exact fun src src' p hsrc hsrc' =>
      hs.single src src' p (hless src p hsrc) (hless src' p hsrc')
  · intro p hp
    rw [hlist, hstate]
    exact hs.awake p hp
  · intro p hp hwaken
    rw [hlist] at hp
    rw [hstate] at hwaken
    exact hs.waken p hp hwaken

theorem WakeInv.change (hs : WakeInv s registered) {p : Word} {st : TaskState}
    {b : Bool} (hp : p ∈ s.taskList) (hsources : SameSources s s')
    (hstate : forall q, (s'.task q).state =
      if q = p then st else (s.task q).state)
    (hawaits : (exists src, Fires s src p) -> st = .running ∧ b = true ∨
      st = .sleeping ∧ b = false)
    (hmark : b = true -> st = .running ∨ st = .wakenBeforeSleep)
    (hwaken : st = .wakenBeforeSleep -> b = true) :
    WakeInv s' (Function.update registered p b) := by
  constructor
  · intro src q hsrc
    have hsrc := hsources.fires.mp hsrc
    rcases hs.named src q hsrc with ⟨hq, hawaitsq⟩
    rw [hsources.taskList]
    refine ⟨hq, ?_⟩
    unfold Awaits
    rw [hstate]
    by_cases hqp : q = p
    · subst hqp
      rw [if_pos rfl, Function.update_self]
      exact hawaits ⟨src, hsrc⟩
    · rw [if_neg hqp, Function.update_of_ne hqp]
      exact hawaitsq
  · exact fun src src' q hsrc hsrc' =>
      hs.single src src' q (hsources.fires.mp hsrc) (hsources.fires.mp hsrc')
  · intro q hq
    rw [hsources.taskList, hstate]
    by_cases hqp : q = p
    · subst hqp
      rw [Function.update_self] at hq
      rw [if_pos rfl]
      exact ⟨hp, hmark hq⟩
    · rw [Function.update_of_ne hqp] at hq
      rw [if_neg hqp]
      exact hs.awake q hq
  · intro q hq hwakenq
    rw [hsources.taskList] at hq
    rw [hstate] at hwakenq
    by_cases hqp : q = p
    · subst hqp
      rw [if_pos rfl] at hwakenq
      rw [Function.update_self]
      exact hwaken hwakenq
    · rw [if_neg hqp] at hwakenq
      rw [Function.update_of_ne hqp]
      exact hs.waken q hq hwakenq

theorem WakeInv.register (hs : WakeInv s registered) {p : Word}
    (hp : p ∈ s.taskList) (hrunning : (s.task p).state = .running)
    (hreg : registered p = false) (hlist : s'.taskList = s.taskList)
    (hstate : forall q, (s'.task q).state = (s.task q).state) {n : Source}
    (hfires : forall src q, Fires s' src q ->
      Fires s src q ∨ src = n ∧ q = p) :
    WakeInv s' (Function.update registered p true) := by
  have hunnamed := hs.unnamed hrunning hreg
  constructor
  · intro src q hsrc
    unfold Awaits
    rw [hlist, hstate]
    by_cases hqp : q = p
    · subst hqp
      rw [Function.update_self]
      exact ⟨hp, Or.inl ⟨hrunning, rfl⟩⟩
    · rw [Function.update_of_ne hqp]
      rcases hfires src q hsrc with hold | ⟨_, heq⟩
      · exact hs.named src q hold
      · exact absurd heq hqp
  · intro src src' q hsrc hsrc'
    rcases hfires src q hsrc with hold | ⟨hnew, rfl⟩
    · rcases hfires src' q hsrc' with hold' | ⟨_, rfl⟩
      · exact hs.single src src' q hold hold'
      · exact absurd hold (hunnamed src)
    · rcases hfires src' q hsrc' with hold' | ⟨hnew', _⟩
      · exact absurd hold' (hunnamed src')
      · exact hnew.trans hnew'.symm
  · intro q hq
    rw [hlist, hstate]
    by_cases hqp : q = p
    · rw [hqp]
      exact ⟨hp, Or.inl hrunning⟩
    · rw [Function.update_of_ne hqp] at hq
      exact hs.awake q hq
  · intro q hq hwaken
    rw [hlist] at hq
    rw [hstate] at hwaken
    by_cases hqp : q = p
    · rw [hqp, hrunning] at hwaken
      cases hwaken
    · rw [Function.update_of_ne hqp]
      exact hs.waken q hq hwaken

theorem WakeInv.schedule (hs : WakeInv s registered)
    (hrun : taskSchedule s = .ok s') : WakeInv s' registered := by
  have hsources := taskSchedule_sources hrun
  refine hs.less hsources.taskList (fun p => ?_)
    fun src p => hsources.fires.mp
  rw [taskSchedule_task hrun]

/-!
# Sleeping and waking
-/

theorem WakeInv.taskSleep (hs : WakeInv s registered) {p : Word}
    (hreg : registered p = true) (hrun : taskSleep s p = .ok s') :
    WakeInv s' (Function.update registered p false) := by
  rcases hs.awake p hreg with ⟨hp, hstate⟩
  have hlive := live_of_awake hstate
  rcases taskSleep_cases hlive hrun with
    ⟨_, hschedule⟩ | ⟨hwaken, hschedule⟩
  · refine WakeInv.schedule ?_ hschedule
    exact hs.change hp (setState_sources hlive (by decide))
      (fun q => setState_state p q _) (fun _ => Or.inr ⟨rfl, rfl⟩) (by simp)
      (by simp)
  · refine WakeInv.schedule ?_ hschedule
    refine hs.change hp (setState_sources hlive (by decide))
      (fun q => setState_state p q _) ?_ (by simp) (by simp)
    rintro ⟨src, hsrc⟩
    -- a task that has been woken already has no source left
    rcases (hs.named src p hsrc).2 with ⟨hrunning, _⟩ | ⟨hsleeping, _⟩
    · rw [hwaken] at hrunning
      cases hrunning
    · rw [hwaken] at hsleeping
      cases hsleeping

theorem WakeInv.wakeup (hs : WakeInv s registered) {p : Word}
    (hp : p ∈ s.taskList) (hawaits : Awaits s registered p)
    (hunnamed : forall src, ¬ Fires s src p)
    (hrun : taskWakeup p s = .ok s') : WakeInv s' registered := by
  have hnone : (exists src, Fires s src p) -> False :=
    fun ⟨src, hsrc⟩ => hunnamed src hsrc
  rcases hawaits with ⟨hstate, hreg⟩ | ⟨hstate, hreg⟩
  · have hlive := live_of_state hstate (by decide)
    rcases taskWakeup_cases hrun with ⟨_, rfl⟩ | ⟨hsleeping, _⟩
    · have hnext := hs.change (b := true) hp
        (setState_sources (t := .wakenBeforeSleep) hlive (by decide))
        (fun q => setState_state p q _) (fun h => (hnone h).elim) (by simp)
        (by simp)
      rwa [← hreg, Function.update_eq_self] at hnext
    · rw [hstate] at hsleeping
      cases hsleeping
  · have hlive := live_of_state hstate (by decide)
    rcases taskWakeup_cases hrun with ⟨hrunning, _⟩ | ⟨_, rfl⟩
    · rw [hstate] at hrunning
      cases hrunning
    · have hnext := hs.change (b := false) hp
        (setState_sources (t := .running) hlive (by decide))
        (fun q => setState_state p q _) (fun h => (hnone h).elim) (by simp)
        (by simp)
      rwa [← hreg, Function.update_eq_self] at hnext

theorem WakeInv.drop (hs : WakeInv s registered) {g : Source} {p : Word}
    (hlist : s'.taskList = s.taskList)
    (hstate : forall q, (s'.task q).state = (s.task q).state)
    (hfires : forall src q, Fires s src q <->
      src = g ∧ q = p ∨ Fires s' src q)
    (hgone : forall q, ¬ Fires s' g q) :
    WakeInv s' registered ∧ p ∈ s'.taskList ∧ Awaits s' registered p ∧
      forall src, ¬ Fires s' src p := by
  have hp : Fires s g p := (hfires g p).mpr (Or.inl ⟨rfl, rfl⟩)
  rcases hs.named g p hp with ⟨hmem, hawaits⟩
  refine ⟨hs.less hlist hstate fun src q hsrc => (hfires src q).mpr (Or.inr hsrc),
    hlist ▸ hmem, ?_, ?_⟩
  · unfold Awaits
    rw [hstate]
    exact hawaits
  · intro src hsrc
    have heq := hs.single src g p ((hfires src p).mpr (Or.inr hsrc)) hp
    rw [heq] at hsrc
    exact hgone p hsrc

theorem WakeInv.dropAlarm {a : ClockAlarm Word}
    {rest : List (ClockAlarm Word)}
    (hs : WakeInv (withQueue s (a :: rest)) registered)
    (hnodup : ((a :: rest).map ClockAlarm.address).Nodup) :
    WakeInv (withQueue s rest) registered ∧ a.task ∈ s.taskList ∧
      Awaits (withQueue s rest) registered a.task ∧
      forall src, ¬ Fires (withQueue s rest) src a.task := by
  refine hs.drop (g := .alarm a.address) rfl (fun _ => rfl)
    (fun src q => withQueue_fires) ?_
  intro q hq
  rcases fires_alarm_iff.mp hq with ⟨b, hb, heq, _⟩
  have hfresh := (List.nodup_cons.mp hnodup).1
  exact hfresh (List.mem_map.mpr ⟨b, hb, heq⟩)

theorem WakeInv.dropWait {w : IrqWait} {irq : Nat} {rest : List IrqWait}
    (hs : WakeInv (withWaits s irq (w :: rest)) registered)
    (hnodup : ((w :: rest).map IrqWait.address).Nodup) :
    WakeInv (withWaits s irq rest) registered ∧ w.task ∈ s.taskList ∧
      Awaits (withWaits s irq rest) registered w.task ∧
      forall src, ¬ Fires (withWaits s irq rest) src w.task := by
  refine hs.drop (g := .irqWait irq w.address) rfl (fun _ => rfl)
    (fun src q => withWaits_fires) ?_
  intro q hq
  rcases fires_irqWait_iff.mp hq with ⟨v, hv, heq, _⟩
  have hrest : (withWaits s irq rest).irqEvents irq = rest :=
    Function.update_self ..
  rw [hrest] at hv
  have hfresh := (List.nodup_cons.mp hnodup).1
  exact hfresh (List.mem_map.mpr ⟨v, hv, heq⟩)

def TickInv (registered : Word -> Bool) (queue : List (ClockAlarm Word))
    (s : KernelState) : Prop :=
  (exists label, KernelOwned (withQueue s queue) label) ∧
    WakeInv (withQueue s queue) registered

theorem TickInv.wake {a : ClockAlarm Word} {rest : List (ClockAlarm Word)}
    {s₁ : KernelState} (hs : TickInv registered (a :: rest) s)
    (hwake : taskWakeup a.task s = .ok s₁) (hfree : s₁.free a.address = .ok s') :
    TickInv registered rest s' := by
  rcases hs with ⟨⟨label, howned⟩, hs⟩
  refine ⟨howned.dropAlarm hwake hfree, ?_⟩
  rcases hs.dropAlarm howned.alarms_nodup with ⟨hrest, hp, hawaits, hnone⟩
  have hwoken := hrest.wakeup hp hawaits hnone (taskWakeup_withQueue hwake)
  have hsame := kernel_free_sameTasks (kernel_free_withQueue (q := rest)
    hfree)
  exact hwoken.less hsame.taskList (fun q => by rw [hsame.task])
    fun src q => hsame.sources.fires.mp

theorem TickInv.delta {a : ClockAlarm Word} {rest : List (ClockAlarm Word)}
    {d : Word} (hs : TickInv registered (a :: rest) s) :
    TickInv registered ({ a with delta := d } :: rest) s := by
  rcases hs with ⟨⟨label, howned⟩, hs⟩
  refine ⟨⟨label, howned.replaceQueue howned.alarms_nodup fun b hb => ?_⟩, ?_⟩
  · rcases List.mem_cons.mp hb with rfl | hb
    · exact howned.uses a.address _ (Uses.alarm List.mem_cons_self)
    · exact howned.uses _ _ (Uses.alarm (List.mem_cons_of_mem a hb))
  · refine hs.less rfl (fun _ => rfl) fun src q hsrc => ?_
    have hsplit := withQueue_fires.mp hsrc
    exact (withQueue_fires (a := a)).mpr hsplit

theorem WakeInv.tick (hs : WakeInv s registered) (hsystem : SystemInv s)
    (hrun : s.clockTick = .ok s') : WakeInv s' registered := by
  rcases ok_bind_iff.mp hrun with ⟨r, htick, hr⟩
  rcases ok_bind_iff.mp htick with ⟨⟨queue, s₁⟩, hwake, htick⟩
  cases htick
  cases hr
  rw [Clock.count_alarmQueue] at hwake
  have hend := wakeDue_invariant (c := kernelCalls)
    (I := TickInv registered)
    (fun a rest t t₁ t₂ ht hwake hfree => ht.wake hwake hfree)
    (fun a rest t d ht => ht.delta) hwake ⟨hsystem.owned, hs⟩
  have hsources : SameSources (withQueue s₁ queue)
      { s₁ with clock := { s.clock.count with alarmQueue := queue } } :=
    ⟨rfl, fun _ => Iff.rfl, fun _ => rfl, rfl, rfl⟩
  exact hend.2.less rfl (fun _ => rfl) fun src q => hsources.fires.mp

def IrqInv (registered : Word -> Bool) (irq : Nat) (waits : List IrqWait)
    (s : KernelState) : Prop :=
  (exists label, KernelOwned (withWaits s irq waits) label) ∧
    WakeInv (withWaits s irq waits) registered

theorem IrqInv.wake {irq : Nat} {w : IrqWait} {rest : List IrqWait}
    {s₁ : KernelState} (hs : IrqInv registered irq (w :: rest) s)
    (hwake : taskWakeup w.task s = .ok s₁) (hfree : s₁.free w.address = .ok s') :
    IrqInv registered irq rest s' := by
  rcases hs with ⟨⟨label, howned⟩, hs⟩
  refine ⟨howned.dropWait hwake hfree, ?_⟩
  have hnodup := howned.waits_nodup irq
  have hevents : (withWaits s irq (w :: rest)).irqEvents irq = w :: rest :=
    Function.update_self ..
  rw [hevents] at hnodup
  rcases hs.dropWait hnodup with ⟨hrest, hp, hawaits, hnone⟩
  have hwoken := hrest.wakeup hp hawaits hnone (taskWakeup_withWaits hwake)
  have hsame := kernel_free_sameTasks (kernel_free_withWaits (n := irq)
    (l := rest) hfree)
  exact hwoken.less hsame.taskList (fun q => by rw [hsame.task])
    fun src q => hsame.sources.fires.mp

theorem IrqInv.start (hs : WakeInv s registered) (hsystem : SystemInv s)
    (irq : Nat) : IrqInv registered irq (s.irqEvents irq) s := by
  unfold IrqInv withWaits
  rw [Function.update_eq_self]
  exact ⟨hsystem.owned, hs⟩

theorem WakeInv.irq (hs : WakeInv s registered) (hsystem : SystemInv s)
    {irq : Nat} (hrun : irqResumeWaitingTasks s irq = .ok s') :
    WakeInv s' registered := by
  rcases ok_bind_iff.mp hrun with ⟨s₁, hresume, hr⟩
  cases hr
  have hend := resumeTasks_invariant (I := IrqInv registered irq)
    (fun w rest t t₁ t₂ ht hwake hfree => ht.wake hwake hfree) hresume
    (.start hs hsystem irq)
  exact hend.2

/-!
# Tasks that come and go
-/

theorem WakeInv.fork (hs : WakeInv s registered) (hsystem : SystemInv s)
    (hrunning : (s.task s.currentTask).state = .running) {segment : Word}
    (hrun : Kernel.fork s = .ok (segment, s')) : WakeInv s' registered := by
  rcases hsystem.owned with ⟨label, howned⟩
  rcases fork_eq hrun with ⟨p, stack, s₁, s₂, htask, hstack, _, _, _, rfl⟩
  have hsame := (kernel_malloc_sameTasks htask).trans
    (kernel_malloc_sameTasks hstack)
  have hnew := howned.malloc_fresh htask
  have hfires : forall src q, Fires (({ s₂ with
        mem := forkMem s segment stack
        segmentBitmap := (allocateSegment s.segmentBitmap).2
        taskList := p :: s.taskList } : KernelState).setTask p
          (forkTask (s.task s.currentTask) segment stack)) src q <->
      Fires s src q := by
    intro src q
    apply add_fires (t := forkTask (s.task s.currentTask) segment stack) hnew
    · rfl
    · change Function.update s₂.task p _ = _
      rw [hsame.task]
    · rw [forkTask]
    · change s₂.clock.alarmQueue = _
      rw [hsame.clock]
    · exact hsame.irqEvents
  have hold : forall q, q ∈ s.taskList -> (({ s₂ with
        mem := forkMem s segment stack
        segmentBitmap := (allocateSegment s.segmentBitmap).2
        taskList := p :: s.taskList } : KernelState).setTask p
          (forkTask (s.task s.currentTask) segment stack)).task q =
      s.task q := by
    intro q hq
    have hne : q ≠ p := fun heq => hnew (heq ▸ hq)
    rw [setTask_other _ _ _ hne]
    change s₂.task q = _
    rw [hsame.task]
  constructor
  · intro src q hsrc
    rcases hs.named src q ((hfires src q).mp hsrc) with ⟨hq, hawaits⟩
    refine ⟨List.mem_cons_of_mem p hq, ?_⟩
    unfold Awaits
    rw [hold q hq]
    exact hawaits
  · exact fun src src' q hsrc hsrc' =>
      hs.single src src' q ((hfires src q).mp hsrc) ((hfires src' q).mp hsrc')
  · intro q hq
    rcases hs.awake q hq with ⟨hmem, hstate⟩
    rw [hold q hmem]
    exact ⟨List.mem_cons_of_mem p hmem, hstate⟩
  · intro q hq hwaken
    rcases List.mem_cons.mp hq with rfl | hq
    · -- the new task has the state of its parent, which runs
      rw [setTask_self, forkTask_state, hrunning] at hwaken
      cases hwaken
    · rw [hold q hq] at hwaken
      exact hs.waken q hq hwaken

/-- A task that exits has no source left, and its own source goes with it. -/
theorem WakeInv.afterExit (hs : WakeInv s registered) {p : Word}
    (hstate : (s.task p).state = .running) (hreg : registered p = false) :
    WakeInv (afterExit s p) registered := by
  have hunnamed := hs.unnamed hstate hreg
  constructor
  · intro src q hsrc
    have hold := (afterExit_fires.mp hsrc).2
    have hne : q ≠ p := by
      rintro rfl
      exact hunnamed src hold
    rcases hs.named src q hold with ⟨hq, hawaits⟩
    refine ⟨hq, ?_⟩
    unfold Awaits
    rw [afterExit_state, if_neg hne]
    exact hawaits
  · exact fun src src' q hsrc hsrc' => hs.single src src' q
      (afterExit_fires.mp hsrc).2 (afterExit_fires.mp hsrc').2
  · intro q hq
    have hne : q ≠ p := by
      rintro rfl
      rw [hreg] at hq
      cases hq
    rw [afterExit_state, if_neg hne]
    exact hs.awake q hq
  · intro q hq hwaken
    rw [afterExit_state] at hwaken
    split at hwaken
    · cases hwaken
    · exact hs.waken q hq hwaken

/-- The task that waits for the end of another one is woken by its only
source. -/
theorem WakeInv.waiter (hs : WakeInv s registered) {p : Word}
    (hp : p ∈ s.taskList) (hstate : (s.task p).state = .running)
    (hreg : registered p = false) {s₁ : KernelState}
    (hsame : SameTasks (Kernel.afterExit s p) s₁)
    (hne : (s.task p).taskWaitingForExit ≠ 0) :
    (s.task p).taskWaitingForExit ∈ s₁.taskList ∧
      Awaits s₁ registered (s.task p).taskWaitingForExit ∧
      forall src, ¬ Fires s₁ src (s.task p).taskWaitingForExit := by
  have hlive := live_of_state hstate (by decide)
  have hsource : Fires s (.exit p) (s.task p).taskWaitingForExit :=
    .exit hp hlive hne
  have hother : (s.task p).taskWaitingForExit ≠ p := by
    intro heq
    rw [heq] at hsource
    exact hs.unnamed hstate hreg _ hsource
  rcases hs.named _ _ hsource with ⟨hmem, hawaits⟩
  refine ⟨hsame.taskList ▸ hmem, ?_, ?_⟩
  · unfold Awaits
    rw [hsame.task, afterExit_state, if_neg hother]
    exact hawaits
  · intro src hsrc
    rcases afterExit_fires.mp (hsame.sources.fires.mp hsrc) with ⟨hgone, hold⟩
    exact hgone (hs.single src (.exit p) _ hold hsource)

theorem WakeInv.exit (hs : WakeInv s registered) (hsystem : SystemInv s)
    (hstate : (s.task s.currentTask).state = .running)
    (hreg : registered s.currentTask = false)
    (hrun : taskExit s s.currentTask = .ok s') : WakeInv s' registered := by
  rcases hsystem.owned with ⟨label, howned⟩
  have hlive := live_of_state hstate (by decide)
  rcases howned.taskExit hsystem.current hlive hrun with
    ⟨s₁, s₂, hsame, _, hwake, hschedule⟩
  have hs₁ : WakeInv s₁ registered :=
    (hs.afterExit hstate hreg).less hsame.taskList (fun q => by rw [hsame.task])
      fun src q => hsame.sources.fires.mp
  have hwaiting : (s₁.task s.currentTask).taskWaitingForExit =
      (s.task s.currentTask).taskWaitingForExit := by
    rw [hsame.task, afterExit_waiting]
  have hs₂ : WakeInv s₂ registered := by
    unfold wakeWaiting at hwake
    rw [hwaiting] at hwake
    split at hwake
    · next hne =>
        rcases hs.waiter hsystem.current hstate hreg hsame hne with
          ⟨hmem, hawaits, hnone⟩
        exact hs₁.wakeup hmem hawaits hnone hwake
    · cases hwake
      exact hs₁
  exact hs₂.schedule hschedule

theorem WakeInv.call {w : Waits} {r : Result KernelState}
    {registered' : Word -> Bool} (hs : WakeInv w.kernel w.registered)
    (hsystem : SystemInv w.kernel) (hcall : WakeCall w r registered')
    (hr : r = .ok s') : WakeInv s' registered' ∧ SystemInv s' := by
  have hcurrent := hsystem.current
  cases hcall with
  | setWakeup ms hidle =>
      refine ⟨?_, hsystem.step (.setWakeup hidle.1 hr)⟩
      have hrunning := hs.running hcurrent hidle.1 hidle.2
      rcases setWakeup_view hr with ⟨htask, hlist, _⟩
      rcases setWakeup_fires hr with ⟨x, hfires⟩
      exact hs.register hcurrent hrunning hidle.2 hlist
        (fun q => by rw [htask]) fun src q => (hfires src q).mp
  | irqSetWakeup irq hidle =>
      refine ⟨?_, hsystem.step (.irqSetWakeup hidle.1 hr)⟩
      have hrunning := hs.running hcurrent hidle.1 hidle.2
      rcases irqSetWakeup_view hr with ⟨htask, hlist, _⟩
      rcases irqSetWakeup_fires hr with ⟨x, hfires⟩
      exact hs.register hcurrent hrunning hidle.2 hlist
        (fun q => by rw [htask]) fun src q => (hfires src q).mp
  | waitFor target hidle htarget =>
      cases hr
      refine ⟨?_, hsystem.step (.waitFor hidle.1 (htarget.imp_right And.left))⟩
      have hrunning := hs.running hcurrent hidle.1 hidle.2
      by_cases hzero : target = 0
      · have hsame : setWaiting w.kernel target w.kernel.currentTask =
            w.kernel := by
          unfold setWaiting
          rw [if_neg (not_not_intro hzero)]
        rw [hsame]
        exact hs.register (n := .exit 0) hcurrent hrunning hidle.2 rfl
          (fun _ => rfl) fun src q => Or.inl
      · refine hs.register (n := .exit target) hcurrent hrunning hidle.2 ?_
          (fun q => (setWaiting_task q hzero).1) fun src q hsrc => ?_
        · unfold setWaiting
          split <;> rfl
        · rw [setWaiting_fires hzero] at hsrc
          split at hsrc
          · next heq => exact Or.inr ⟨heq, hsrc.2.2.2⟩
          · exact Or.inl hsrc
  | sleep hreg =>
      exact ⟨hs.taskSleep hreg hr, hsystem.step (.sleep (hs.awake _ hreg).2 hr)⟩
  | fork hidle =>
      rcases ok_bind_iff.mp hr with ⟨⟨segment, s₁⟩, hfork, hr⟩
      cases hr
      have hrunning := hs.running hcurrent hidle.1 hidle.2
      exact ⟨hs.fork hsystem hrunning hfork, hsystem.step (.fork hidle.1 hfork)⟩
  | exit hidle =>
      have hrunning := hs.running hcurrent hidle.1 hidle.2
      exact ⟨hs.exit hsystem hrunning hidle.2 hr, hsystem.step (.exit hidle.1 hr)⟩
  | tick => exact ⟨hs.tick hsystem hr, hsystem.step (.tick hr)⟩
  | irq irq => exact ⟨hs.irq hsystem hr, hsystem.step (.irq hr)⟩
  | user m userSp hrunning hmem =>
      cases hr
      refine ⟨?_, hsystem.step (.user hrunning hmem)⟩
      rcases userStep_sources (s := w.kernel) m userSp with ⟨hsources, hstate⟩
      exact hs.less hsources.taskList hstate fun src q => hsources.fires.mp
  | openNode node mode hrunning =>
      refine ⟨?_, hsystem.step (.openNode hrunning hr)⟩
      rcases hsystem.owned with ⟨label, howned⟩
      rcases howned.openNode hcurrent hrunning.live hr with ⟨_, hview⟩
      exact hs.less hview.taskList hview.state
        fun src q => hview.sources.fires.mp
  | dispatch p hp hstate =>
      cases hr
      have hlive : w.kernel.Live p := live_of_awake hstate
      refine ⟨?_, hsystem.step (.dispatch hp hlive)⟩
      have hsources : SameSources w.kernel { w.kernel with currentTask := p } :=
        ⟨rfl, fun _ => Iff.rfl, fun _ => rfl, rfl, rfl⟩
      exact hs.less rfl (fun _ => rfl) fun src q => hsources.fires.mp

end Invariant

/-!
# The panics of a second wakeup

The other parts of the kernel panic for other reasons.
-/

def WakePanic (e : Stop) : Prop :=
  e = .panic .secondWakeup ∨ e = .panic .wakeupOnExited ∨
    e = .panic .sleepingSleeping

instance (e : Stop) : Decidable (WakePanic e) :=
  inferInstanceAs (Decidable (_ ∨ _ ∨ _))

section Panics

variable {s : KernelState} {registered : Word -> Bool}

theorem heap_malloc_avoids (h : Heap) (size : Word) :
    Avoids WakePanic (Kernel.malloc h size) := by
  unfold Kernel.malloc
  refine avoids_bind (avoids_whileLoop (by decide) ?_ _ _) fun b _ => ?_
  · exact fun _ => avoids_ok _
  refine avoids_bind (avoids_whileLoop (by decide) ?_ _ _) fun c _ => ?_
  · exact fun _ => avoids_ok _
  split
  · exact avoids_ok _
  · exact avoids_error (by decide)

theorem heap_free_avoids (h : Heap) (block : Word) :
    Avoids WakePanic (Kernel.free h block) := by
  unfold Kernel.free
  split
  · exact avoids_error (by decide)
  · exact avoids_ok _

theorem kernel_malloc_avoids (s : KernelState) (size : Word) :
    Avoids WakePanic (s.malloc size) :=
  avoids_bind (avoids_bind (heap_malloc_avoids _ _) fun _ _ => avoids_ok _)
    fun _ _ => avoids_ok _

theorem kernel_free_avoids (s : KernelState) (block : Word) :
    Avoids WakePanic (s.free block) :=
  avoids_bind (avoids_bind (heap_free_avoids _ _) fun _ _ => avoids_ok _)
    fun _ _ => avoids_ok _

theorem taskSchedule_avoids (s : KernelState) :
    Avoids WakePanic (taskSchedule s) := by
  unfold taskSchedule searchTask
  refine avoids_bind (avoids_whileLoop (by decide) ?_ _ _) fun x _ => ?_
  · exact fun _ => avoids_ok _
  split
  · exact avoids_ok _
  · exact avoids_ok _
  · exact avoids_error (by decide)

theorem insertAlarm_avoids (alarm : ClockAlarm Word)
    (queue : List (ClockAlarm Word)) :
    Avoids WakePanic (insertAlarm alarm queue) := by
  unfold insertAlarm
  split
  · exact avoids_ok _
  · refine avoids_bind (avoids_whileLoop (by decide) ?_ _ _) fun d _ => ?_
    · exact fun _ => avoids_ok _
    split <;> exact avoids_ok _

theorem setWakeup_avoids (s : KernelState) (task ms : Word) :
    Avoids WakePanic (s.setWakeup task ms) := by
  unfold KernelState.setWakeup clockSetWakeup
  refine avoids_bind (avoids_bind (kernel_malloc_avoids _ _) ?_)
    fun _ _ => avoids_ok _
  rintro ⟨x, s₁⟩ _
  dsimp only
  split
  · exact avoids_error (by decide)
  · exact avoids_bind (insertAlarm_avoids _ _) fun _ _ => avoids_ok _

theorem irqSetWakeup_avoids (s : KernelState) (task : Word) (irq : Nat) :
    Avoids WakePanic (irqSetWakeup s task irq) := by
  unfold irqSetWakeup
  refine avoids_bind (kernel_malloc_avoids _ _) fun r _ => ?_
  split
  · exact avoids_error (by decide)
  · split
    · exact avoids_error (by decide)
    · exact avoids_ok _

theorem fork_avoids (s : KernelState) : Avoids WakePanic (fork s) := by
  unfold fork
  refine avoids_bind (kernel_malloc_avoids _ _) fun r _ => ?_
  refine avoids_bind (kernel_malloc_avoids _ _) fun r' _ => ?_
  dsimp only
  split
  · exact avoids_error (by decide)
  · exact avoids_ok _

theorem closeHandle_avoids (fs : FsState) (handle : Word) :
    Avoids WakePanic (closeHandle fs handle) := by
  unfold closeHandle
  exact avoids_bind (heap_free_avoids _ _) fun _ _ => avoids_ok _

theorem closeEntry_avoids (table : Word) (s : KernelState) (i : Nat) :
    Avoids WakePanic (closeEntry table s i) := by
  unfold closeEntry
  dsimp only
  split
  · exact avoids_ok _
  · split
    · exact avoids_bind (closeHandle_avoids _ _) fun _ _ => avoids_ok _
    · split
      · exact avoids_bind (closeHandle_avoids _ _) fun _ _ => avoids_ok _
      · exact avoids_ok _

theorem releaseTask_avoids (s : KernelState) (p : Word) :
    Avoids WakePanic (releaseTask s p) := by
  unfold releaseTask
  refine avoids_bind (avoids_foldlM (closeEntry_avoids _) _ _) fun s₁ _ => ?_
  refine avoids_bind (kernel_free_avoids _ _) fun s₂ _ => ?_
  exact avoids_bind (kernel_free_avoids _ _) fun s₃ _ => avoids_ok _

theorem openNode_avoids (s : KernelState) (p node mode : Word) :
    Avoids WakePanic (openNode s p node mode) := by
  unfold openNode
  refine avoids_bind ?_ fun r _ => ?_
  · unfold fileOpen
    split
    · exact avoids_ok _
    · split
      · exact avoids_error (by decide)
      · refine avoids_bind (avoids_bind (heap_malloc_avoids _ _)
          fun _ _ => avoids_ok _) fun r _ => ?_
        split <;> exact avoids_ok _
  · dsimp only
    split
    · exact avoids_ok _
    · refine avoids_bind ?_ fun _ _ => avoids_ok _
      unfold taskAddHandle
      dsimp only
      split
      · exact avoids_ok _
      · refine avoids_bind (kernel_malloc_avoids _ _) fun r' _ => ?_
        split
        · exact avoids_ok _
        · split
          · exact avoids_bind (kernel_free_avoids _ _) fun _ _ => avoids_ok _
          · exact avoids_ok _

theorem taskWakeup_avoids {p : Word} (hawaits : Awaits s registered p) :
    Avoids WakePanic (taskWakeup p s) := by
  unfold taskWakeup
  rcases hawaits with ⟨hstate, _⟩ | ⟨hstate, _⟩
  · rw [hstate]
    exact avoids_ok _
  · rw [hstate]
    exact avoids_ok _

theorem taskSleep_avoids {p : Word} (hstate : (s.task p).state = .running ∨
    (s.task p).state = .wakenBeforeSleep) : Avoids WakePanic (taskSleep s p) := by
  unfold taskSleep
  rcases hstate with hstate | hstate
  · rw [hstate]
    exact taskSchedule_avoids _
  · rw [hstate]
    exact taskSchedule_avoids _

theorem WakeInv.tick_avoids (hs : WakeInv s registered)
    (hsystem : SystemInv s) : Avoids WakePanic s.clockTick := by
  unfold KernelState.clockTick clockFunc
  refine avoids_bind (avoids_bind ?_ fun _ _ => avoids_ok _)
    fun _ _ => avoids_ok _
  intro e he
  rw [Clock.count_alarmQueue] at he
  rcases wakeDue_error (c := kernelCalls) (I := TickInv registered)
    (fun a rest t t₁ t₂ ht hwake hfree => ht.wake hwake hfree) he
    ⟨hsystem.owned, hs⟩ with
    ⟨a, rest, t, ⟨⟨label, howned⟩, ht⟩, hfail | ⟨t₁, hfail⟩⟩
  · rcases ht.dropAlarm howned.alarms_nodup with ⟨_, _, hawaits, _⟩
    exact taskWakeup_avoids (s := t) hawaits e hfail
  · exact kernel_free_avoids t₁ a.address e hfail

theorem WakeInv.irq_avoids (hs : WakeInv s registered) (hsystem : SystemInv s)
    (irq : Nat) : Avoids WakePanic (irqResumeWaitingTasks s irq) := by
  unfold irqResumeWaitingTasks
  refine avoids_bind ?_ fun _ _ => avoids_ok _
  intro e he
  rcases resumeTasks_error (I := IrqInv registered irq)
    (fun w rest t t₁ t₂ ht hwake hfree => ht.wake hwake hfree) he
    (.start hs hsystem irq) with
    ⟨w, rest, t, ⟨⟨label, howned⟩, ht⟩, hfail | ⟨t₁, hfail⟩⟩
  · have hnodup := howned.waits_nodup irq
    have hevents : (withWaits t irq (w :: rest)).irqEvents irq = w :: rest :=
      Function.update_self ..
    rw [hevents] at hnodup
    rcases ht.dropWait hnodup with ⟨_, _, hawaits, _⟩
    exact taskWakeup_avoids (s := t) hawaits e hfail
  · exact kernel_free_avoids t₁ w.address e hfail

theorem WakeInv.exit_avoids (hs : WakeInv s registered)
    (hsystem : SystemInv s)
    (hstate : (s.task s.currentTask).state = .running)
    (hreg : registered s.currentTask = false) :
    Avoids WakePanic (taskExit s s.currentTask) := by
  rcases hsystem.owned with ⟨label, howned⟩
  have hlive := live_of_state hstate (by decide)
  unfold taskExit
  refine avoids_bind (releaseTask_avoids _ _) fun s₁ hrelease => ?_
  refine avoids_bind ?_ fun s₂ _ => taskSchedule_avoids s₂
  rcases howned.releaseTask hsystem.current hlive hrelease with ⟨hsame, _⟩
  unfold wakeWaiting
  rw [hsame.task, afterExit_waiting]
  split
  · next hne =>
      rcases hs.waiter hsystem.current hstate hreg hsame hne with
        ⟨_, hawaits, _⟩
      exact taskWakeup_avoids hawaits
  · exact avoids_ok _

theorem WakeInv.call_avoids {w : Waits} {r : Result KernelState}
    {registered' : Word -> Bool} (hs : WakeInv w.kernel w.registered)
    (hsystem : SystemInv w.kernel) (hcall : WakeCall w r registered') :
    Avoids WakePanic r := by
  have hcurrent := hsystem.current
  cases hcall with
  | setWakeup ms _ => exact setWakeup_avoids _ _ _
  | irqSetWakeup irq _ => exact irqSetWakeup_avoids _ _ _
  | waitFor target _ _ => exact avoids_ok _
  | sleep hreg => exact taskSleep_avoids (hs.awake _ hreg).2
  | fork _ => exact avoids_bind (fork_avoids _) fun _ _ => avoids_ok _
  | exit hidle =>
      exact hs.exit_avoids hsystem (hs.running hcurrent hidle.1 hidle.2) hidle.2
  | tick => exact hs.tick_avoids hsystem
  | irq irq => exact hs.irq_avoids hsystem irq
  | user m userSp _ _ => exact avoids_ok _
  | openNode node mode _ => exact openNode_avoids _ _ _ _
  | dispatch p _ _ => exact avoids_ok _

end Panics

/-!
# Runs
-/

/-- No task has two sources or wakes up twice. -/
structure WakeSound (w : Waits) : Prop where
  tasks : w.kernel.taskList.Nodup
  alarms : (w.kernel.clock.alarmQueue.map ClockAlarm.address).Nodup
  irqWaits : forall irq, ((w.kernel.irqEvents irq).map IrqWait.address).Nodup
  single : forall src src' p, Fires w.kernel src p -> Fires w.kernel src' p ->
    src = src'
  live : forall src p, Fires w.kernel src p ->
    p ∈ w.kernel.taskList ∧ (w.kernel.task p).state ≠ .exited
  secondWakeup : forall r registered, WakeCall w r registered ->
    r ≠ .error (.panic .secondWakeup)
  wakeupOnExited : forall r registered, WakeCall w r registered ->
    r ≠ .error (.panic .wakeupOnExited)
  sleepingSleeping : forall r registered, WakeCall w r registered ->
    r ≠ .error (.panic .sleepingSleeping)

theorem wakeSound_of_inv {w : Waits} (hs : WakeInv w.kernel w.registered)
    (hsystem : SystemInv w.kernel) : WakeSound w := by
  rcases hsystem.owned with ⟨label, howned⟩
  refine ⟨howned.tasks_nodup, howned.alarms_nodup, howned.waits_nodup, hs.single,
    ?_, ?_, ?_, ?_⟩
  · intro src p hsrc
    rcases hs.named src p hsrc with ⟨hp, ⟨hstate, _⟩ | ⟨hstate, _⟩⟩ <;>
      refine ⟨hp, ?_⟩ <;> rw [hstate] <;> decide
  · intro r registered hcall hr
    exact hs.call_avoids hsystem hcall _ hr (by decide)
  · intro r registered hcall hr
    exact hs.call_avoids hsystem hcall _ hr (by decide)
  · intro r registered hcall hr
    exact hs.call_avoids hsystem hcall _ hr (by decide)

theorem WaitsStarted.inv {w : Waits} (hs : WaitsStarted w) :
    WakeInv w.kernel w.registered ∧ SystemInv w.kernel := by
  rcases hs with ⟨hstarted, hmarks⟩
  refine ⟨?_, hstarted.inv⟩
  rcases hstarted with ⟨boot, hboot, hrun⟩
  rcases taskInit_eq hboot hrun with ⟨p, stack, s₁, s₂, htask, hstack, _, heq⟩
  have hsame := (kernel_malloc_sameTasks htask).trans
    (kernel_malloc_sameTasks hstack)
  have hnone : forall src q, ¬ Fires w.kernel src q := by
    intro src q hsrc
    rw [heq] at hsrc
    cases src with
    | alarm x =>
        rcases fires_alarm_iff.mp hsrc with ⟨a, ha, _⟩
        change a ∈ s₂.clock.alarmQueue at ha
        rw [hsame.clock, hboot.alarms] at ha
        cases ha
    | irqWait irq x =>
        rcases fires_irqWait_iff.mp hsrc with ⟨a, ha, _⟩
        change a ∈ s₂.irqEvents irq at ha
        rw [hsame.irqEvents, hboot.irqEvents] at ha
        cases ha
    | exit t =>
        rcases fires_exit_iff.mp hsrc with ⟨ht, _, hne, hwaiting⟩
        rcases List.mem_singleton.mp ht with rfl
        rw [setTask_self] at hwaiting
        exact hne hwaiting.symm
  refine ⟨fun src q hsrc => absurd hsrc (hnone src q),
    fun src src' q hsrc => absurd hsrc (hnone src q), ?_, ?_⟩
  · intro q hq
    rw [hmarks q] at hq
    cases hq
  · intro q hq hwaken
    rw [heq] at hq hwaken
    rcases List.mem_singleton.mp hq with rfl
    rw [setTask_self] at hwaken
    cases hwaken

theorem wakeRun_inv {w : Waits} (hs : Reachable WaitsStarted WakeStep w) :
    WakeInv w.kernel w.registered ∧ SystemInv w.kernel := by
  apply hs.invariant
    (I := fun w => WakeInv w.kernel w.registered ∧ SystemInv w.kernel)
  · exact fun w hw => hw.inv
  · rintro w w' ⟨hw, hsystem⟩ hstep
    exact hw.call hsystem hstep rfl

/-- In every run no task is named by two sources, no source names a task that
has exited, and the kernel never panics over a wakeup. -/
theorem single_wakeup {w : Waits} (hs : Reachable WaitsStarted WakeStep w) :
    WakeSound w :=
  wakeSound_of_inv (wakeRun_inv hs).1 (wakeRun_inv hs).2

def registeredParent : Waits where
  kernel := (irqSetWakeup smallFork 0x9000 1).toOption.getD smallFork
  registered := Function.update (fun _ => false) 0x9000 true

def sleepingParent : Waits where
  kernel := (taskSleep registeredParent.kernel 0x9000).toOption.getD smallFork
  registered := Function.update registeredParent.registered 0x9000 false

def wokenParent : Waits where
  kernel := (irqResumeWaitingTasks sleepingParent.kernel 1).toOption.getD smallFork
  registered := sleepingParent.registered

theorem registeredParent_reachable :
    Reachable WaitsStarted WakeStep registeredParent := by
  have hfork : WakeStep ⟨smallStart, fun _ => false⟩ ⟨smallFork, fun _ => false⟩ :=
    WakeCall.fork ⟨Or.inl rfl, rfl⟩
  have hregister : WakeStep ⟨smallFork, fun _ => false⟩ registeredParent :=
    WakeCall.irqSetWakeup 1 ⟨smallFork_running, rfl⟩
  exact .step (.step (.start ⟨smallStart_started, fun _ => rfl⟩) hfork) hregister

theorem sleepingParent_reachable :
    Reachable WaitsStarted WakeStep sleepingParent :=
  .step registeredParent_reachable
    (WakeCall.sleep rfl)

theorem wokenParent_reachable : Reachable WaitsStarted WakeStep wokenParent :=
  .step sleepingParent_reachable (WakeCall.irq 1)

/-- The task is named while it sleeps, and woken once. -/
theorem single_wakeup_parent_sleeps :
    ((sleepingParent.kernel.task 0x9000).state = .sleeping ∧
      sleepingParent.kernel.irqEvents 1 = [⟨0x9400, 0x9000⟩] ∧
      WakeSound sleepingParent) ∧
    (wokenParent.kernel.task 0x9000).state = .running ∧
      wokenParent.kernel.irqEvents 1 = [] ∧ WakeSound wokenParent :=
  ⟨⟨by decide +kernel, by decide +kernel, single_wakeup sleepingParent_reachable⟩,
    by decide +kernel, by decide +kernel, single_wakeup wokenParent_reachable⟩

end Kernel
end Rmmtos
