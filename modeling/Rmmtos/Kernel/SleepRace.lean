import Rmmtos.Library.Interrupts
import Rmmtos.Kernel.Scheduling

/-!
# A wakeup while a task goes to sleep

{lit}`task_sleep` reads the state of its task again in every test, with the
interrupts on, so a {lit}`task_wakeup` may come between a test and what the test
decides.
-/

namespace Rmmtos
namespace Kernel

open Library

/-!
# The steps
-/

/-- Where {lit}`task_sleep` is: in front of a test of the state, in front of an
assignment to it, or in front of its call of the scheduler. -/
inductive SleepPoint where
  | testSleeping
  | testWaken
  | setRunning
  | testRunning
  | setSleeping
  | slept
deriving DecidableEq, Repr

def sleepStep (p : Word) :
    SleepPoint -> KernelState -> Result (SleepPoint × KernelState)
  | .testSleeping, s =>
      if (s.task p).state = .sleeping then panic .sleepingSleeping
      else .ok (.testWaken, s)
  | .testWaken, s =>
      if (s.task p).state = .wakenBeforeSleep then .ok (.setRunning, s)
      else .ok (.testRunning, s)
  | .setRunning, s => .ok (.slept, s.setState p .running)
  | .testRunning, s =>
      if (s.task p).state = .running then .ok (.setSleeping, s)
      else .ok (.slept, s)
  | .setSleeping, s => .ok (.slept, s.setState p .sleeping)
  | .slept, s => .ok (.slept, s)

def sleepSteps : Nat := 4

/-- {lit}`task_sleep` up to the scheduler, with a {lit}`task_wakeup` of the same
task behind its first {lit}`n` steps. -/
def sleepInterrupted (s : KernelState) (p : Word) (n : Nat) :
    Result (SleepPoint × KernelState) :=
  interrupted (sleepStep p) (taskWakeup p) n sleepSteps (.testSleeping, s)

/-- The task runs again when both are done. -/
def WakeupKept (s : KernelState) (p : Word) (n : Nat) : Prop :=
  exists s', sleepInterrupted s p n = .ok (.slept, s') ∧
    (s'.task p).state = .running ∧ SelectedAgain s' p

section Steps

variable {s s' : KernelState} {p : Word} {n : Nat}

theorem sleepStep_slept (p : Word) (s : KernelState) :
    sleepStep p .slept s = .ok (.slept, s) := rfl

@[simp] theorem setState_self (s : KernelState) (p : Word) (st : TaskState) :
    ((s.setState p st).task p).state = st := by
  unfold KernelState.setState
  rw [setTask_self]

theorem sleep_running (h : (s.task p).state = .running) :
    runSteps (sleepStep p) 1 (.testSleeping, s) = .ok (.testWaken, s) ∧
      runSteps (sleepStep p) 2 (.testSleeping, s) = .ok (.testRunning, s) ∧
      runSteps (sleepStep p) 3 (.testSleeping, s) = .ok (.setSleeping, s) ∧
      runSteps (sleepStep p) 4 (.testSleeping, s) =
        .ok (.slept, s.setState p .sleeping) := by
  simp [runSteps, sleepStep, h]

theorem sleep_waken (h : (s.task p).state = .wakenBeforeSleep) :
    runSteps (sleepStep p) 1 (.testSleeping, s) = .ok (.testWaken, s) ∧
      runSteps (sleepStep p) 2 (.testSleeping, s) = .ok (.setRunning, s) ∧
      runSteps (sleepStep p) 3 (.testSleeping, s) =
        .ok (.slept, s.setState p .running) := by
  simp [runSteps, sleepStep, h]

theorem sleep_sleeping (h : (s.task p).state = .sleeping) (n : Nat) :
    runSteps (sleepStep p) (n + 1) (.testSleeping, s) = panic .sleepingSleeping := by
  rw [runSteps_succ]
  unfold sleepStep
  dsimp only
  rw [if_pos h]
  rfl

theorem sleep_exited (h : (s.task p).state = .exited) :
    runSteps (sleepStep p) 3 (.testSleeping, s) = .ok (.slept, s) := by
  simp [runSteps, sleepStep, h]

theorem tests_keep {k : SleepPoint} (hrun : runSteps (sleepStep p) n
    (.testSleeping, s) = .ok (k, s')) (hn : n ≤ 2) : s' = s := by
  cases n with
  | zero =>
      cases hrun
      rfl
  | succ n =>
      rw [runSteps_succ] at hrun
      by_cases hsleeping : (s.task p).state = .sleeping
      · rw [sleepStep, if_pos hsleeping] at hrun
        cases hrun
      · rw [sleepStep, if_neg hsleeping, ok_bind] at hrun
        cases n with
        | zero =>
            cases hrun
            rfl
        | succ n =>
            cases Nat.le_zero.mp (Nat.le_of_succ_le_succ (Nat.le_of_succ_le_succ hn))
            rw [runSteps_succ, sleepStep] at hrun
            split at hrun
            · cases hrun
              rfl
            · cases hrun
              rfl

/-- The steps are the function, up to its call of the scheduler. -/
theorem taskSleep_steps (s : KernelState) (p : Word) :
    taskSleep s p = runSteps (sleepStep p) sleepSteps (.testSleeping, s) >>=
      fun x => taskSchedule x.2 := by
  unfold taskSleep sleepSteps
  cases h : (s.task p).state with
  | running =>
      rw [(sleep_running h).2.2.2]
      rfl
  | sleeping =>
      rw [sleep_sleeping h]
      rfl
  | wakenBeforeSleep =>
      rw [runSteps_late (sleepStep_slept p) (sleep_waken h).2.2 (Nat.le_succ 3)]
      rfl
  | exited =>
      rw [runSteps_late (sleepStep_slept p) (sleep_exited h) (Nat.le_succ 3)]
      rfl

/-!
# The wakeup
-/

theorem wakeup_running (h : (s.task p).state = .running) :
    taskWakeup p s = .ok (s.setState p .wakenBeforeSleep) := by
  unfold taskWakeup
  rw [h]

theorem wakeup_sleeping (h : (s.task p).state = .sleeping) :
    taskWakeup p s = .ok (s.setState p .running) := by
  unfold taskWakeup
  rw [h]

theorem early_wakeup (h : (s.task p).state = .running) (hn : n ≤ 1) :
    sleepInterrupted s p n =
      .ok (.slept, (s.setState p .wakenBeforeSleep).setState p .running) := by
  have hwaken : ((s.setState p .wakenBeforeSleep).task p).state =
      .wakenBeforeSleep := setState_self s p _
  refine interrupted_ok_iff.mpr ?_
  cases n with
  | zero =>
      refine ⟨.testSleeping, s, _, rfl, wakeup_running h, ?_⟩
      exact runSteps_late (sleepStep_slept p) (sleep_waken hwaken).2.2 (Nat.le_succ 3)
  | succ n =>
      cases Nat.le_zero.mp (Nat.le_of_succ_le_succ hn)
      refine ⟨.testWaken, s, _, (sleep_running h).1, wakeup_running h, ?_⟩
      simp [sleepSteps, runSteps, sleepStep]

/-- A wakeup between the second test and the third one is kept for a sleep that
is over. -/
theorem wakeup_after_test (h : (s.task p).state = .running) :
    sleepInterrupted s p 2 = .ok (.slept, s.setState p .wakenBeforeSleep) := by
  refine interrupted_ok_iff.mpr
    ⟨.testRunning, s, _, (sleep_running h).2.1, wakeup_running h, ?_⟩
  simp [sleepSteps, runSteps, sleepStep]

/-- A wakeup between the third test and the assignment is written over. -/
theorem wakeup_before_set (h : (s.task p).state = .running) :
    sleepInterrupted s p 3 =
      .ok (.slept, (s.setState p .wakenBeforeSleep).setState p .sleeping) := by
  refine interrupted_ok_iff.mpr
    ⟨.setSleeping, s, _, (sleep_running h).2.2.1, wakeup_running h, ?_⟩
  rfl

theorem late_wakeup (h : (s.task p).state = .running) (hn : 4 ≤ n) :
    sleepInterrupted s p n =
      .ok (.slept, (s.setState p .sleeping).setState p .running) := by
  refine interrupted_ok_iff.mpr ⟨.slept, s.setState p .sleeping,
    (s.setState p .sleeping).setState p .running,
    runSteps_late (sleepStep_slept p) (sleep_running h).2.2.2 hn, ?_, ?_⟩
  · exact wakeup_sleeping (setState_self s p _)
  · exact runSteps_end (sleepStep_slept p) _ _

theorem not_kept_of_state (h : (s.task p).state ≠ .running) :
    ¬ WakeupKept s p n := by
  rintro ⟨s', hrun, hrunning, _⟩
  rcases interrupted_ok_iff.mp hrun with ⟨k, s₁, s₂, hfirst, hwake, hrest⟩
  cases hstate : (s.task p).state with
  | running => exact h hstate
  | sleeping =>
      cases n with
      | zero =>
          cases hfirst
          rw [wakeup_sleeping hstate] at hwake
          cases hwake
          have hslept := (sleep_running (setState_self s p .running)).2.2.2
          cases hslept.symm.trans hrest
          rw [setState_self] at hrunning
          cases hrunning
      | succ n =>
          rw [sleep_sleeping hstate] at hfirst
          cases hfirst
  | wakenBeforeSleep =>
      rcases Nat.lt_or_ge n 3 with hearly | hlate
      · rw [tests_keep hfirst (Nat.le_of_lt_succ hearly)] at hwake
        unfold taskWakeup at hwake
        rw [hstate] at hwake
        cases hwake
      · rw [runSteps_late (sleepStep_slept p) (sleep_waken hstate).2.2 hlate] at hfirst
        cases hfirst
        rw [wakeup_running (setState_self s p .running)] at hwake
        cases hwake
        rw [runSteps_end (sleepStep_slept p)] at hrest
        cases hrest
        rw [setState_self] at hrunning
        cases hrunning
  | exited =>
      have hsame : s₁ = s := by
        rcases Nat.lt_or_ge n 3 with hearly | hlate
        · exact tests_keep hfirst (Nat.le_of_lt_succ hearly)
        · rw [runSteps_late (sleepStep_slept p) (sleep_exited hstate) hlate] at hfirst
          cases hfirst
          rfl
      rw [hsame] at hwake
      unfold taskWakeup at hwake
      rw [hstate] at hwake
      cases hwake

theorem kept_of_running (hcurrent : s.currentTask ∈ s.taskList)
    (hnodup : s.taskList.Nodup) (hp : p ∈ s.taskList) {st : TaskState}
    (hrun : sleepInterrupted s p n =
      .ok (.slept, (s.setState p st).setState p .running)) : WakeupKept s p n := by
  have hrunning := setState_self (s.setState p st) p .running
  refine ⟨_, hrun, hrunning, ?_⟩
  exact (selectedAgain_iff (s := (s.setState p st).setState p .running)
    hcurrent hnodup hp).mpr hrunning

theorem not_kept_between (h : (s.task p).state = .running) (hn : n = 2 ∨ n = 3) :
    ¬ WakeupKept s p n := by
  rintro ⟨s', hrun, hrunning, _⟩
  rcases hn with rfl | rfl
  · cases (wakeup_after_test h).symm.trans hrun
    rw [setState_self] at hrunning
    cases hrunning
  · cases (wakeup_before_set h).symm.trans hrun
    rw [setState_self] at hrunning
    cases hrunning

end Steps

/-- The wakeup of a task that goes to sleep is kept exactly when the task runs and
the wakeup does not come between the second test and the assignment. -/
theorem task_sleep_wakeup_iff {s : KernelState} {p : Word}
    (hcurrent : s.currentTask ∈ s.taskList) (hnodup : s.taskList.Nodup)
    (hp : p ∈ s.taskList) (n : Nat) :
    WakeupKept s p n <-> (s.task p).state = .running ∧ n ≠ 2 ∧ n ≠ 3 := by
  constructor
  · intro hkept
    have hrunning : (s.task p).state = .running := by
      by_contra h
      exact not_kept_of_state h hkept
    refine ⟨hrunning, ?_, ?_⟩
    · exact fun hn => not_kept_between hrunning (Or.inl hn) hkept
    · exact fun hn => not_kept_between hrunning (Or.inr hn) hkept
  · rintro ⟨hrunning, htwo, hthree⟩
    rcases Nat.lt_or_ge n 2 with hearly | hlate
    · exact kept_of_running hcurrent hnodup hp
        (early_wakeup hrunning (Nat.le_of_lt_succ hearly))
    · exact kept_of_running hcurrent hnodup hp (late_wakeup hrunning (by omega))

theorem task_sleep_wakeup_first_task : WakeupKept smallStart 0x9000 1 :=
  (task_sleep_wakeup_iff (s := smallStart) (p := 0x9000) (by decide) (by decide)
    (by decide) 1).mpr ⟨by decide, by decide, by decide⟩

/-- The first task is woken when it has found that it may sleep. -/
theorem task_sleep_loses_wakeup : ¬ forall (s : KernelState) (p : Word) (n : Nat),
    Started s -> p ∈ s.taskList -> (s.task p).state = .running ->
      WakeupKept s p n := by
  intro hall
  exact not_kept_between (s := smallStart) (p := 0x9000) (by decide) (Or.inr rfl)
    (hall smallStart 0x9000 3 smallStart_started (by decide) (by decide))

end Kernel
end Rmmtos
