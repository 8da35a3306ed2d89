import Rmmtos.Machine

/-!
# The clock

The alarms of {lit}`kernel/clock.c`.  The queue keeps, for each alarm, the time
from the alarm before it.  The clock calls the allocator and the scheduler;
both act on a state of their own.
-/

namespace Rmmtos
namespace Kernel

open Library

def hz : Word := 20

/-- {lit}`TICK`, the milliseconds between two ticks. -/
def tick : Word := 50

structure ClockAlarm (τ : Type) where
  address : Word
  delta : Word
  task : τ
deriving DecidableEq, Repr

def clockAlarmSize : Word := 6

structure Clock (τ : Type) where
  alarmQueue : List (ClockAlarm τ)
  ticks : Word
  seconds : Word
deriving DecidableEq, Repr

def Clock.boot {τ : Type} : Clock τ where
  alarmQueue := []
  ticks := 0
  seconds := 0

structure ClockCalls (τ σ : Type) where
  malloc : Word -> σ -> Result (Word × σ)
  free : Word -> σ -> Result σ
  wakeup : τ -> σ -> Result σ

section Clock

variable {τ σ : Type}

/-- Is the new alarm due after the alarm behind the head?  The loop of
{lit}`clock_set_wakeup` never moves on from the head. -/
def dueAfterNext (rest : List (ClockAlarm τ)) (delta : Word) : Bool :=
  match rest with
  | [] => false
  | behind :: _ => decide (behind.delta < delta)

/-- The delta that the {lit}`do`-{lit}`while` loop leaves. -/
def alarmDelta (head : ClockAlarm τ) (rest : List (ClockAlarm τ))
    (delta : Word) : Result Word :=
  whileLoop .hang (dueAfterNext rest) (fun d => .ok (d - head.delta)) wordCount
    (delta - head.delta)

def insertAlarm (alarm : ClockAlarm τ) :
    List (ClockAlarm τ) -> Result (List (ClockAlarm τ))
  | [] => .ok [alarm]
  | head :: rest =>
      alarmDelta head rest alarm.delta >>= fun delta =>
        let alarm := { alarm with delta := delta }
        match rest with
        | [] => .ok [head, alarm]
        | behind :: tail =>
            .ok (head :: alarm ::
              { behind with delta := behind.delta - alarm.delta } :: tail)

def clockSetWakeup (calls : ClockCalls τ σ) (task : τ) (milliseconds : Word)
    (c : Clock τ) (s : σ) : Result (Clock τ × σ) := do
  let (address, s) ← calls.malloc clockAlarmSize s
  if address = 0 then
    panic .alarmAlloc
  else
    let queue ← insertAlarm ⟨address, milliseconds, task⟩ c.alarmQueue
    .ok ({ c with alarmQueue := queue }, s)

def wakeDue (calls : ClockCalls τ σ) :
    List (ClockAlarm τ) -> Word -> σ -> Result (List (ClockAlarm τ) × σ)
  | [], _, s => .ok ([], s)
  | alarm :: rest, tickl, s =>
      if tickl = 0 then .ok (alarm :: rest, s)
      else if alarm.delta ≤ tickl then do
        let s ← calls.wakeup alarm.task s
        let s ← calls.free alarm.address s
        wakeDue calls rest (tickl - alarm.delta) s
      else .ok ({ alarm with delta := alarm.delta - tickl } :: rest, s)

/-- Count the tick, and the second it may complete. -/
def Clock.count (c : Clock τ) : Clock τ :=
  let ticks := c.ticks + 1
  if ticks % hz = 0 then
    { c with ticks := ticks - hz, seconds := c.seconds + 1 }
  else { c with ticks := ticks }

@[simp] theorem Clock.count_alarmQueue (c : Clock τ) :
    c.count.alarmQueue = c.alarmQueue := by
  unfold Clock.count
  dsimp only
  split <;> rfl

def clockFunc (calls : ClockCalls τ σ) (c : Clock τ) (s : σ) :
    Result (Clock τ × σ) := do
  let c := c.count
  let (queue, s) ← wakeDue calls c.alarmQueue tick s
  .ok ({ c with alarmQueue := queue }, s)

theorem insertAlarm_perm {alarm : ClockAlarm τ} {queue queue' : List (ClockAlarm τ)}
    (hrun : insertAlarm alarm queue = .ok queue') :
    (queue'.map (fun a => (a.address, a.task))).Perm
      ((alarm.address, alarm.task) :: queue.map (fun a => (a.address, a.task))) := by
  cases queue with
  | nil =>
      cases hrun
      exact List.Perm.refl _
  | cons head rest =>
      rcases ok_bind_iff.mp hrun with ⟨delta, _, hrun⟩
      cases rest with
      | nil =>
          cases hrun
          exact List.Perm.swap _ _ _
      | cons behind tail =>
          cases hrun
          exact List.Perm.swap _ _ _

/-- A loop rule for the alarms that a tick wakes. -/
theorem wakeDue_invariant {c : ClockCalls τ σ}
    {I : List (ClockAlarm τ) -> σ -> Prop}
    (hwake : forall a rest s s₁ s₂, I (a :: rest) s ->
      c.wakeup a.task s = .ok s₁ -> c.free a.address s₁ = .ok s₂ ->
      I rest s₂)
    (hdelta : forall a rest s d, I (a :: rest) s ->
      I ({ a with delta := d } :: rest) s)
    {queue queue' : List (ClockAlarm τ)} {tickl : Word} {s s' : σ}
    (hrun : wakeDue c queue tickl s = .ok (queue', s')) (hs : I queue s) :
    I queue' s' := by
  induction queue generalizing tickl s with
  | nil =>
      cases hrun
      exact hs
  | cons alarm rest ih =>
      unfold wakeDue at hrun
      split at hrun
      · cases hrun
        exact hs
      · split at hrun
        · rcases ok_bind_iff.mp hrun with ⟨s₁, hwoken, hrun⟩
          rcases ok_bind_iff.mp hrun with ⟨s₂, hfree, hrun⟩
          exact ih hrun (hwake alarm rest s s₁ s₂ hs hwoken hfree)
        · cases hrun
          exact hdelta alarm rest _ _ hs

/-- A tick that fails, fails at an alarm that it wakes. -/
theorem wakeDue_error {c : ClockCalls τ σ}
    {I : List (ClockAlarm τ) -> σ -> Prop}
    (hwake : forall a rest s s₁ s₂, I (a :: rest) s ->
      c.wakeup a.task s = .ok s₁ -> c.free a.address s₁ = .ok s₂ ->
      I rest s₂)
    {queue : List (ClockAlarm τ)} {tickl : Word} {s : σ} {e : Stop}
    (hrun : wakeDue c queue tickl s = .error e) (hs : I queue s) :
    exists a rest s, I (a :: rest) s ∧ (c.wakeup a.task s = .error e ∨
      exists s₁, c.free a.address s₁ = .error e) := by
  induction queue generalizing tickl s with
  | nil => cases hrun
  | cons alarm rest ih =>
      unfold wakeDue at hrun
      split at hrun
      · cases hrun
      · split at hrun
        · rcases error_bind_iff.mp hrun with hfail | ⟨s₁, hwoken, hrun⟩
          · exact ⟨alarm, rest, s, hs, Or.inl hfail⟩
          · rcases error_bind_iff.mp hrun with hfail | ⟨s₂, hfree, hrun⟩
            · exact ⟨alarm, rest, s, hs, Or.inr ⟨s₁, hfail⟩⟩
            · exact ih hrun (hwake alarm rest s s₁ s₂ hs hwoken hfree)
        · cases hrun

end Clock

end Kernel
end Rmmtos
