import Rmmtos.Kernel.ClockRace
import Rmmtos.Kernel.Exit
import Rmmtos.Kernel.Switch

/-!
# Registering a waiter

The two registrations against the two handlers, in every state that the system can
be in.
-/

namespace Rmmtos
namespace Kernel

open Library Fs

/-- For every list and every queue that a run may reach, wherever the handler comes in
the registration: with {lit}`irq_set_wakeup` all goes well unless the head of a list
with waits has been read and not yet written, and with {lit}`clock_set_wakeup` all goes
well exactly when the tick leaves the alarm that has been read in the queue and the
loop comes to its end. -/
theorem registration_safe_iff {w : Waits} (hw : Reachable WaitsStarted WakeStep w)
    (hidle : w.Idle) :
    (forall irq m n, irq < irqCount -> IrqStart w.kernel irq m ->
      exists k m₁, runSteps (irqSetWakeupStep w.kernel.currentTask irq) n
          (.setWaitList, m) = .ok (k, m₁) ∧
        (IrqSafe w.kernel.currentTask irq ((m.newWait, w.kernel.currentTask) ::
            (w.kernel.irqEvents irq).map IrqWait.pair) n m <->
          (k = .setHead -> w.kernel.irqEvents irq = []))) ∧
    (forall ms m n, ClockStart w.kernel m ->
      exists k m₁ queue, runSteps (clockSetWakeupStep w.kernel.currentTask ms) n
          (.checkAlarm, m) = .ok (k, m₁) ∧
        AlarmsLaid m₁.alarmQueue m₁.item queue ∧
        (ClockSafe w.kernel.currentTask ms ((m.alarm, w.kernel.currentTask) ::
            w.kernel.clock.alarmQueue.map ClockAlarm.pair) n m <->
          PtrKept queue k ∧ LoopEnds ms (remaining queue tick) m₁ k)) :=
  ⟨fun _ _ n hirq hstart => irq_registers_iff hw hidle hirq hstart n,
    fun ms _ n hstart => clock_registers_iff hw hidle hstart ms n⟩

def mallocState (s : KernelState) (size : Word) : KernelState :=
  ((s.malloc size).toOption.map Prod.snd).getD s

def waitingFork : Waits where
  kernel := { registeredParent.kernel with currentTask := 0x9200 }
  registered := registeredParent.registered

theorem waitingFork_reachable : Reachable WaitsStarted WakeStep waitingFork :=
  .step registeredParent_reachable (WakeCall.dispatch 0x9200 (by decide) (Or.inl rfl))

theorem waitingFork_idle : waitingFork.Idle :=
  ⟨Or.inl rfl, rfl⟩

def secondWait : IrqMemory where
  kernel := mallocState waitingFork.kernel irqWaitSize
  head := 0x9400
  item := fun _ => ⟨0x9000, 0⟩
  newWait := 0x9600
  resumed := []

theorem secondWait_start : IrqStart waitingFork.kernel 1 secondWait :=
  ⟨rfl, waitsLaid_cons.mpr ⟨rfl, by decide, rfl, waitsLaid_nil⟩, rfl⟩

def alarmFork : Waits where
  kernel := { (smallFork.setWakeup 0x9000 100).toOption.getD smallFork with
    currentTask := 0x9200 }
  registered := Function.update (fun _ => false) 0x9000 true

theorem alarmFork_reachable : Reachable WaitsStarted WakeStep alarmFork := by
  have hfork : WakeStep ⟨smallStart, fun _ => false⟩ ⟨smallFork, fun _ => false⟩ :=
    WakeCall.fork ⟨Or.inl rfl, rfl⟩
  have hset : WakeStep ⟨smallFork, fun _ => false⟩
      { alarmFork with kernel :=
        (smallFork.setWakeup 0x9000 100).toOption.getD smallFork } :=
    WakeCall.setWakeup 100 ⟨smallFork_running, rfl⟩
  exact .step (.step (.step (.start ⟨smallStart_started, fun _ => rfl⟩) hfork) hset)
    (WakeCall.dispatch 0x9200 (by decide) (Or.inl rfl))

def secondAlarm : ClockMemory where
  kernel := mallocState alarmFork.kernel clockAlarmSize
  alarmQueue := 0x9400
  item := fun _ => ⟨100, 0x9000, 0⟩
  alarm := 0x9600
  ptr := 0
  resumed := []

theorem secondAlarm_start : ClockStart alarmFork.kernel secondAlarm :=
  ⟨rfl, alarmsLaid_cons.mpr ⟨rfl, by decide, rfl, rfl, alarmsLaid_nil⟩, rfl⟩

/-- The second task may register for the interrupt that the first one waits for,
when it comes before the head of the list is read, and for an alarm behind that of
the first one, when a tick that wakes nobody comes before the new alarm is
linked. -/
theorem registration_safe_second_task :
    IrqSafe 0x9200 1 [(0x9600, 0x9200), (0x9400, 0x9000)] 5 secondWait ∧
      ClockSafe 0x9200 200 [(0x9600, 0x9200), (0x9400, 0x9000)] 9 secondAlarm := by
  constructor
  · rcases (registration_safe_iff waitingFork_reachable waitingFork_idle).1 1 _ 5
      (by decide) secondWait_start with ⟨k, m₁, hrun, hiff⟩
    cases hrun
    exact hiff.mpr IrqPoint.noConfusion
  · rcases (registration_safe_iff alarmFork_reachable ⟨Or.inl rfl, rfl⟩).2 200 _ 9
      secondAlarm_start with ⟨k, m₁, queue, hrun, hlaid, hiff⟩
    cases hrun
    refine hiff.mpr ⟨⟨AlarmPoint.noConfusion, fun _ a ha => ?_⟩, trivial⟩
    cases queue with
    | nil => cases ha
    | cons b rest =>
        cases ha
        rcases alarmsLaid_cons.mp hlaid with ⟨haddress, _, hdelta, _⟩
        rw [← hdelta, ← haddress]
        decide +kernel

/-- The interrupt comes when the second task has read the head of the list and not yet
written it. -/
theorem registration_unsafe : ¬ forall (w : Waits) (irq n : Nat) (m : IrqMemory),
    Reachable WaitsStarted WakeStep w -> w.Idle -> irq < irqCount ->
    IrqStart w.kernel irq m ->
    IrqSafe w.kernel.currentTask irq ((m.newWait, w.kernel.currentTask) ::
      (w.kernel.irqEvents irq).map IrqWait.pair) n m := by
  intro hall
  have hsafe := hall waitingFork 1 6 secondWait waitingFork_reachable waitingFork_idle
    (by decide) secondWait_start
  rcases irq_registers_iff waitingFork_reachable waitingFork_idle (by decide)
    secondWait_start 6 with ⟨k, m₁, hrun, hiff⟩
  have hk : k = .setHead := by
    cases hrun
    rfl
  cases hiff.mp hsafe hk

end Kernel
end Rmmtos
