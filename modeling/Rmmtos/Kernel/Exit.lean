import Rmmtos.Kernel.System

/-!
# The exit system call

The dispatcher of {lit}`kernel/syscall.c` and the first entry of its table.
What a task that exits should leave is what {lit}`task_exit` leaves, but
{lit}`sys_exit` prints its code and returns to the program.
-/

namespace Rmmtos
namespace Kernel

open Library Fs

def numSyscalls : Word := 14

/-- A handler gets the task and returns the word for its register {lit}`AX`. -/
abbrev Syscall := KernelState -> Word -> Result (Word × KernelState)

def taskSetRegister (s : KernelState) (task reg value : Word) : KernelState :=
  { s with
    mem := pokew s.mem (s.task task).segment ((s.task task).userSp + reg) value }

/-- The code in the register {lit}`BX` goes to the console only. -/
def sysExit : Syscall :=
  fun s _ => .ok (0xffff, s)

def syscallTable (others : Nat -> Syscall) : Nat -> Syscall
  | 0 => sysExit
  | i + 1 => others i

def syscallFunc (table : Nat -> Syscall) (s : KernelState) :
    Result KernelState :=
  let i := taskGetRegister s s.currentTask regAX
  if i < numSyscalls then
    table i.toNat s s.currentTask >>= fun r =>
      .ok (taskSetRegister r.2 r.2.currentTask regAX r.1)
  else .ok (taskSetRegister s s.currentTask regAX 0xffff)

/-!
# The end of a task
-/

/-- The task does not run its program in a state or in any later one. -/
def NeverRuns (s : KernelState) (t : Word) : Prop :=
  forall s', Reachable (fun u => u = s) KernelStep s' ->
    ¬ (s'.currentTask = t ∧ Running s')

/-- What the end of a task leaves of a state: the task is over, what it held is
given back, and the task that waits for its end can go on. -/
structure ExitDone (s s' : KernelState) (t : Word) : Prop where
  stopped : NeverRuns s' t
  exited : (s'.task t).state = .exited
  segment : s'.segmentBitmap = freeSegment s.segmentBitmap (s.task t).segment
  handles : forall i, i < (s.task t).handleCount.toNat ->
    s'.handleTable (s.task t).handles i = 0
  waiting : (s.task t).taskWaitingForExit ≠ 0 ->
    (s'.task (s.task t).taskWaitingForExit).state = .running ∨
      (s'.task (s.task t).taskWaitingForExit).state = .wakenBeforeSleep

section Exit

variable {s : KernelState}

theorem sysExit_run (others : Nat -> Syscall)
    (hcall : taskGetRegister s s.currentTask regAX = 0) :
    syscallFunc (syscallTable others) s =
      .ok (taskSetRegister s s.currentTask regAX 0xffff) := by
  unfold syscallFunc
  dsimp only
  rw [hcall]
  rfl

theorem Running.setRegister (h : Running s) (reg value : Word) :
    Running (taskSetRegister s s.currentTask reg value) :=
  h

theorem Running.not_neverRuns (h : Running s) : ¬ NeverRuns s s.currentTask :=
  fun hnever => hnever s (Reachable.start rfl) ⟨rfl, h⟩

theorem Running.not_exited (h : Running s) :
    (s.task s.currentTask).state ≠ .exited :=
  h.live

/-- Whatever the state, a task that asks for its end only gets a word in its
register and goes on. -/
theorem exit_returns_to_program (others : Nat -> Syscall) (hrunning : Running s)
    (hcall : taskGetRegister s s.currentTask regAX = 0) : exists s',
      syscallFunc (syscallTable others) s = .ok s' ∧
      s' = taskSetRegister s s.currentTask regAX 0xffff ∧
      s'.currentTask = s.currentTask ∧ Running s' ∧
      ¬ NeverRuns s' s.currentTask ∧
      (s'.task s.currentTask).state ≠ .exited ∧
      ¬ ExitDone s s' s.currentTask := by
  have hstill := hrunning.setRegister regAX 0xffff
  have hstate := hrunning.not_exited
  refine ⟨_, sysExit_run others hcall, rfl, rfl, hstill,
    hstill.not_neverRuns, hstate, ?_⟩
  exact fun hdone => hstate hdone.exited

end Exit

theorem smallStart_calls_exit :
    taskGetRegister smallStart smallStart.currentTask regAX = 0 := by
  decide +kernel

theorem smallStart_running : Running smallStart :=
  Or.inl (by decide +kernel)

theorem exit_returns_to_first_program : exists s',
    syscallFunc (syscallTable fun _ => sysExit) smallStart = .ok s' ∧
      s' = taskSetRegister smallStart smallStart.currentTask regAX 0xffff ∧
      s'.currentTask = smallStart.currentTask ∧ Running s' ∧
      ¬ NeverRuns s' smallStart.currentTask ∧
      (s'.task smallStart.currentTask).state ≠ .exited ∧
      ¬ ExitDone smallStart s' smallStart.currentTask :=
  exit_returns_to_program _ smallStart_running smallStart_calls_exit

/-- The first task goes on after its end. -/
theorem exit_not_done : exists s s',
    Reachable Started KernelStep s ∧ Running s ∧
      taskGetRegister s s.currentTask regAX = 0 ∧
      syscallFunc (syscallTable fun _ => sysExit) s = .ok s' ∧
      ¬ ExitDone s s' s.currentTask := by
  refine ⟨smallStart, _, Reachable.start smallStart_started, smallStart_running,
    smallStart_calls_exit, sysExit_run _ smallStart_calls_exit, ?_⟩
  exact fun hdone => smallStart_running.not_exited hdone.exited

end Kernel
end Rmmtos
