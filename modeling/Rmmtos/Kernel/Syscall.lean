import Rmmtos.Kernel.Task

/-!
# Interrupts and system calls

The wake sources: the clock's alarms, the lists of tasks that wait for an
interrupt in {lit}`kernel/int_disp.c`, and the task that waits for the end of
another one.  The system calls of {lit}`kernel/syscall.c` register a source and
put their task to sleep.
-/

namespace Rmmtos
namespace Kernel

open Library Fs

/-!
# The clock
-/

/-- The kernel functions that the clock calls. -/
def kernelCalls : ClockCalls Word KernelState where
  malloc size s := s.malloc size
  free block s := s.free block
  wakeup := taskWakeup

def KernelState.setWakeup (s : KernelState) (task milliseconds : Word) :
    Result KernelState :=
  clockSetWakeup kernelCalls task milliseconds s.clock s >>= fun r =>
    .ok { r.2 with clock := r.1 }

def KernelState.clockTick (s : KernelState) : Result KernelState :=
  clockFunc kernelCalls s.clock s >>= fun r => .ok { r.2 with clock := r.1 }

/-!
# Interrupts
-/

def irqWaitSize : Word := 4

def irqCount : Nat := 16

def irqSetWakeup (s : KernelState) (task : Word) (irq : Nat) :
    Result KernelState :=
  s.malloc irqWaitSize >>= fun r =>
    if irqCount ≤ irq then panic .irqIndexOutOfRange
    else if r.1 = 0 then panic .irqWaitAlloc
    else
      .ok { r.2 with
        irqEvents := Function.update r.2.irqEvents irq
          (⟨r.1, task⟩ :: r.2.irqEvents irq) }

def resumeTasks : List IrqWait -> KernelState -> Result KernelState
  | [], s => .ok s
  | item :: rest, s => do
      let s ← taskWakeup item.task s
      let s ← s.free item.address
      resumeTasks rest s

/-- A loop rule for the tasks that an interrupt wakes. -/
theorem resumeTasks_invariant {I : List IrqWait -> KernelState -> Prop}
    (hwake : forall w rest s s₁ s₂, I (w :: rest) s ->
      taskWakeup w.task s = .ok s₁ -> s₁.free w.address = .ok s₂ -> I rest s₂)
    {items : List IrqWait} {s s' : KernelState}
    (hrun : resumeTasks items s = .ok s') (hs : I items s) : I [] s' := by
  induction items generalizing s with
  | nil =>
      cases hrun
      exact hs
  | cons w rest ih =>
      rcases ok_bind_iff.mp hrun with ⟨s₁, hwoken, hrun⟩
      rcases ok_bind_iff.mp hrun with ⟨s₂, hfree, hrun⟩
      exact ih hrun (hwake w rest s s₁ s₂ hs hwoken hfree)

theorem resumeTasks_error {I : List IrqWait -> KernelState -> Prop}
    (hwake : forall w rest s s₁ s₂, I (w :: rest) s ->
      taskWakeup w.task s = .ok s₁ -> s₁.free w.address = .ok s₂ -> I rest s₂)
    {items : List IrqWait} {s : KernelState} {e : Stop}
    (hrun : resumeTasks items s = .error e) (hs : I items s) :
    exists w rest s, I (w :: rest) s ∧ (taskWakeup w.task s = .error e ∨
      exists s₁ : KernelState, s₁.free w.address = .error e) := by
  induction items generalizing s with
  | nil => cases hrun
  | cons w rest ih =>
      rcases error_bind_iff.mp hrun with hfail | ⟨s₁, hwoken, hrun⟩
      · exact ⟨w, rest, s, hs, Or.inl hfail⟩
      · rcases error_bind_iff.mp hrun with hfail | ⟨s₂, hfree, hrun⟩
        · exact ⟨w, rest, s, hs, Or.inr ⟨s₁, hfail⟩⟩
        · exact ih hrun (hwake w rest s s₁ s₂ hs hwoken hfree)

def irqResumeWaitingTasks (s : KernelState) (irq : Nat) : Result KernelState :=
  resumeTasks (s.irqEvents irq) s >>= fun s =>
    .ok { s with irqEvents := Function.update s.irqEvents irq [] }

/-!
# System calls
-/

def taskGetRegister (s : KernelState) (task reg : Word) : Word :=
  peekw s.mem (s.task task).segment ((s.task task).userSp + reg)

def sysSleep (s : KernelState) (task : Word) : Result KernelState := do
  let s ← s.setWakeup task (taskGetRegister s task regBX)
  taskSleep s task

def setWaiting (s : KernelState) (target task : Word) : KernelState :=
  if target ≠ 0 then
    s.setTask target { s.task target with taskWaitingForExit := task }
  else s

def sysWaitForTask (s : KernelState) (task : Word) : Result KernelState :=
  let target := segmentToTask s (taskGetRegister s task regBX)
  taskSleep (setWaiting s target task) task

/-- A driver waits for an interrupt. -/
def irqSleep (s : KernelState) (task : Word) (irq : Nat) :
    Result KernelState := do
  let s ← irqSetWakeup s task irq
  taskSleep s task

/-- The end of {lit}`sys_open_file`: open the node and keep the handle. -/
def openNode (s : KernelState) (task node mode : Word) : Result KernelState :=
  fileOpen s.fs node mode >>= fun r =>
    let s := { s with fs := r.2 }
    if r.1 = 0 then .ok s
    else taskAddHandle s task r.1 >>= fun r => .ok r.2

end Kernel
end Rmmtos
