import Rmmtos.Fs.Calls
import Rmmtos.Kernel.Exit

/-!
# The system and its calls

The table of {lit}`kernel/syscall.c` with all of its handlers, and the steps of
the whole system: programs run, make calls and go on behind them, and interrupts
come in between.
-/

namespace Rmmtos
namespace Fs

open Library Kernel

structure CallState extends PathState where
  console : PathState.Console

/-- The turns that the loops of a call may take, how deep volumes and
directories lie in one another, and what is in a new buffer. -/
structure CallBounds where
  turns : Nat
  depth : Nat
  before : Bytes

namespace CallState

/-!
# Handlers
-/

/-- A handler gets the task and returns the word for its register {lit}`AX`. -/
abbrev Handler := Word -> CallState -> Result (Word × CallState)

def onTasks (f : Syscall) : Handler := fun task s =>
  (f s.toKernelState task).within fun k => { s with toKernelState := k }

def onFiles (f : Word -> PathState -> Result (Word × PathState)) : Handler :=
  fun task s => (f task s.toPathState).within fun p => { s with toPathState := p }

def sysWriteFile : Handler := fun task s =>
  s.toPathState.sysWriteFile task s.console >>= fun r =>
    .ok (r.1, { toPathState := r.2.2, console := r.2.1 })

/-- {lit}`sys_remove`, which only prints. -/
def sysRemove : Handler := fun _ s => .ok (0xffff, s)

/-- {lit}`sys_create_path`, which only prints. -/
def sysCreatePath : Handler := fun _ s => .ok (0xffff, s)

/-- A handler returns to the program, or its task sleeps in it and the handler
returns when the task runs again. -/
inductive Entry where
  | returns (handler : Handler)
  | sleeps (handler : KernelState -> Word -> Result KernelState)

def readOp (b : CallBounds) : DeviceState.ReadOp :=
  DeviceState.fileRead b.turns b.depth

def syscallTable (b : CallBounds) : List Entry :=
  [.returns (onTasks sysExit),
    .returns (onFiles PathState.sysOpenFile),
    .returns (onFiles PathState.sysCloseFile),
    .returns (onFiles (PathState.sysReadFile (readOp b) b.before)),
    .returns sysWriteFile,
    .returns (onFiles PathState.sysSeek),
    .returns sysRemove,
    .returns (onFiles (PathState.sysMount (readOp b))),
    .returns (onFiles fun _ => PathState.sysUnmount b.turns b.depth),
    .returns (onTasks fun s _ => fork s),
    .returns (onFiles (PathState.sysExec b.turns (readOp b))),
    .sleeps sysSleep,
    .returns sysCreatePath,
    .sleeps sysWaitForTask]

def setResult (s : CallState) (result : Word) : CallState :=
  { s with
    toKernelState :=
      taskSetRegister s.toKernelState s.currentTask regAX result }

/-- A call that sleeps is left when another task has been chosen. -/
def syscallFunc (b : CallBounds) (s : CallState) : Result CallState :=
  let i := taskGetRegister s.toKernelState s.currentTask regAX
  match (syscallTable b)[i.toNat]? with
  | some (.returns handler) =>
      handler s.currentTask s >>= fun r => .ok (r.2.setResult r.1)
  | some (.sleeps handler) =>
      handler s.toKernelState s.currentTask >>= fun k =>
        .ok { s with toKernelState := k }
  | none => .ok (s.setResult 0xffff)

/-!
# Steps
-/

inductive InterruptStep : CallState -> CallState -> Prop where
  | tick {s : CallState} {k : KernelState} :
      s.toKernelState.clockTick = .ok k ->
      InterruptStep s { s with toKernelState := k }
  | irq {s : CallState} {k : KernelState} {irq : Nat} :
      irqResumeWaitingTasks s.toKernelState irq = .ok k ->
      InterruptStep s { s with toKernelState := k }
  | key (s : CallState) (scancode : Byte) :
      InterruptStep s { s with keyb := keybFunc s.keyb scancode }

/-- Besides its calls a program runs, and drivers wait on its behalf; a call
that has slept ends when its task is the current one again. -/
inductive CallStep : CallState -> CallState -> Prop where
  | kernel {s : CallState} {k : KernelState} :
      KernelStep s.toKernelState k -> CallStep s { s with toKernelState := k }
  | call {s s' : CallState} (b : CallBounds) : Running s.toKernelState ->
      syscallFunc b s = .ok s' -> CallStep s s'
  | awake {s : CallState} (result : Word) : Running s.toKernelState ->
      CallStep s (s.setResult result)
  | interrupt {s s' : CallState} : InterruptStep s s' -> CallStep s s'

def Begun (s : CallState) : Prop :=
  Started s.toKernelState

end CallState

end Fs
end Rmmtos
