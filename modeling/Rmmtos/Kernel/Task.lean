import Rmmtos.Kernel.Clock
import Rmmtos.Fs.Node

/-!
# Tasks

The task table of {lit}`kernel/task.c`.  A task is kept by the address of its
{lit}`struct Task`, and the list of tasks is the list of these addresses.
-/

namespace Rmmtos
namespace Kernel

open Library Fs

inductive TaskState where
  | running
  | sleeping
  | wakenBeforeSleep
  | exited
deriving DecidableEq, Repr

structure Task where
  userSp : Word
  stackTop : Word
  segment : Word
  state : TaskState
  kernelSp : Word
  stack : Word
  handles : Word
  handleCount : Byte
  taskWaitingForExit : Word
deriving DecidableEq, Repr

def taskSize : Word := 20

def taskHandleSize : Word := 2

def kernelStackGuardPos : Nat := 0

def kernelStackGuard : Word := 0xafee

structure IrqWait where
  address : Word
  task : Word
deriving DecidableEq, Repr

/-- The state of the kernel.  The tables of task handles are kept by their
addresses, and {lit}`kernelExit` is where the linker put {lit}`_kernel_exit`. -/
structure KernelState where
  fs : FsState
  mem : Mem
  task : Word -> Task
  taskList : List Word
  currentTask : Word
  segmentBitmap : Byte
  clock : Clock Word
  irqEvents : Nat -> List IrqWait
  handleTable : Word -> Nat -> Word
  kernelExit : Word

def KernelState.malloc (s : KernelState) (size : Word) :
    Result (Word × KernelState) :=
  (s.fs.malloc size).within fun fs => { s with fs := fs }

def KernelState.free (s : KernelState) (block : Word) : Result KernelState :=
  (s.fs.free block).into fun fs => { s with fs := fs }

def KernelState.setTask (s : KernelState) (p : Word) (task : Task) :
    KernelState :=
  { s with task := Function.update s.task p task }

def KernelState.setState (s : KernelState) (p : Word) (state : TaskState) :
    KernelState :=
  s.setTask p { s.task p with state := state }

def stackWord (stack : Word) (i : Nat) : Word :=
  stack + BitVec.ofNat 16 (2 * i)

def pokeStack (m : Mem) (stack : Word) (i : Nat) (value : Word) : Mem :=
  pokew m kernelSegment (stackWord stack i) value

/-!
# Segments
-/

def firstSegment : Word := 0x1050

def allocateFrom (bitmap : Byte) (segment : Word) : List Nat -> Word × Byte
  | [] => (0, bitmap)
  | i :: rest =>
      if bitmap &&& byteMask i = 0 then (segment, bitmap ||| byteMask i)
      else allocateFrom bitmap (segment + 0x1000) rest

def allocateSegment (bitmap : Byte) : Word × Byte :=
  allocateFrom bitmap firstSegment (List.range 8)

def freeSegment (bitmap : Byte) (segment : Word) : Byte :=
  bitmap &&& ~~~byteMask ((segment - firstSegment) / 0x1000).toNat

def segmentToTask (s : KernelState) (segment : Word) : Word :=
  (s.taskList.find? (fun p => (s.task p).segment == segment)).getD 0

/-!
# Scheduling

The search for a task to run starts behind the current task and goes round the
list.  When some task may still wake up, the processor is halted until the next
interrupt.
-/

inductive Scheduled where
  | switchTo (newTask : Word)
  | halt
deriving DecidableEq, Repr

structure Search where
  rest : List Word
  seenNonEnded : Bool
  looped : Nat
  found : Option Scheduled

def searchTurn (s : KernelState) (x : Search) : Search :=
  let newTask := x.rest.headD (s.taskList.headD 0)
  let rest := if x.rest.isEmpty then s.taskList.tail else x.rest.tail
  let looped := if x.rest.isEmpty then x.looped + 1 else x.looped
  let seen := x.seenNonEnded || decide ((s.task newTask).state ≠ .exited)
  { rest := rest
    seenNonEnded := seen
    looped := looped
    found :=
      if (s.task newTask).state = .running then some (.switchTo newTask)
      else if seen && decide (2 < looped) then some .halt
      else none }

def tasksBehind (s : KernelState) (p : Word) : List Word :=
  (s.taskList.dropWhile (fun q => q != p)).tail

def searchTask (s : KernelState) : Result Search :=
  let start := searchTurn s ⟨tasksBehind s s.currentTask, false, 0, none⟩
  whileLoop .hang
    (fun x => x.found.isNone && (x.seenNonEnded || decide (x.looped < 2)))
    (fun x => .ok (searchTurn s x)) (4 * (s.taskList.length + 1)) start

/-- {lit}`switch_task` makes the new task the current one. -/
def taskSchedule (s : KernelState) : Result KernelState :=
  searchTask s >>= fun x =>
    match x.found with
    | some (.switchTo newTask) => .ok { s with currentTask := newTask }
    | some .halt => .ok s
    | none => panic .noTasksToRun

def taskSleep (s : KernelState) (p : Word) : Result KernelState :=
  match (s.task p).state with
  | .sleeping => panic .sleepingSleeping
  | .wakenBeforeSleep => taskSchedule (s.setState p .running)
  | .running => taskSchedule (s.setState p .sleeping)
  | .exited => taskSchedule s

def taskWakeup (p : Word) (s : KernelState) : Result KernelState :=
  match (s.task p).state with
  | .wakenBeforeSleep => panic .secondWakeup
  | .running => .ok (s.setState p .wakenBeforeSleep)
  | .sleeping => .ok (s.setState p .running)
  | .exited => panic .wakeupOnExited

/-!
# The first task
-/

def firstFrame (segment : Word) : List (Word × Word) :=
  [(0xfffe, 0x0200), (0xfffc, segment), (0xfffa, 0), (0xfff8, 0xbeef),
    (0xfff6, 0), (0xfff4, 0), (0xfff2, 0), (0xfff0, 0), (0xffee, 0),
    (0xffec, 0), (0xffea, 0)]

def pokeFrame (m : Mem) (segment : Word) (frame : List (Word × Word)) : Mem :=
  frame.foldl (fun m w => pokew m segment w.1 w.2) m

def newTask (segment stack : Word) : Task where
  userSp := 0xffea
  stackTop := stackWord stack (kernelStackWords - 1)
  segment := segment
  state := .running
  kernelSp := stackWord stack (kernelStackWords - 1)
  stack := stack
  handles := 0
  handleCount := 0
  taskWaitingForExit := 0

def newTaskMem (m : Mem) (segment stack : Word) : Mem :=
  let m := pokeFrame m segment (firstFrame segment)
  let m := memsetw m stack 0 (BitVec.ofNat 16 kernelStackWords)
  pokeStack m stack kernelStackGuardPos kernelStackGuard

def taskAdd (s : KernelState) (segment : Word) :
    Result (Word × KernelState) := do
  let (task, s) ← s.malloc taskSize
  let (stack, s) ← s.malloc kernelStackBytes
  if task = 0 ∨ stack = 0 ∨ segment = 0 then
    panic .taskAllocFailed
  else
    let s := { s with
      mem := newTaskMem s.mem segment stack
      taskList := task :: s.taskList
      currentTask := if s.taskList = [] then task else s.currentTask }
    .ok (task, s.setTask task (newTask segment stack))

def taskInit (s : KernelState) : Result KernelState :=
  let (segment, bitmap) := allocateSegment s.segmentBitmap
  taskAdd { s with segmentBitmap := bitmap } segment >>= fun r => .ok r.2

/-!
# Handles
-/

def KernelState.setEntry (s : KernelState) (table : Word) (i : Nat)
    (handle : Word) : KernelState :=
  { s with
    handleTable := Function.update s.handleTable table
      (Function.update (s.handleTable table) i handle) }

/-- The copy of a handle table that is five entries longer. -/
def growTable (s : KernelState) (newTable table : Word) (count : Nat) :
    KernelState :=
  { s with
    handleTable := Function.update s.handleTable newTable
      (fun i => if table ≠ 0 ∧ i < count then s.handleTable table i else 0) }

def taskAddHandle (s : KernelState) (p handle : Word) :
    Result (Word × KernelState) :=
  let task := s.task p
  let count := task.handleCount.toNat
  match (List.range count).find? (fun i => s.handleTable task.handles i == 0) with
  | some i => .ok (BitVec.ofNat 16 (i + 1), s.setEntry task.handles i handle)
  | none => do
      let (newTable, s) ← s.malloc (taskHandleSize * BitVec.ofNat 16 (count + 5))
      if newTable = 0 then .ok (0, s)
      else
        let s := growTable s newTable task.handles count
        let s ← if task.handles ≠ 0 then s.free task.handles else .ok s
        let s := s.setTask p { s.task p with
          handles := newTable
          handleCount := BitVec.ofNat 8 (count + 5) }
        .ok (BitVec.ofNat 16 (count + 1), s.setEntry newTable count handle)

/-- Close one handle of a task that exits. -/
def closeEntry (table : Word) (s : KernelState) (i : Nat) :
    Result KernelState :=
  let handle := s.handleTable table i
  if handle = 0 then .ok s
  else if asks (s.fs.handle handle).flags directoryFlag then
    directoryClose s.fs handle >>= fun fs =>
      .ok ({ s with fs := fs }.setEntry table i 0)
  else if asks (s.fs.handle handle).flags fileFlag then
    fileClose s.fs handle >>= fun fs =>
      .ok ({ s with fs := fs }.setEntry table i 0)
  else .ok s

def closeEntries (table : Word) (s : KernelState) (count : Nat) :
    Result KernelState :=
  (List.range count).foldlM (closeEntry table) s

def wakeWaiting (s : KernelState) (p : Word) : Result KernelState :=
  if (s.task p).taskWaitingForExit ≠ 0 then
    taskWakeup (s.task p).taskWaitingForExit s
  else .ok s

/-- The first half of {lit}`task_exit`: give back what the task holds. -/
def releaseTask (s : KernelState) (p : Word) : Result KernelState := do
  let s := { s with
    segmentBitmap := freeSegment s.segmentBitmap (s.task p).segment }
  let s ← closeEntries (s.task p).handles s (s.task p).handleCount.toNat
  let s ← s.free (s.task p).handles
  let s := s.setTask p { s.task p with handleCount := 0, state := .exited }
  let s ← s.free (s.task p).stack
  .ok (s.setTask p { s.task p with stack := 0 })

def taskExit (s : KernelState) (p : Word) : Result KernelState := do
  let s ← releaseTask s p
  let s ← wakeWaiting s p
  taskSchedule s

/-!
# Fork
-/

/-- The kernel stack on which a new task returns to its program. -/
def forkStack (m : Mem) (stack kernelExit : Word) : Mem :=
  let m := memsetw m stack 0 (BitVec.ofNat 16 kernelStackWords)
  let m := pokeStack m stack (kernelStackWords - 1) kernelExit
  let m := pokeStack m stack (kernelStackWords - 2) 0
  let m := pokeStack m stack (kernelStackWords - 3) 0
  let m := pokeStack m stack (kernelStackWords - 4) 0
  let m := pokeStack m stack (kernelStackWords - 5) 0
  pokeStack m stack kernelStackGuardPos kernelStackGuard

def forkSegment (m : Mem) (segment parentSegment : Word) : Mem :=
  let m := farmemcpy m 0x0000 0x0000 0x8000 segment parentSegment
  farmemcpy m 0x8000 0x8000 0x8000 segment parentSegment

def regAX : Word := 12

def regBX : Word := 10

def regCS : Word := 18

def forkTask (parent : Task) (segment stack : Word) : Task :=
  { parent with
    segment := segment
    stack := stack
    kernelSp := stackWord stack (kernelStackWords - 5)
    stackTop := stackWord stack kernelStackWords
    handleCount := 0
    handles := 0
    taskWaitingForExit := 0 }

/-- The memory after a fork. -/
def forkMem (s : KernelState) (segment stack : Word) : Mem :=
  let parent := s.task s.currentTask
  let m := forkSegment s.mem segment parent.segment
  let m := forkStack m stack s.kernelExit
  let m := pokew m segment (parent.userSp + regCS) segment
  pokew m segment (parent.userSp + regAX) 0

def fork (s : KernelState) : Result (Word × KernelState) := do
  let (task, s) ← s.malloc taskSize
  let (stack, s) ← s.malloc kernelStackBytes
  let (segment, bitmap) := allocateSegment s.segmentBitmap
  if task = 0 ∨ stack = 0 ∨ segment = 0 then
    panic .taskAllocFailed
  else
    let child := forkTask (s.task s.currentTask) segment stack
    let s := { s with
      mem := forkMem s segment stack
      segmentBitmap := bitmap
      taskList := task :: s.taskList }
    .ok (segment, s.setTask task child)

end Kernel
end Rmmtos
