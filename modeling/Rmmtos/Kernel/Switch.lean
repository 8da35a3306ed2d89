import Rmmtos.Kernel.ForkMemory

/-!
# Switching tasks

The assembly of {lit}`switch_task` and of {lit}`_kernel_exit`.  The first switch
to a forked task pops the words that the fork has put on its kernel stack and
returns to its program.
-/

namespace Rmmtos
namespace Kernel

open Library Fs

/-!
# The processor

The arithmetic flags are left out: no instruction here depends on them but one
comparison, and the last instruction loads all flags.
-/

inductive Reg where
  | ax | bx | cx | dx | si | di | bp | sp
  | ss | ds | es | cs | ip | flags
deriving DecidableEq, Repr

structure Machine where
  reg : Reg -> Word
  mem : Mem
  task : Word -> Task
  currentTask : Word

def Task.field (t : Task) (off : Word) : Word :=
  if off = 0 then t.userSp
  else if off = 2 then t.stackTop
  else if off = 4 then t.segment
  else t.kernelSp

def interruptFlag : Word := 0x0200

/-- The instructions of the two routines.  {lit}`mov dst, off[bp]` is
{lit}`loadArg`, and the same with the address of a task is {lit}`loadField`. -/
inductive Instr where
  | push (r : Reg)
  | pop (r : Reg)
  | mov (dst src : Reg)
  | loadArg (dst : Reg) (off : Word)
  | loadField (dst base : Reg) (off : Word)
  | storeKernelSp (base src : Reg)
  | loadCurrent (dst : Reg)
  | storeCurrent (src : Reg)
  | xchg (r r' : Reg)
  | cli
  | sti
  | addSp (n : Word)
deriving DecidableEq, Repr

def Machine.set (k : Machine) (r : Reg) (value : Word) : Machine :=
  { k with reg := Function.update k.reg r value }

def Instr.exec (k : Machine) : Instr -> Machine
  | push r =>
      let k' := k.set .sp (k.reg .sp - 2)
      { k' with mem := pokew k.mem (k.reg .ss) (k.reg .sp - 2) (k.reg r) }
  | pop r =>
      let value := peekw k.mem (k.reg .ss) (k.reg .sp)
      (k.set .sp (k.reg .sp + 2)).set r value
  | mov dst src => k.set dst (k.reg src)
  | loadArg dst off => k.set dst (peekw k.mem (k.reg .ss) (k.reg .bp + off))
  | loadField dst base off => k.set dst ((k.task (k.reg base)).field off)
  | storeKernelSp base src =>
      let task := { k.task (k.reg base) with kernelSp := k.reg src }
      { k with task := Function.update k.task (k.reg base) task }
  | loadCurrent dst => k.set dst k.currentTask
  | storeCurrent src => { k with currentTask := k.reg src }
  | xchg r r' => (k.set r (k.reg r')).set r' (k.reg r)
  | cli => k.set .flags (k.reg .flags &&& ~~~interruptFlag)
  | sti => k.set .flags (k.reg .flags ||| interruptFlag)
  | addSp n => k.set .sp (k.reg .sp + n)

def exec (k : Machine) (code : List Instr) : Machine :=
  code.foldl Instr.exec k

/-!
# The code
-/

/-- {lit}`switch_task` up to its arguments. -/
def saveCode : List Instr :=
  [.push .bp, .mov .bp .sp, .push .ax, .push .si, .push .di, .loadArg .di 4,
    .loadArg .si 6]

/-- The exchange of the stack pointers. -/
def swapCode : List Instr :=
  [.loadField .ax .si 8, .cli, .storeCurrent .si, .xchg .ax .sp, .sti,
    .storeKernelSp .di .ax]

/-- The end of {lit}`switch_task`, with its return. -/
def restoreCode : List Instr :=
  [.pop .di, .pop .si, .pop .ax, .pop .bp, .pop .ip]

def switchTask (k : Machine) : Machine :=
  exec (exec (exec k saveCode) swapCode) restoreCode

/-- The start of {lit}`_kernel_exit`.  It also reads the task's state into
{lit}`DX`, which the pops overwrite. -/
def loadTaskCode : List Instr :=
  [.loadCurrent .bp, .loadField .ax .bp 0, .loadField .bx .bp 4,
    .loadField .cx .bp 2]

/-- The part that is skipped unless the kernel stack is empty. -/
def userStackCode : List Instr :=
  [.cli, .mov .ss .bx, .mov .sp .ax, .mov .ds .bx, .mov .es .bx]

/-- The pops, past the return address of {lit}`kernel_enter`, and the return from
the interrupt. -/
def popRegsCode : List Instr :=
  [.pop .bp, .pop .di, .pop .si, .pop .dx, .pop .cx, .pop .bx, .pop .ax,
    .addSp 2, .pop .ip, .pop .cs, .pop .flags]

def kernelExitRun (k : Machine) : Machine :=
  let k := exec k loadTaskCode
  let k := if k.reg .sp = k.reg .cx then exec k userStackCode else k
  exec k popRegsCode

/-!
# What the code does
-/

section Code

variable {k : Machine}

@[simp] theorem exec_nil (k : Machine) : exec k [] = k := rfl

@[simp] theorem exec_cons (k : Machine) (i : Instr) (code : List Instr) :
    exec k (i :: code) = exec (i.exec k) code := rfl

@[simp] theorem set_mem (k : Machine) (r : Reg) (value : Word) :
    (k.set r value).mem = k.mem := rfl

@[simp] theorem set_task (k : Machine) (r : Reg) (value : Word) :
    (k.set r value).task = k.task := rfl

@[simp] theorem set_currentTask (k : Machine) (r : Reg) (value : Word) :
    (k.set r value).currentTask = k.currentTask := rfl

@[simp] theorem set_reg (k : Machine) (r r' : Reg) (value : Word) :
    (k.set r value).reg r' = if r' = r then value else k.reg r' :=
  Function.update_apply ..

theorem restore_reg (k : Machine) (r : Reg) :
    (exec k restoreCode).reg r =
      match r with
      | .di => peekw k.mem (k.reg .ss) (k.reg .sp)
      | .si => peekw k.mem (k.reg .ss) (k.reg .sp + 2)
      | .ax => peekw k.mem (k.reg .ss) (k.reg .sp + 4)
      | .bp => peekw k.mem (k.reg .ss) (k.reg .sp + 6)
      | .ip => peekw k.mem (k.reg .ss) (k.reg .sp + 8)
      | .sp => k.reg .sp + 10
      | r => k.reg r := by
  cases r <;> simp [restoreCode, Instr.exec, BitVec.add_assoc]

theorem restore_other (k : Machine) : (exec k restoreCode).mem = k.mem ∧
    (exec k restoreCode).task = k.task ∧
    (exec k restoreCode).currentTask = k.currentTask := by
  simp [restoreCode, Instr.exec]

theorem popRegs_reg (k : Machine) (r : Reg) :
    (exec k popRegsCode).reg r =
      match r with
      | .bp => peekw k.mem (k.reg .ss) (k.reg .sp)
      | .di => peekw k.mem (k.reg .ss) (k.reg .sp + 2)
      | .si => peekw k.mem (k.reg .ss) (k.reg .sp + 4)
      | .dx => peekw k.mem (k.reg .ss) (k.reg .sp + 6)
      | .cx => peekw k.mem (k.reg .ss) (k.reg .sp + 8)
      | .bx => peekw k.mem (k.reg .ss) (k.reg .sp + 10)
      | .ax => peekw k.mem (k.reg .ss) (k.reg .sp + 12)
      | .ip => peekw k.mem (k.reg .ss) (k.reg .sp + 16)
      | .cs => peekw k.mem (k.reg .ss) (k.reg .sp + 18)
      | .flags => peekw k.mem (k.reg .ss) (k.reg .sp + 20)
      | .sp => k.reg .sp + 22
      | r => k.reg r := by
  cases r <;> simp [popRegsCode, Instr.exec, BitVec.add_assoc]

theorem swap_reg (k : Machine) : (exec k swapCode).reg .sp =
      (k.task (k.reg .si)).kernelSp ∧
    (exec k swapCode).reg .ss = k.reg .ss ∧
    (exec k swapCode).mem = k.mem ∧
    (exec k swapCode).currentTask = k.reg .si ∧
    forall p, p ≠ k.reg .di -> (exec k swapCode).task p = k.task p := by
  refine ⟨?_, ?_, ?_, ?_, ?_⟩
  · simp [swapCode, Instr.exec, Task.field]
  · simp [swapCode, Instr.exec]
  · simp [swapCode, Instr.exec]
  · simp [swapCode, Instr.exec]
  · intro p hp
    simp [swapCode, Instr.exec, Function.update_of_ne hp]

def OutsidePushes (k : Machine) (x : Nat) : Prop :=
  forall i, i < 8 ->
    x ≠ linear (k.reg .ss) (k.reg .sp - BitVec.ofNat 16 (i + 1))

def pushedMem (k : Machine) : Mem :=
  let m := pokew k.mem (k.reg .ss) (k.reg .sp - 2) (k.reg .bp)
  let m := pokew m (k.reg .ss) (k.reg .sp - 4) (k.reg .ax)
  let m := pokew m (k.reg .ss) (k.reg .sp - 6) (k.reg .si)
  pokew m (k.reg .ss) (k.reg .sp - 8) (k.reg .di)

theorem pushedMem_other {x : Nat} (h : OutsidePushes k x) :
    pushedMem k x = k.mem x := by
  have hword : forall i, i + 1 < 8 ->
      k.reg .sp - BitVec.ofNat 16 (i + 2) + 1 =
        k.reg .sp - BitVec.ofNat 16 (i + 1) := by
    intro i hi
    bv_omega
  have hpoke : forall (m : Mem) (i : Nat) (value : Word), i + 1 < 8 ->
      pokew m (k.reg .ss) (k.reg .sp - BitVec.ofNat 16 (i + 2)) value x =
        m x := by
    intro m i value hi
    apply pokew_other
    · exact h (i + 1) hi
    · rw [hword i hi]
      exact h i (by omega)
  unfold pushedMem
  exact (hpoke _ 6 _ (by decide)).trans ((hpoke _ 4 _ (by decide)).trans
    ((hpoke _ 2 _ (by decide)).trans (hpoke _ 0 _ (by decide))))

theorem peekw_pushedMem {n : Nat} (hn : n < 1024) :
    peekw (pushedMem k) (k.reg .ss) (k.reg .sp + BitVec.ofNat 16 n) =
      peekw k.mem (k.reg .ss) (k.reg .sp + BitVec.ofNat 16 n) := by
  have houtside : forall off, (exists n, n < 1025 ∧
      off = k.reg .sp + BitVec.ofNat 16 n) ->
      OutsidePushes k (linear (k.reg .ss) off) := by
    rintro off ⟨n, hn, rfl⟩ i hi heq
    have heq := linear_injective heq
    have hi' : BitVec.ofNat 16 n + BitVec.ofNat 16 (i + 1) = 0 := by
      bv_omega
    have hnat := congrArg BitVec.toNat hi'
    rw [BitVec.toNat_add, BitVec.toNat_ofNat, BitVec.toNat_ofNat] at hnat
    change _ = 0 at hnat
    omega
  apply peekw_congr
  · exact pushedMem_other (houtside _ ⟨n, by omega, rfl⟩)
  · refine pushedMem_other (houtside _ ⟨n + 1, by omega, ?_⟩)
    rw [BitVec.ofNat_add, BitVec.add_assoc]
    rfl

theorem save_reg (k : Machine) : (exec k saveCode).mem = pushedMem k ∧
    (exec k saveCode).reg .ss = k.reg .ss ∧
    (exec k saveCode).reg .di =
      peekw (pushedMem k) (k.reg .ss) (k.reg .sp + 2) ∧
    (exec k saveCode).reg .si =
      peekw (pushedMem k) (k.reg .ss) (k.reg .sp + 4) ∧
    (exec k saveCode).task = k.task := by
  have hsub : forall w : Word, w - 2#16 - 2#16 = w - 4#16 ∧
      w - 4#16 - 2#16 = w - 6#16 ∧ w - 6#16 - 2#16 = w - 8#16 ∧
      w - 2#16 + 4#16 = w + 2#16 ∧ w - 2#16 + 6#16 = w + 4#16 := by
    intro w
    refine ⟨?_, ?_, ?_, ?_, ?_⟩ <;> bv_omega
  rcases hsub (k.reg .sp) with ⟨h₁, h₂, h₃, h₄, h₅⟩
  refine ⟨?_, ?_, ?_, ?_, ?_⟩ <;>
    simp [saveCode, Instr.exec, pushedMem, h₁, h₂, h₃, h₄, h₅]

/-- The start of {lit}`_kernel_exit` goes to the user stack when the kernel stack
is empty. -/
theorem kernelExitRun_user
    (hempty : k.reg .sp = (k.task k.currentTask).stackTop) (r : Reg) :
    (kernelExitRun k).reg r =
      let t := k.task k.currentTask
      match r with
      | .bp => peekw k.mem t.segment t.userSp
      | .di => peekw k.mem t.segment (t.userSp + 2)
      | .si => peekw k.mem t.segment (t.userSp + 4)
      | .dx => peekw k.mem t.segment (t.userSp + 6)
      | .cx => peekw k.mem t.segment (t.userSp + 8)
      | .bx => peekw k.mem t.segment (t.userSp + 10)
      | .ax => peekw k.mem t.segment (t.userSp + 12)
      | .ip => peekw k.mem t.segment (t.userSp + 16)
      | .cs => peekw k.mem t.segment (t.userSp + 18)
      | .flags => peekw k.mem t.segment (t.userSp + 20)
      | .sp => t.userSp + 22
      | .ss => t.segment
      | .ds => t.segment
      | .es => t.segment := by
  have hload : (exec k loadTaskCode).reg .sp =
      (exec k loadTaskCode).reg .cx := by
    simp [loadTaskCode, Instr.exec, Task.field, hempty]
  have hstart : forall r, (exec (exec k loadTaskCode) userStackCode).reg r =
      if r = .ss then (k.task k.currentTask).segment
      else if r = .sp then (k.task k.currentTask).userSp
      else if r = .ds then (k.task k.currentTask).segment
      else if r = .es then (k.task k.currentTask).segment
      else (exec (exec k loadTaskCode) userStackCode).reg r := by
    intro r
    cases r <;> simp [loadTaskCode, userStackCode, Instr.exec, Task.field]
  have hmem : (exec (exec k loadTaskCode) userStackCode).mem = k.mem := by
    simp [loadTaskCode, userStackCode, Instr.exec]
  have hrun : kernelExitRun k =
      exec (exec (exec k loadTaskCode) userStackCode) popRegsCode := by
    unfold kernelExitRun
    exact congrArg (fun k => exec k popRegsCode) (if_pos hload)
  rw [hrun, popRegs_reg, hmem, hstart .ss, hstart .sp]
  cases r with
  | ds => exact hstart .ds
  | es => exact hstart .es
  | ss => exact hstart .ss
  | _ => rfl

end Code

/-!
# The first switch to a forked task
-/

/-- The processor is about to run {lit}`switch_task`, for the first time with
this new task: nothing has written its memory or its kernel stack since the
state {lit}`s`, and its arguments are on the stack of another task. -/
structure FirstSwitch (s : KernelState) (newTask : Word) (k : Machine) :
    Prop where
  ss : k.reg .ss = kernelSegment
  oldTask : peekw k.mem kernelSegment (k.reg .sp + 2) ≠ newTask
  argument : peekw k.mem kernelSegment (k.reg .sp + 4) = newTask
  record : k.task newTask = s.task newTask
  segment : forall off, k.mem (linear (s.task newTask).segment off) =
    s.mem (linear (s.task newTask).segment off)
  stack : forall i, i < kernelStackBytes.toNat ->
    k.mem (linear kernelSegment (offsetFrom (s.task newTask).stack i)) =
      s.mem (linear kernelSegment (offsetFrom (s.task newTask).stack i))
  apart : forall i, i < kernelStackBytes.toNat ->
    OutsidePushes k (linear kernelSegment (offsetFrom (s.task newTask).stack i))

section First

variable {s : KernelState} {newTask : Word} {k : Machine}

theorem FirstSwitch.pushed_stack (h : FirstSwitch s newTask k) {i : Nat}
    (hi : i < kernelStackWords) :
    peekw (pushedMem k) kernelSegment (stackWord (s.task newTask).stack i) =
      peekw s.mem kernelSegment (stackWord (s.task newTask).stack i) := by
  have hsize : kernelStackBytes.toNat = 2 * kernelStackWords := rfl
  apply peekw_congr
  · exact (pushedMem_other (h.apart (2 * i) (by omega))).trans
      (h.stack (2 * i) (by omega))
  · rw [stackWord_succ]
    exact (pushedMem_other (h.apart (2 * i + 1) (by omega))).trans
      (h.stack (2 * i + 1) (by omega))

theorem FirstSwitch.pushed_segment (h : FirstSwitch s newTask k)
    (hkernel : SegmentsApart (s.task newTask).segment kernelSegment)
    (off : Word) : peekw (pushedMem k) (s.task newTask).segment off =
      peekw s.mem (s.task newTask).segment off := by
  have houtside : forall off,
      OutsidePushes k (linear (s.task newTask).segment off) := by
    intro off i _
    rw [h.ss]
    exact hkernel _ _
  exact peekw_congr ((pushedMem_other (houtside _)).trans (h.segment _))
    ((pushedMem_other (houtside _)).trans (h.segment _))

theorem FirstSwitch.swapped (h : FirstSwitch s newTask k) :
    let k₁ := exec (exec k saveCode) swapCode
    k₁.reg .ss = kernelSegment ∧ k₁.reg .sp = (s.task newTask).kernelSp ∧
      k₁.mem = pushedMem k ∧ k₁.currentTask = newTask ∧
      k₁.task newTask = s.task newTask := by
  rcases save_reg k with ⟨hmem, hss, hdi, hsi, htask⟩
  rcases swap_reg (exec k saveCode) with ⟨hsp', hss', hmem', hcurrent, hothers⟩
  have hargument : (exec k saveCode).reg .si = newTask := by
    rw [hsi, ← h.argument, ← h.ss]
    exact peekw_pushedMem (n := 4) (by decide)
  have hold : newTask ≠ (exec k saveCode).reg .di := by
    rw [hdi]
    intro heq
    apply h.oldTask
    rw [heq, ← h.ss]
    exact (peekw_pushedMem (n := 2) (by decide)).symm
  refine ⟨hss'.trans (hss.trans h.ss), ?_, hmem'.trans hmem,
    hcurrent.trans hargument, ?_⟩
  · rw [hsp', hargument, htask, h.record]
  · rw [hothers _ hold, htask, h.record]

end First

/-!
# Fork
-/

def savedReg (m : Mem) (t : Task) : Reg -> Word
  | .bp => peekw m t.segment t.userSp
  | .di => peekw m t.segment (t.userSp + 2)
  | .si => peekw m t.segment (t.userSp + 4)
  | .dx => peekw m t.segment (t.userSp + 6)
  | .cx => peekw m t.segment (t.userSp + 8)
  | .bx => peekw m t.segment (t.userSp + 10)
  | .ax => peekw m t.segment (t.userSp + 12)
  | .ip => peekw m t.segment (t.userSp + 16)
  | .cs => peekw m t.segment (t.userSp + 18)
  | .flags => peekw m t.segment (t.userSp + 20)
  | .sp => t.userSp + 22
  | .ss => t.segment
  | .ds => t.segment
  | .es => t.segment

/-- The registers with which a forked task returns: its parent's, in its own
segment and with zero in {lit}`AX`. -/
def childReg (saved : Reg -> Word) (segment : Word) : Reg -> Word
  | .ax => 0
  | .cs => segment
  | .ss => segment
  | .ds => segment
  | .es => segment
  | r => saved r

/-- The state after a fork, and the first run of the new task. -/
structure ForkSound (s s' : KernelState) (segment newTask : Word) : Prop where
  added : newTask ∉ s.taskList ∧ s'.taskList = newTask :: s.taskList
  ownSegment : (s'.task newTask).segment = segment
  handles : (s'.task newTask).handles = 0 ∧ (s'.task newTask).handleCount = 0
  waiter : (s'.task newTask).taskWaitingForExit = 0
  copy : forall off, off ≠ (s.task s.currentTask).userSp + 12 ->
    off ≠ (s.task s.currentTask).userSp + 13 ->
    off ≠ (s.task s.currentTask).userSp + 18 ->
    off ≠ (s.task s.currentTask).userSp + 19 ->
    peek s'.mem segment off = peek s.mem (s.task s.currentTask).segment off
  ax : peekw s'.mem segment ((s.task s.currentTask).userSp + 12) = 0
  cs : peekw s'.mem segment ((s.task s.currentTask).userSp + 18) = segment
  records : forall q, q ∈ s.taskList -> s'.task q = s.task q
  others : forall q, q ∈ s.taskList -> s.Live q -> forall off,
    peek s'.mem (s.task q).segment off = peek s.mem (s.task q).segment off
  kernelStacks : forall q, q ∈ s.taskList -> s.Live q ->
    forall i, i < kernelStackBytes.toNat ->
    peek s'.mem kernelSegment (offsetFrom (s.task q).stack i) =
      peek s.mem kernelSegment (offsetFrom (s.task q).stack i)
  switched : exists k, FirstSwitch s' newTask k
  popped : forall k, FirstSwitch s' newTask k ->
    (switchTask k).reg .di = 0 ∧ (switchTask k).reg .si = 0 ∧
      (switchTask k).reg .ax = 0 ∧ (switchTask k).reg .bp = 0
  kernelExit : forall k, FirstSwitch s' newTask k ->
    (switchTask k).reg .ip = s.kernelExit ∧
      (switchTask k).reg .sp = (s'.task newTask).stackTop
  returns : forall k, FirstSwitch s' newTask k ->
    (kernelExitRun (switchTask k)).reg =
      childReg (savedReg s.mem (s.task s.currentTask)) segment

section Sound

variable {s s' : KernelState} {segment : Word}

theorem SystemInv.stack_inside (hs : SystemInv s) {p : Word}
    (hp : p ∈ s.taskList) (hlive : s.Live p) :
    (s.task p).stack.toNat + kernelStackBytes.toNat < 65536 := by
  rcases hs.owned with ⟨label, howned⟩
  exact howned.owned.inside (howned.uses _ _ (Uses.stack hp hlive))

theorem outsideStack_of_apart {stack stack' : Word} {i : Nat}
    (hi : i < kernelStackBytes.toNat)
    (hin : stack.toNat + kernelStackBytes.toNat < 65536)
    (hin' : stack'.toNat + kernelStackBytes.toNat < 65536)
    (hapart : stack.toNat + kernelStackBytes.toNat ≤ stack'.toNat ∨
      stack'.toNat + kernelStackBytes.toNat ≤ stack.toNat) :
    OutsideStack stack (linear kernelSegment (offsetFrom stack' i)) := by
  intro j hj heq
  have heq := congrArg BitVec.toNat (linear_injective heq)
  unfold offsetFrom at heq
  rw [BitVec.toNat_add, BitVec.toNat_add, BitVec.toNat_ofNat,
    BitVec.toNat_ofNat] at heq
  omega

structure Forked (s s' : KernelState) (segment newTask : Word) : Prop where
  fresh : newTask ∉ s.taskList
  taskList : s'.taskList = newTask :: s.taskList
  child : exists stack, s'.task newTask =
    forkTask (s.task s.currentTask) segment stack
  records : forall q, q ∈ s.taskList -> s'.task q = s.task q
  mem : s'.mem = forkMem s segment (s'.task newTask).stack
  parent : SegmentsApart (s.task s.currentTask).segment segment
  kernel : SegmentsApart segment kernelSegment
  others : forall q, q ∈ s.taskList -> s.Live q ->
    SegmentsApart (s.task q).segment segment ∧
      SegmentsApart (s.task q).segment kernelSegment ∧
      forall i, i < kernelStackBytes.toNat ->
        OutsideStack (s'.task newTask).stack
          (linear kernelSegment (offsetFrom (s.task q).stack i))

theorem fork_forked (hs : Reachable Started KernelStep s) (hrunning : Running s)
    (hrun : fork s = .ok (segment, s')) :
    exists newTask, Forked s s' segment newTask := by
  have hs' : Reachable Started KernelStep s' := .step hs (.fork hrunning hrun)
  rcases reachable_inv hs with ⟨hsystem, _⟩
  rcases reachable_inv hs' with ⟨hsystem', _⟩
  have hsound := segmentsSound_of_inv hsystem (reachable_inv hs).2
  have hsound' := segmentsSound_of_inv hsystem' (reachable_inv hs').2
  rcases hsystem.owned with ⟨label, howned⟩
  rcases fork_eq hrun with ⟨p, stack, s₁, s₂, htask, hstack, _, _, _, heq⟩
  have hsame := (kernel_malloc_sameTasks htask).trans
    (kernel_malloc_sameTasks hstack)
  have hnew := howned.malloc_fresh htask
  have hlist : s'.taskList = p :: s.taskList := by
    rw [heq]
    rfl
  have hchild : s'.task p = forkTask (s.task s.currentTask) segment stack := by
    rw [heq, setTask_self]
  have hold : forall q, q ∈ s.taskList -> s'.task q = s.task q := by
    intro q hq
    have hne : q ≠ p := fun h => hnew (h ▸ hq)
    rw [heq, setTask_other _ _ _ hne]
    change s₂.task q = _
    rw [hsame.task]
  have hsegment : (s'.task p).segment = segment := by
    rw [hchild, forkTask_segment]
  have hmem : p ∈ s'.taskList := by
    rw [hlist]
    exact List.mem_cons_self
  have hlive : s'.Live p := by
    unfold KernelState.Live
    rw [hchild, forkTask_state]
    exact hrunning.live
  have hothers : forall q, q ∈ s.taskList -> s.Live q ->
      q ∈ s'.taskList ∧ s'.Live q ∧ q ≠ p := by
    intro q hq hliveq
    refine ⟨hlist ▸ List.mem_cons_of_mem p hq, ?_, fun h => hnew (h ▸ hq)⟩
    unfold KernelState.Live
    rw [hold q hq]
    exact hliveq
  have hapart : forall q, q ∈ s.taskList -> s.Live q ->
      SegmentsApart (s.task q).segment segment := by
    intro q hq hliveq off off'
    rcases hothers q hq hliveq with ⟨hmemq, hliveq', hne⟩
    rw [← hsegment, ← hold q hq]
    exact hsound'.ranges q p hmemq hliveq' hmem hlive hne off off'
  have hkernel : SegmentsApart segment kernelSegment := by
    intro off off'
    rw [← hsegment]
    exact hsound'.kernel p hmem hlive off off'
  refine ⟨p, hnew, hlist, ⟨stack, hchild⟩, hold, ?_,
    hapart _ hsystem.current hrunning.live, hkernel, ?_⟩
  · rw [hchild, heq]
    rfl
  · intro q hq hliveq
    rcases hothers q hq hliveq with ⟨hmemq, hliveq', hne⟩
    refine ⟨hapart q hq hliveq, hsound.kernel q hq hliveq, ?_⟩
    intro i hi
    have hstacks := hsound'.kernelStacks p q hmem hlive hmemq hliveq' hne.symm
    have hinp := hsystem'.stack_inside hmem hlive
    have hinq := hsystem'.stack_inside hmemq hliveq'
    rw [hold q hq] at hstacks hinq
    exact outsideStack_of_apart hi hinp hinq hstacks

theorem Forked.copy {newTask : Word} (h : Forked s s' segment newTask)
    {off : Word} (hax : off ≠ (s.task s.currentTask).userSp + 12)
    (hax' : off ≠ (s.task s.currentTask).userSp + 13)
    (hcs : off ≠ (s.task s.currentTask).userSp + 18)
    (hcs' : off ≠ (s.task s.currentTask).userSp + 19) :
    peek s'.mem segment off =
      peek s.mem (s.task s.currentTask).segment off := by
  have hnextAX : (s.task s.currentTask).userSp + regAX + 1 =
      (s.task s.currentTask).userSp + 13 := BitVec.add_assoc _ _ _
  have hnextCS : (s.task s.currentTask).userSp + regCS + 1 =
      (s.task s.currentTask).userSp + 19 := BitVec.add_assoc _ _ _
  rw [h.mem]
  apply forkMem_at h.parent h.kernel hax
  · rw [hnextAX]
    exact hax'
  · exact hcs
  · rw [hnextCS]
    exact hcs'

theorem add_ofNat_ne (base : Word) {n m : Nat} (hn : n < 65536) (hm : m < 65536)
    (hne : n ≠ m) : base + BitVec.ofNat 16 n ≠ base + BitVec.ofNat 16 m := by
  intro h
  exact hne (offsetFrom_injective hn hm h)

theorem Forked.saved_word {newTask : Word} (h : Forked s s' segment newTask)
    {n : Nat} (hn : n < 65535) (hax : n ≠ 11 ∧ n ≠ 12 ∧ n ≠ 13)
    (hcs : n ≠ 17 ∧ n ≠ 18 ∧ n ≠ 19) :
    peekw s'.mem segment
        ((s.task s.currentTask).userSp + BitVec.ofNat 16 n) =
      peekw s.mem (s.task s.currentTask).segment
        ((s.task s.currentTask).userSp + BitVec.ofNat 16 n) := by
  have hbyte : forall n, n < 65536 -> n ≠ 12 ∧ n ≠ 13 ∧ n ≠ 18 ∧ n ≠ 19 ->
      s'.mem (linear segment ((s.task s.currentTask).userSp +
          BitVec.ofNat 16 n)) =
        s.mem (linear (s.task s.currentTask).segment
          ((s.task s.currentTask).userSp + BitVec.ofNat 16 n)) := by
    rintro n hn ⟨h12, h13, h18, h19⟩
    exact h.copy (add_ofNat_ne _ hn (by decide) h12)
      (add_ofNat_ne _ hn (by decide) h13) (add_ofNat_ne _ hn (by decide) h18)
      (add_ofNat_ne _ hn (by decide) h19)
  have hnext : (s.task s.currentTask).userSp + BitVec.ofNat 16 n + 1 =
      (s.task s.currentTask).userSp + BitVec.ofNat 16 (n + 1) := by
    rw [BitVec.ofNat_add, ← BitVec.add_assoc]
    rfl
  apply peekw_congr
  · exact hbyte n (by omega) (by omega)
  · rw [hnext]
    exact hbyte (n + 1) (by omega) (by omega)

theorem Forked.task {newTask : Word} (h : Forked s s' segment newTask) :
    (s'.task newTask).userSp = (s.task s.currentTask).userSp ∧
      (s'.task newTask).segment = segment ∧
      (s'.task newTask).kernelSp =
        stackWord (s'.task newTask).stack (kernelStackWords - 5) ∧
      (s'.task newTask).stackTop =
        stackWord (s'.task newTask).stack kernelStackWords ∧
      (s'.task newTask).handles = 0 ∧ (s'.task newTask).handleCount = 0 ∧
      (s'.task newTask).taskWaitingForExit = 0 := by
  rcases h.child with ⟨stack, hchild⟩
  rw [hchild]
  unfold forkTask
  exact ⟨rfl, rfl, rfl, rfl, rfl, rfl, rfl⟩

/-- The words that the first switch pops are those that the fork has put there. -/
theorem Forked.switch {newTask : Word} (h : Forked s s' segment newTask)
    {k : Machine} (hk : FirstSwitch s' newTask k) :
    (switchTask k).reg .di = 0 ∧ (switchTask k).reg .si = 0 ∧
      (switchTask k).reg .ax = 0 ∧ (switchTask k).reg .bp = 0 ∧
      (switchTask k).reg .ip = s.kernelExit ∧
      (switchTask k).reg .sp = (s'.task newTask).stackTop := by
  rcases hk.swapped with ⟨hss, hsp, hmem, _, _⟩
  rcases h.task with ⟨_, _, hkernelSp, hstackTop, _⟩
  have hframe : ForkFrame s'.mem (s'.task newTask).stack s.kernelExit := by
    rw [h.mem]
    exact forkMem_frame h.kernel
  have hword : forall n, n < 5 ->
      peekw (pushedMem k) kernelSegment ((s'.task newTask).kernelSp +
          BitVec.ofNat 16 (2 * n)) =
        peekw s'.mem kernelSegment
          (stackWord (s'.task newTask).stack (2043 + n)) := by
    intro n hn
    have hwords : kernelStackWords = 2048 := rfl
    have hat : (s'.task newTask).kernelSp + BitVec.ofNat 16 (2 * n) =
        stackWord (s'.task newTask).stack (2043 + n) := by
      rw [hkernelSp, stackWord_eq, stackWord_eq, ← offsetFrom_add]
      congr 1
      omega
    rw [hat]
    exact hk.pushed_stack (by omega)
  unfold switchTask
  simp only [restore_reg, hss, hsp, hmem]
  refine ⟨?_, ?_, ?_, ?_, ?_, ?_⟩
  · have hzero : (s'.task newTask).kernelSp + BitVec.ofNat 16 (2 * 0) =
        (s'.task newTask).kernelSp := BitVec.add_zero _
    have h0 := (hword 0 (by decide)).trans hframe.di
    rwa [hzero] at h0
  · exact (hword 1 (by decide)).trans hframe.si
  · exact (hword 2 (by decide)).trans hframe.ax
  · exact (hword 3 (by decide)).trans hframe.bp
  · exact (hword 4 (by decide)).trans hframe.ret
  · rw [hkernelSp, hstackTop, stackWord_eq, stackWord_eq]
    exact (offsetFrom_add _ 4086 10).symm

theorem Forked.returns {newTask : Word} (h : Forked s s' segment newTask)
    {k : Machine} (hk : FirstSwitch s' newTask k) :
    (kernelExitRun (switchTask k)).reg =
      childReg (savedReg s.mem (s.task s.currentTask)) segment := by
  rcases hk.swapped with ⟨_, _, hmem, hcurrent, hrecord⟩
  rcases restore_other (exec (exec k saveCode) swapCode) with
    ⟨hmem', htask', hcurrent'⟩
  have hmem : (switchTask k).mem = pushedMem k := hmem'.trans hmem
  have hcurrent : (switchTask k).currentTask = newTask :=
    hcurrent'.trans hcurrent
  have hrecord : (switchTask k).task newTask = s'.task newTask :=
    (congrFun htask' newTask).trans hrecord
  rcases h.task with ⟨huserSp, hsegment, _, _⟩
  have hempty : (switchTask k).reg .sp =
      ((switchTask k).task (switchTask k).currentTask).stackTop := by
    rw [hcurrent, hrecord]
    exact (h.switch hk).2.2.2.2.2
  have hkernel : SegmentsApart (s'.task newTask).segment kernelSegment := by
    rw [hsegment]
    exact h.kernel
  have hpushed : forall off, peekw (pushedMem k) segment off =
      peekw s'.mem segment off := by
    intro off
    have hword := hk.pushed_segment hkernel off
    rwa [hsegment] at hword
  have hword : forall n, n < 65535 -> n ≠ 11 ∧ n ≠ 12 ∧ n ≠ 13 ->
      n ≠ 17 ∧ n ≠ 18 ∧ n ≠ 19 ->
      peekw (pushedMem k) segment
          ((s.task s.currentTask).userSp + BitVec.ofNat 16 n) =
        peekw s.mem (s.task s.currentTask).segment
          ((s.task s.currentTask).userSp + BitVec.ofNat 16 n) :=
    fun n hn hax hcs => (hpushed _).trans (h.saved_word hn hax hcs)
  have hzero : (s.task s.currentTask).userSp + BitVec.ofNat 16 0 =
      (s.task s.currentTask).userSp := BitVec.add_zero _
  funext r
  rw [kernelExitRun_user hempty, hmem, hcurrent, hrecord]
  dsimp only
  rw [huserSp, hsegment]
  cases r with
  | bp =>
      have h0 := hword 0 (by decide) (by decide) (by decide)
      rwa [hzero] at h0
  | di => exact hword 2 (by decide) (by decide) (by decide)
  | si => exact hword 4 (by decide) (by decide) (by decide)
  | dx => exact hword 6 (by decide) (by decide) (by decide)
  | cx => exact hword 8 (by decide) (by decide) (by decide)
  | bx => exact hword 10 (by decide) (by decide) (by decide)
  | ax =>
      refine (hpushed _).trans ?_
      rw [h.mem]
      exact forkMem_ax
  | ip => exact hword 16 (by decide) (by decide) (by decide)
  | cs =>
      refine (hpushed _).trans ?_
      rw [h.mem]
      exact forkMem_cs
  | flags => exact hword 20 (by decide) (by decide) (by decide)
  | sp => rfl
  | ss => rfl
  | ds => rfl
  | es => rfl

theorem stack_middle (stack : Word) : exists sp : Word,
    (forall n, n < 2048 -> sp + BitVec.ofNat 16 n =
      offsetFrom stack (2048 + n)) ∧
    forall n, n < 2048 -> sp - BitVec.ofNat 16 (n + 1) =
      offsetFrom stack (2047 - n) := by
  refine ⟨offsetFrom stack 2048, ?_, ?_⟩
  · exact fun n _ => (offsetFrom_add stack 2048 n).symm
  · intro n hn
    have hsum : offsetFrom stack 2048 =
        offsetFrom stack (2047 - n) + BitVec.ofNat 16 (n + 1) := by
      rw [← offsetFrom_add]
      congr 1
      omega
    rw [hsum]
    exact BitVec.add_sub_cancel _ _

/-- The parent can switch to the new task from its own kernel stack. -/
theorem Forked.firstSwitch {newTask : Word} (h : Forked s s' segment newTask)
    (hcurrent : s.currentTask ∈ s.taskList) (hlive : s.Live s.currentTask) :
    exists k, FirstSwitch s' newTask k := by
  have hbytes : kernelStackBytes.toNat = 4096 := rfl
  rcases h.others _ hcurrent hlive with ⟨_, _, hstack⟩
  have hne : s.currentTask ≠ newTask := fun heq => h.fresh (heq ▸ hcurrent)
  have hsegment := h.task.2.1
  rcases stack_middle (s.task s.currentTask).stack with ⟨sp, habove, hbelow⟩
  have hsame : sp + 2 ≠ sp + 4 ∧ sp + 2 ≠ sp + 4 + 1 ∧ sp + 2 + 1 ≠ sp + 4 := by
    refine ⟨?_, ?_, ?_⟩ <;> bv_omega
  have hnext : sp + 2 + 1 = sp + 3 ∧ sp + 4 + 1 = sp + 5 := by
    constructor <;> bv_omega
  let mem := pokew (pokew s'.mem kernelSegment (sp + 2) s.currentTask)
    kernelSegment (sp + 4) newTask
  have hmem : forall x, (forall n, n < 6 -> x ≠ linear kernelSegment
      (sp + BitVec.ofNat 16 n)) -> mem x = s'.mem x := by
    intro x hx
    have h2 : x ≠ linear kernelSegment (sp + 2) := hx 2 (by decide)
    have h3 : x ≠ linear kernelSegment (sp + 2 + 1) := by
      rw [hnext.1]
      exact hx 3 (by decide)
    have h4 : x ≠ linear kernelSegment (sp + 4) := hx 4 (by decide)
    have h5 : x ≠ linear kernelSegment (sp + 4 + 1) := by
      rw [hnext.2]
      exact hx 5 (by decide)
    exact (pokew_other h4 h5).trans (pokew_other h2 h3)
  refine ⟨⟨fun r => if r = .ss then kernelSegment else sp, mem, s'.task,
    s.currentTask⟩, rfl, ?_, peekw_pokew .., rfl, ?_, ?_, ?_⟩
  · change peekw mem kernelSegment (sp + 2) ≠ newTask
    unfold mem
    rw [peekw_pokew_other hsame.1 hsame.2.1 hsame.2.2, peekw_pokew]
    exact hne
  · intro off
    change mem _ = _
    apply hmem
    intro n _
    rw [hsegment]
    exact h.kernel _ _
  · intro i hi
    change mem _ = _
    apply hmem
    intro n hn
    rw [habove n (by omega)]
    exact (hstack (2048 + n) (by omega) i hi).symm
  · intro i hi n hn
    change _ ≠ linear kernelSegment (sp - _)
    rw [hbelow n (by omega)]
    exact (hstack (2047 - n) (by omega) i hi).symm

/-- A fork copies its parent's program, changes no other memory of a task, and
the new task first returns with its parent's registers. -/
theorem fork_sound (hs : Reachable Started KernelStep s) (hrunning : Running s)
    (hrun : fork s = .ok (segment, s')) :
    exists newTask, ForkSound s s' segment newTask := by
  rcases fork_forked hs hrunning hrun with ⟨p, h⟩
  rcases h.task with ⟨_, hsegment, _, _, hhandles, hcount, hwaiter⟩
  refine ⟨p, ⟨h.fresh, h.taskList⟩, hsegment, ⟨hhandles, hcount⟩, hwaiter,
    fun off => h.copy, ?_, ?_, h.records, ?_, ?_, ?_, ?_, ?_, ?_⟩
  · rw [h.mem]
    exact forkMem_ax
  · rw [h.mem]
    exact forkMem_cs
  · intro q hq hlive off
    rcases h.others q hq hlive with ⟨hseg, hkernel, _⟩
    rw [h.mem]
    exact forkMem_other (fun off' => hseg off off') fun i _ => hkernel _ _
  · intro q hq hlive i hi
    rcases h.others q hq hlive with ⟨_, _, hstack⟩
    rw [h.mem]
    exact forkMem_other (fun off' => (h.kernel off' _).symm) (hstack i hi)
  · rcases reachable_inv hs with ⟨hsystem, _⟩
    exact h.firstSwitch hsystem.current hrunning.live
  · intro k hk
    rcases h.switch hk with ⟨hdi, hsi, hax, hbp, _⟩
    exact ⟨hdi, hsi, hax, hbp⟩
  · intro k hk
    exact (h.switch hk).2.2.2.2
  · exact fun k hk => h.returns hk

theorem fork_sound_first_task :
    exists newTask, ForkSound smallStart smallFork 0x2050 newTask :=
  fork_sound (.start smallStart_started) (Or.inl rfl) smallFork_eq

end Sound

end Kernel
end Rmmtos
