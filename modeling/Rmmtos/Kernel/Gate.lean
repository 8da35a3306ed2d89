import Rmmtos.Kernel.Switch

/-!
# The interrupt gate

{lit}`kernel_enter` saves the registers of the interrupted program on its stack
and goes to the kernel stack of the task.  {lit}`_kernel_exit` takes them back.
The segment registers are not saved: a program comes back with its own segment
in {lit}`DS` and {lit}`ES`, whatever they were.
-/

namespace Rmmtos
namespace Kernel

open Library Fs

/-!
# The code
-/

/-- The instructions of the gate: those of a task switch, a push of a constant
(the return address of a call, the number of an interrupt), a load of one, and
the store of a stack pointer in the record of a task. -/
inductive GateInstr where
  | plain (i : Instr)
  | pushWord (w : Word)
  | movWord (dst : Reg) (w : Word)
  | storeUserSp (base src : Reg)
deriving DecidableEq, Repr

def GateInstr.exec (k : Machine) : GateInstr -> Machine
  | plain i => i.exec k
  | pushWord w =>
      { k.set .sp (k.reg .sp - 2) with
        mem := pokew k.mem (k.reg .ss) (k.reg .sp - 2) w }
  | movWord dst w => k.set dst w
  | storeUserSp base src =>
      let task := { k.task (k.reg base) with userSp := k.reg src }
      { k with task := Function.update k.task (k.reg base) task }

def gateExec (k : Machine) (code : List GateInstr) : Machine :=
  code.foldl GateInstr.exec k

/-- What the processor does when it accepts an interrupt. -/
def acceptCode : List GateInstr :=
  [.plain (.push .flags), .plain (.push .cs), .plain (.push .ip), .plain .cli,
    .movWord .cs kernelSegment]

/-- The call of {lit}`kernel_enter` and its code up to the comparison. -/
def saveRegsCode (returnAddress : Word) : List GateInstr :=
  [.pushWord returnAddress, .plain (.push .ax), .plain (.push .bx),
    .plain (.push .cx), .plain (.push .dx), .plain (.push .si),
    .plain (.push .di), .plain (.push .bp), .plain (.mov .bp .sp),
    .plain (.loadArg .cx 14), .plain (.mov .ax .ss)]

/-- The part that is skipped when the kernel was interrupted. -/
def enterTaskCode : List GateInstr :=
  [.movWord .ax kernelSegment, .plain (.mov .ds .ax), .plain (.mov .es .ax),
    .plain (.loadCurrent .bx), .storeUserSp .bx .bp,
    .plain (.loadField .dx .bx 2), .plain (.mov .ss .ax),
    .plain (.mov .sp .dx)]

/-- The start of {lit}`kernel_enter`, which leaves a task's stack. -/
def enterStack (k : Machine) (returnAddress : Word) : Machine :=
  let k := gateExec k (saveRegsCode returnAddress)
  if k.reg .ax = kernelSegment then k else gateExec k enterTaskCode

/-- The end of {lit}`kernel_enter`, which hangs when the kernel was interrupted
with another segment in {lit}`DS`. -/
def checkSegment (k : Machine) : Result Machine :=
  let k := exec k [.push .ax, .mov .ax .ds]
  if k.reg .ax ≠ kernelSegment then .error .hang
  else .ok (exec k [.pop .ax, .push .cx, .pop .ip])

def kernelEnter (k : Machine) (returnAddress : Word) : Result Machine :=
  checkSegment (enterStack k returnAddress)

/-- Accept interrupt {lit}`num` and go on to the call of the dispatcher. -/
def interruptEnter (k : Machine) (returnAddress num : Word) : Result Machine :=
  kernelEnter (gateExec k acceptCode) returnAddress >>= fun k =>
    .ok (gateExec k [.movWord .ax num, .plain (.push .ax)])

/-- Leave an interrupt behind the call of the dispatcher. -/
def interruptLeave (k : Machine) : Machine :=
  kernelExitRun (exec k [.pop .ax])

def interruptRun (dispatcher : Machine -> Machine) (k : Machine)
    (returnAddress num : Word) : Result Machine :=
  interruptEnter k returnAddress num >>= fun k =>
    .ok (interruptLeave (dispatcher k))

/-!
# Pushes
-/

def pushAll (m : Mem) (ss sp : Word) : List Word -> Mem
  | [] => m
  | w :: ws => pushAll (pokew m ss (sp - 2) w) ss (sp - 2) ws

section Push

variable {m : Mem} {ss sp : Word}

theorem pushAll_other {ws : List Word} {x : Nat}
    (h : forall i, i < 2 * ws.length ->
      x ≠ linear ss (sp - BitVec.ofNat 16 (i + 1))) :
    pushAll m ss sp ws x = m x := by
  induction ws generalizing m sp with
  | nil => rfl
  | cons w ws ih =>
      rw [List.length_cons] at h
      have hhead : pokew m ss (sp - 2) w x = m x := by
        apply pokew_other
        · exact h 1 (by omega)
        · have hnext : sp - 2 + 1 = sp - BitVec.ofNat 16 (0 + 1) := by
            bv_omega
          rw [hnext]
          exact h 0 (by omega)
      unfold pushAll
      rw [ih, hhead]
      intro i hi
      have hnext : sp - 2 - BitVec.ofNat 16 (i + 1) =
          sp - BitVec.ofNat 16 (i + 2 + 1) := by
        bv_omega
      rw [hnext]
      exact h (i + 2) (by omega)

theorem peekw_pushAll {ws : List Word} {i : Nat} (hfew : ws.length ≤ 1024)
    (hi : i < ws.length) :
    peekw (pushAll m ss sp ws) ss (sp - BitVec.ofNat 16 (2 * (i + 1))) =
      ws.getD i 0 := by
  induction ws generalizing m sp i with
  | nil => cases hi
  | cons w ws ih =>
      rw [List.length_cons] at hfew hi
      cases i with
      | zero =>
          have hlow : forall j, j < 2 * ws.length ->
              linear ss (sp - 2) ≠
                linear ss (sp - 2 - BitVec.ofNat 16 (j + 1)) := by
            intro j hj heq
            have heq := linear_injective heq
            bv_omega
          have hhigh : forall j, j < 2 * ws.length ->
              linear ss (sp - 2 + 1) ≠
                linear ss (sp - 2 - BitVec.ofNat 16 (j + 1)) := by
            intro j hj heq
            have heq := linear_injective heq
            bv_omega
          refine Eq.trans ?_ (peekw_pokew m ss (sp - 2) w)
          exact peekw_congr (pushAll_other hlow) (pushAll_other hhigh)
      | succ i =>
          have hnext : sp - BitVec.ofNat 16 (2 * (i + 1 + 1)) =
              sp - 2 - BitVec.ofNat 16 (2 * (i + 1)) := by
            bv_omega
          rw [hnext]
          exact ih (by omega) (by omega)

end Push

/-!
# Transparent interrupts
-/

/-- A program was interrupted, with room for its frame on its stack. -/
structure UserMode (k : Machine) : Prop where
  ss : k.reg .ss = (k.task k.currentTask).segment
  apart : SegmentsApart (k.task k.currentTask).segment kernelSegment
  room : 22 ≤ (k.reg .sp).toNat

/-- The kernel was interrupted on its stack for the current task. -/
structure KernelMode (k : Machine) : Prop where
  ss : k.reg .ss = kernelSegment
  room : 24 ≤ (k.reg .sp).toNat
  onStack : (k.reg .sp).toNat ≤ (k.task k.currentTask).stackTop.toNat

/-- The dispatcher returns to its caller, and it leaves alone the current task,
the words that are saved in its record and on its stacks, and all memory of its
program behind them. -/
structure DispatcherReturns (k k' : Machine) : Prop where
  sp : k'.reg .sp = k.reg .sp
  ss : k'.reg .ss = k.reg .ss
  ds : k'.reg .ds = k.reg .ds
  es : k'.reg .es = k.reg .es
  currentTask : k'.currentTask = k.currentTask
  userSp : (k'.task k.currentTask).userSp = (k.task k.currentTask).userSp
  stackTop : (k'.task k.currentTask).stackTop = (k.task k.currentTask).stackTop
  segment : (k'.task k.currentTask).segment = (k.task k.currentTask).segment
  kernelStack : forall off, k.reg .sp ≤ off ->
    off.toNat ≤ (k.task k.currentTask).stackTop.toNat + 1 ->
    peek k'.mem kernelSegment off = peek k.mem kernelSegment off
  program : forall off, (k.task k.currentTask).userSp ≤ off ->
    peek k'.mem (k.task k.currentTask).segment off =
      peek k.mem (k.task k.currentTask).segment off

/-- The interrupted code goes on with all its registers and its stack. -/
structure Resumed (k k' : Machine) (last : Nat) : Prop where
  reg : forall r, k'.reg r = k.reg r
  mem : forall off, k.reg .sp ≤ off -> off.toNat ≤ last ->
    peek k'.mem (k.reg .ss) off = peek k.mem (k.reg .ss) off

def frameWords (k : Machine) (returnAddress : Word) : List Word :=
  [k.reg .flags, k.reg .cs, k.reg .ip, returnAddress, k.reg .ax, k.reg .bx,
    k.reg .cx, k.reg .dx, k.reg .si, k.reg .di, k.reg .bp]

def framedMem (k : Machine) (returnAddress : Word) : Mem :=
  pushAll k.mem (k.reg .ss) (k.reg .sp) (frameWords k returnAddress)

section Frame

variable {k e : Machine} {returnAddress : Word}

theorem gateExec_append (k : Machine) (code code' : List GateInstr) :
    gateExec k (code ++ code') = gateExec (gateExec k code) code' :=
  List.foldl_append

structure Pushed (k e : Machine) (ws : List Word) : Prop where
  mem : e.mem = pushAll k.mem (k.reg .ss) (k.reg .sp) ws
  sp : e.reg .sp = k.reg .sp - BitVec.ofNat 16 (2 * ws.length)
  task : e.task = k.task
  currentTask : e.currentTask = k.currentTask
  other : forall r, r ≠ .sp -> r ≠ .flags -> r ≠ .cs -> e.reg r = k.reg r

theorem pushAll_append (m : Mem) (ss sp : Word) (ws ws' : List Word) :
    pushAll m ss sp (ws ++ ws') = pushAll (pushAll m ss sp ws) ss
      (sp - BitVec.ofNat 16 (2 * ws.length)) ws' := by
  induction ws generalizing m sp with
  | nil =>
      have hsp : sp - BitVec.ofNat 16 (2 * 0) = sp := by bv_omega
      change pushAll m ss sp ws' = pushAll m ss (sp - BitVec.ofNat 16 (2 * 0)) ws'
      rw [hsp]
  | cons w ws ih =>
      have hsp : sp - BitVec.ofNat 16 (2 * (w :: ws).length) =
          sp - 2 - BitVec.ofNat 16 (2 * ws.length) := by
        rw [List.length_cons]
        bv_omega
      rw [hsp]
      exact ih _ _

theorem Pushed.trans {f : Machine} {ws ws' : List Word} (h : Pushed k e ws)
    (h' : Pushed e f ws') : Pushed k f (ws ++ ws') := by
  refine ⟨?_, ?_, h'.task.trans h.task, h'.currentTask.trans h.currentTask,
    ?_⟩
  · rw [h'.mem, h.mem, h.sp, h.other .ss (by decide) (by decide) (by decide),
      pushAll_append]
  · rw [h'.sp, h.sp, List.length_append]
    bv_omega
  · intro r hsp hflags hcs
    exact (h'.other r hsp hflags hcs).trans (h.other r hsp hflags hcs)

theorem pushed_word (k : Machine) (w : Word) :
    Pushed k (GateInstr.exec k (.pushWord w)) [w] := by
  refine ⟨rfl, ?_, rfl, rfl, ?_⟩
  · change (k.set .sp (k.reg .sp - 2)).reg .sp = _
    rw [set_reg]
    rfl
  · intro r hsp _ _
    exact Function.update_of_ne hsp ..

theorem pushed_regs (k : Machine) (rs : List Reg) (hrs : .sp ∉ rs) :
    Pushed k (gateExec k (rs.map fun r => .plain (.push r)))
      (rs.map k.reg) := by
  induction rs generalizing k with
  | nil =>
      refine ⟨rfl, ?_, rfl, rfl, fun _ _ _ _ => rfl⟩
      change k.reg .sp = k.reg .sp - BitVec.ofNat 16 (2 * 0)
      bv_omega
  | cons r rs ih =>
      have hhead := pushed_word k (k.reg r)
      have htail := ih (GateInstr.exec k (.pushWord (k.reg r)))
        (fun h => hrs (List.mem_cons_of_mem r h))
      have hsame : rs.map (GateInstr.exec k (.pushWord (k.reg r))).reg =
          rs.map k.reg := by
        apply List.map_congr_left
        intro q hq
        exact Function.update_of_ne
          (fun h : q = .sp => hrs (h ▸ List.mem_cons_of_mem r hq)) ..
      rw [hsame] at htail
      exact hhead.trans htail

theorem pushed_accept (k : Machine) : Pushed k (gateExec k acceptCode)
    [k.reg .flags, k.reg .cs, k.reg .ip] := by
  have hpush := pushed_regs k [.flags, .cs, .ip] (by decide)
  have hcode : acceptCode =
      [Reg.flags, .cs, .ip].map (fun r => .plain (.push r)) ++
        [.plain .cli, .movWord .cs kernelSegment] := rfl
  rw [hcode, gateExec_append]
  generalize gateExec k _ = f at hpush
  refine ⟨hpush.mem, hpush.sp, hpush.task, hpush.currentTask, ?_⟩
  intro r hsp hflags hcs
  rw [← hpush.other r hsp hflags hcs]
  change Function.update (Function.update f.reg .flags _) .cs _ r = _
  rw [Function.update_of_ne hcs, Function.update_of_ne hflags]

structure Framed (k e : Machine) (returnAddress : Word) : Prop where
  mem : e.mem = framedMem k returnAddress
  task : e.task = k.task
  currentTask : e.currentTask = k.currentTask
  sp : e.reg .sp = k.reg .sp - 22
  bp : e.reg .bp = k.reg .sp - 22
  ss : e.reg .ss = k.reg .ss
  ds : e.reg .ds = k.reg .ds
  es : e.reg .es = k.reg .es
  ax : e.reg .ax = k.reg .ss
  cx : e.reg .cx = returnAddress

theorem framed (k : Machine) (returnAddress : Word) :
    Framed k (gateExec (gateExec k acceptCode) (saveRegsCode returnAddress))
      returnAddress := by
  have haccept := pushed_accept k
  have hcall := pushed_word (gateExec k acceptCode) returnAddress
  have hregs := pushed_regs
    (GateInstr.exec (gateExec k acceptCode) (.pushWord returnAddress))
    [.ax, .bx, .cx, .dx, .si, .di, .bp] (by decide)
  have hwords : [.ax, .bx, .cx, .dx, .si, .di, .bp].map
      (GateInstr.exec (gateExec k acceptCode) (.pushWord returnAddress)).reg =
      [.ax, .bx, .cx, .dx, .si, .di, .bp].map k.reg := by
    apply List.map_congr_left
    intro r hr
    have hplain : r ≠ .sp ∧ r ≠ .flags ∧ r ≠ .cs := by
      refine ⟨?_, ?_, ?_⟩ <;> rintro rfl <;> revert hr <;> decide
    exact (haccept.trans hcall).other r hplain.1 hplain.2.1 hplain.2.2
  rw [hwords] at hregs
  have hall := (haccept.trans hcall).trans hregs
  have hcode : saveRegsCode returnAddress = [.pushWord returnAddress] ++
      [Reg.ax, .bx, .cx, .dx, .si, .di, .bp].map (fun r => .plain (.push r)) ++
        [.plain (.mov .bp .sp), .plain (.loadArg .cx 14),
          .plain (.mov .ax .ss)] := rfl
  rw [hcode, gateExec_append, gateExec_append]
  change Pushed k (gateExec (gateExec _ [.pushWord returnAddress]) _) _ at hall
  generalize gateExec (gateExec _ [.pushWord returnAddress]) _ = f at hall
  have hother : forall r, r ≠ .sp -> r ≠ .flags -> r ≠ .cs ->
      f.reg r = k.reg r := hall.other
  have hsp : f.reg .sp = k.reg .sp - 22 := hall.sp
  have hmem : f.mem = framedMem k returnAddress := hall.mem
  have hss := hother .ss (by decide) (by decide) (by decide)
  change Framed k (((f.set .bp (f.reg .sp)).set .cx
    (peekw f.mem (f.reg .ss) (f.reg .sp + 14))).set .ax (f.reg .ss)) _
  refine ⟨hmem, hall.task, hall.currentTask, ?_, ?_, ?_, ?_, ?_, ?_, ?_⟩
  · simpa using hsp
  · simpa using hsp
  · simpa using hss
  · simpa using hother .ds (by decide) (by decide) (by decide)
  · simpa using hother .es (by decide) (by decide) (by decide)
  · simpa using hss
  · have hoff : k.reg .sp - 22 + 14 = k.reg .sp - 8 := by
      bv_omega
    have hread : peekw (framedMem k returnAddress) (k.reg .ss)
        (k.reg .sp - 8) = returnAddress :=
      peekw_pushAll (i := 3) (by simp [frameWords]) (by simp [frameWords])
    rw [← hoff, ← hsp, ← hmem, ← hss] at hread
    simpa using hread

structure Checked (f c : Machine) : Prop where
  sp : c.reg .sp = f.reg .sp - 2
  ss : c.reg .ss = f.reg .ss
  ds : c.reg .ds = f.reg .ds
  es : c.reg .es = f.reg .es
  task : c.task = f.task
  currentTask : c.currentTask = f.currentTask
  mem : forall x, x ≠ linear (f.reg .ss) (f.reg .sp - 2) ->
    x ≠ linear (f.reg .ss) (f.reg .sp - 2 + 1) -> c.mem x = f.mem x

theorem checkSegment_hang {f : Machine} (h : f.reg .ds ≠ kernelSegment) :
    checkSegment f = .error .hang := by
  have hax : (exec f [.push .ax, .mov .ax .ds]).reg .ax = f.reg .ds := by
    simp [Instr.exec]
  unfold checkSegment
  rw [← hax] at h
  exact if_pos h

theorem checkSegment_ok {f : Machine} (h : f.reg .ds = kernelSegment) :
    checkSegment f = .ok (exec f
      [.push .ax, .mov .ax .ds, .pop .ax, .push .cx, .pop .ip]) := by
  have hax : (exec f [.push .ax, .mov .ax .ds]).reg .ax = f.reg .ds := by
    simp [Instr.exec]
  unfold checkSegment
  rw [← hax] at h
  exact if_neg (not_not_intro h)

theorem interruptEnter_ok (num : Word)
    (h : (enterStack (gateExec k acceptCode) returnAddress).reg .ds =
      kernelSegment) :
    exists c, interruptEnter k returnAddress num = .ok c ∧
      Checked (enterStack (gateExec k acceptCode) returnAddress) c := by
  unfold interruptEnter kernelEnter
  rw [checkSegment_ok h]
  generalize enterStack (gateExec k acceptCode) returnAddress = f
  refine ⟨_, rfl, ?_, ?_, ?_, ?_, ?_, ?_, ?_⟩
  · change f.reg .sp - 2 + 2 - 2 + 2 - 2 = f.reg .sp - 2
    rw [BitVec.sub_add_cancel, BitVec.sub_add_cancel]
  · simp [gateExec, GateInstr.exec, Instr.exec]
  · simp [gateExec, GateInstr.exec, Instr.exec]
  · simp [gateExec, GateInstr.exec, Instr.exec]
  · simp [gateExec, GateInstr.exec, Instr.exec]
  · simp [gateExec, GateInstr.exec, Instr.exec]
  · intro x hlow hhigh
    simp only [gateExec, List.foldl_cons, List.foldl_nil, GateInstr.exec,
      Instr.exec, exec_cons, exec_nil, set_mem, set_reg, reduceCtorEq,
      if_true, if_false, BitVec.sub_add_cancel]
    rw [pokew_other hlow hhigh, pokew_other hlow hhigh,
      pokew_other hlow hhigh]

theorem interruptEnter_hang {num : Word}
    (h : (enterStack (gateExec k acceptCode) returnAddress).reg .ds ≠
      kernelSegment) : interruptEnter k returnAddress num = .error .hang := by
  unfold interruptEnter kernelEnter
  rw [checkSegment_hang h]
  rfl

/-!
# Entering from a program
-/

structure CalledFromProgram (k c : Machine) (returnAddress : Word) : Prop where
  sp : c.reg .sp = (k.task k.currentTask).stackTop - 2
  currentTask : c.currentTask = k.currentTask
  task : c.task k.currentTask =
    { k.task k.currentTask with userSp := k.reg .sp - 22 }
  mem : forall off, peek c.mem (k.task k.currentTask).segment off =
    peek (framedMem k returnAddress) (k.task k.currentTask).segment off

theorem called_from_program (hk : UserMode k) (returnAddress num : Word) :
    exists c, interruptEnter k returnAddress num = .ok c ∧
      CalledFromProgram k c returnAddress := by
  have he := framed k returnAddress
  have hne : k.reg .ss ≠ kernelSegment := by
    intro heq
    apply hk.apart 0 0
    rw [← hk.ss, heq]
  have hstack : enterStack (gateExec k acceptCode) returnAddress = gateExec
      (gateExec (gateExec k acceptCode) (saveRegsCode returnAddress))
      enterTaskCode := by
    unfold enterStack
    exact if_neg (he.ax ▸ hne)
  generalize gateExec (gateExec k acceptCode) (saveRegsCode returnAddress) = e
    at he hstack
  have hds : (enterStack (gateExec k acceptCode) returnAddress).reg .ds =
      kernelSegment := by
    rw [hstack]
    simp [gateExec, enterTaskCode, GateInstr.exec, Instr.exec]
  rcases interruptEnter_ok num hds with ⟨c, hrun, hc⟩
  rw [hstack] at hc
  have hsp : (gateExec e enterTaskCode).reg .sp =
      (k.task k.currentTask).stackTop := by
    rw [← he.task, ← he.currentTask]
    simp [gateExec, enterTaskCode, GateInstr.exec, Instr.exec, Task.field]
  have hss : (gateExec e enterTaskCode).reg .ss = kernelSegment := by
    simp [gateExec, enterTaskCode, GateInstr.exec, Instr.exec]
  have hmem : (gateExec e enterTaskCode).mem = framedMem k returnAddress := by
    rw [← he.mem]
    simp [gateExec, enterTaskCode, GateInstr.exec, Instr.exec]
  have htask : (gateExec e enterTaskCode).task k.currentTask =
      { k.task k.currentTask with userSp := k.reg .sp - 22 } := by
    rw [← he.task, ← he.currentTask, ← he.bp]
    simp [gateExec, enterTaskCode, GateInstr.exec, Instr.exec]
  have hcurrent : (gateExec e enterTaskCode).currentTask = k.currentTask := by
    rw [← he.currentTask]
    simp [gateExec, enterTaskCode, GateInstr.exec, Instr.exec]
  refine ⟨c, hrun, ?_, ?_, ?_, ?_⟩
  · rw [hc.sp, hsp]
  · rw [hc.currentTask, hcurrent]
  · rw [hc.task, htask]
  · intro off
    unfold peek
    rw [hc.mem, hmem]
    · rw [hss]
      exact hk.apart off _
    · rw [hss]
      exact hk.apart off _

/-!
# Entering from the kernel
-/

theorem enterStack_kernel (hk : KernelMode k) (returnAddress : Word) :
    enterStack (gateExec k acceptCode) returnAddress =
      gateExec (gateExec k acceptCode) (saveRegsCode returnAddress) := by
  unfold enterStack
  exact if_pos ((framed k returnAddress).ax.trans hk.ss)

structure CalledFromKernel (k c : Machine) (returnAddress : Word) : Prop where
  sp : c.reg .sp = k.reg .sp - 24
  ss : c.reg .ss = k.reg .ss
  ds : c.reg .ds = k.reg .ds
  es : c.reg .es = k.reg .es
  record : c.task c.currentTask = k.task k.currentTask
  mem : forall off, k.reg .sp - 22 ≤ off ->
    peek c.mem (k.reg .ss) off = peek (framedMem k returnAddress) (k.reg .ss) off

theorem called_from_kernel (hk : KernelMode k) (hds : k.reg .ds = kernelSegment)
    (returnAddress num : Word) :
    exists c, interruptEnter k returnAddress num = .ok c ∧
      CalledFromKernel k c returnAddress := by
  have he := framed k returnAddress
  have hroom := hk.room
  have hstack := enterStack_kernel hk returnAddress
  generalize gateExec (gateExec k acceptCode) (saveRegsCode returnAddress) = e
    at he hstack
  rcases interruptEnter_ok num (by rw [hstack, he.ds]; exact hds) with ⟨c, hrun, hc⟩
  rw [hstack] at hc
  refine ⟨c, hrun, ?_, hc.ss.trans he.ss, hc.ds.trans he.ds, hc.es.trans he.es, ?_, ?_⟩
  · rw [hc.sp, he.sp]
    bv_omega
  · rw [hc.task, hc.currentTask, he.task, he.currentTask]
  · intro off hoff
    rw [← he.mem]
    apply hc.mem
    · rw [he.ss, he.sp]
      intro heq
      have heq := linear_injective heq
      bv_omega
    · rw [he.ss, he.sp]
      intro heq
      have heq := linear_injective heq
      bv_omega

/-!
# Reading the frame back
-/

theorem kernelExitRun_mem (k : Machine) : (kernelExitRun k).mem = k.mem := by
  have hload : (exec k loadTaskCode).mem = k.mem := by
    simp [loadTaskCode, Instr.exec]
  have huser : (exec (exec k loadTaskCode) userStackCode).mem = k.mem := by
    rw [← hload]
    simp [userStackCode, Instr.exec]
  have hpops : forall k : Machine, (exec k popRegsCode).mem = k.mem := by
    intro k
    simp [popRegsCode, Instr.exec]
  unfold kernelExitRun
  dsimp only
  rw [hpops]
  split
  · exact huser
  · exact hload

theorem kernelExitRun_kernel
    (hstack : k.reg .sp ≠ (k.task k.currentTask).stackTop) (r : Reg) :
    (kernelExitRun k).reg r = (exec k popRegsCode).reg r := by
  have hload : forall r, r ≠ .bp -> r ≠ .ax -> r ≠ .bx -> r ≠ .cx ->
      (exec k loadTaskCode).reg r = k.reg r := by
    intro r hbp hax hbx hcx
    simp [loadTaskCode, Instr.exec, hbp, hax, hbx, hcx]
  have hmem : (exec k loadTaskCode).mem = k.mem := by
    simp [loadTaskCode, Instr.exec]
  have hcx : (exec k loadTaskCode).reg .cx =
      (k.task k.currentTask).stackTop := by
    simp [loadTaskCode, Instr.exec, Task.field]
  have hsp := hload .sp (by decide) (by decide) (by decide) (by decide)
  have hss := hload .ss (by decide) (by decide) (by decide) (by decide)
  have hrun : kernelExitRun k = exec (exec k loadTaskCode) popRegsCode := by
    unfold kernelExitRun
    exact congrArg (fun k => exec k popRegsCode)
      (if_neg (by rw [hsp, hcx]; exact hstack))
  rw [hrun, popRegs_reg, popRegs_reg, hmem, hsp, hss]
  cases r with
  | ds => exact hload .ds (by decide) (by decide) (by decide) (by decide)
  | es => exact hload .es (by decide) (by decide) (by decide) (by decide)
  | ss => exact hss
  | _ => rfl

structure FrameAt (m : Mem) (seg base : Word) (k : Machine) : Prop where
  bp : peekw m seg base = k.reg .bp
  di : peekw m seg (base + 2) = k.reg .di
  si : peekw m seg (base + 4) = k.reg .si
  dx : peekw m seg (base + 6) = k.reg .dx
  cx : peekw m seg (base + 8) = k.reg .cx
  bx : peekw m seg (base + 10) = k.reg .bx
  ax : peekw m seg (base + 12) = k.reg .ax
  ip : peekw m seg (base + 16) = k.reg .ip
  cs : peekw m seg (base + 18) = k.reg .cs
  flags : peekw m seg (base + 20) = k.reg .flags

theorem frameAt {m : Mem} (returnAddress : Word) (hsame : forall i, i < 22 ->
      m (linear (k.reg .ss) (k.reg .sp - 22 + BitVec.ofNat 16 i)) =
        framedMem k returnAddress
          (linear (k.reg .ss) (k.reg .sp - 22 + BitVec.ofNat 16 i))) :
    FrameAt m (k.reg .ss) (k.reg .sp - 22) k := by
  have hlen : (frameWords k returnAddress).length = 11 := rfl
  have hword : forall i (hi : i < 11),
      peekw m (k.reg .ss) (k.reg .sp - 22 + BitVec.ofNat 16 (2 * i)) =
        (frameWords k returnAddress).getD (10 - i) 0 := by
    intro i hi
    have hoff : k.reg .sp - 22 + BitVec.ofNat 16 (2 * i) =
        k.reg .sp - BitVec.ofNat 16 (2 * (10 - i + 1)) := by
      bv_omega
    have hnext : k.reg .sp - 22 + BitVec.ofNat 16 (2 * i) + 1 =
        k.reg .sp - 22 + BitVec.ofNat 16 (2 * i + 1) := by
      bv_omega
    have hpushed : peekw (framedMem k returnAddress) (k.reg .ss)
        (k.reg .sp - BitVec.ofNat 16 (2 * (10 - i + 1))) =
          (frameWords k returnAddress).getD (10 - i) 0 :=
      peekw_pushAll (by rw [hlen]; decide) (by rw [hlen]; omega)
    rw [← hpushed, ← hoff]
    apply peekw_congr
    · exact hsame (2 * i) (by omega)
    · rw [hnext]
      exact hsame (2 * i + 1) (by omega)
  have hbase : k.reg .sp - 22 + BitVec.ofNat 16 (2 * 0) = k.reg .sp - 22 :=
    BitVec.add_zero _
  have hbp := hword 0 (by decide)
  rw [hbase] at hbp
  exact ⟨hbp, hword 1 (by decide), hword 2 (by decide), hword 3 (by decide),
    hword 4 (by decide), hword 5 (by decide), hword 6 (by decide),
    hword 8 (by decide), hword 9 (by decide), hword 10 (by decide)⟩

theorem framedMem_above (returnAddress : Word) (hroom : 22 ≤ (k.reg .sp).toNat)
    {off : Word} (hoff : k.reg .sp ≤ off) :
    peek (framedMem k returnAddress) (k.reg .ss) off = peek k.mem (k.reg .ss) off := by
  apply pushAll_other
  intro i hi heq
  have heq := linear_injective heq
  change i < 22 at hi
  bv_omega

structure NumPopped (d e : Machine) : Prop where
  sp : e.reg .sp = d.reg .sp + 2
  ss : e.reg .ss = d.reg .ss
  ds : e.reg .ds = d.reg .ds
  es : e.reg .es = d.reg .es
  mem : e.mem = d.mem
  task : e.task = d.task
  currentTask : e.currentTask = d.currentTask

theorem numPopped (d : Machine) : NumPopped d (exec d [.pop .ax]) := by
  constructor <;> simp [Instr.exec]

theorem interruptLeave_mem (d : Machine) : (interruptLeave d).mem = d.mem := by
  unfold interruptLeave
  rw [kernelExitRun_mem]
  exact (numPopped d).mem

/-!
# Resuming
-/

/-- A program goes on with everything but its own {lit}`DS` and {lit}`ES`. -/
theorem program_resumed (hk : UserMode k) (returnAddress num : Word)
    {dispatcher : Machine -> Machine}
    (hreturns : forall c, interruptEnter k returnAddress num = .ok c ->
      DispatcherReturns c (dispatcher c)) :
    exists k', interruptRun dispatcher k returnAddress num = .ok k' ∧
      (forall r, k'.reg r =
        if r = .ds ∨ r = .es then k.reg .ss else k.reg r) ∧
      forall off, k.reg .sp ≤ off ->
        peek k'.mem (k.reg .ss) off = peek k.mem (k.reg .ss) off := by
  rcases called_from_program hk returnAddress num with
    ⟨c, hrun, hc⟩
  have hd := hreturns c hrun
  have hroom := hk.room
  have hrecord : (c.task c.currentTask).segment = k.reg .ss ∧
      (c.task c.currentTask).userSp = k.reg .sp - 22 ∧
      (c.task c.currentTask).stackTop = (k.task k.currentTask).stackTop := by
    rw [hc.currentTask, hc.task]
    exact ⟨hk.ss.symm, rfl, rfl⟩
  rcases hrecord with ⟨hsegment, huserSp, hstackTop⟩
  have hmem : forall off, k.reg .sp - 22 ≤ off ->
      peek (dispatcher c).mem (k.reg .ss) off =
        peek (framedMem k returnAddress) (k.reg .ss) off := by
    intro off hoff
    rw [← hsegment, hd.program off (huserSp ▸ hoff), hsegment, hk.ss]
    exact hc.mem off
  generalize hcall : dispatcher c = d at hd hmem
  refine ⟨interruptLeave d, ?_, ?_, ?_⟩
  · unfold interruptRun
    rw [hrun, ok_bind, hcall]
  · have he := numPopped d
    have hempty : (exec d [.pop .ax]).reg .sp =
        ((exec d [.pop .ax]).task (exec d [.pop .ax]).currentTask).stackTop := by
      rw [he.sp, he.task, he.currentTask, hd.currentTask, hd.stackTop, hstackTop, hd.sp,
        hc.sp]
      exact BitVec.sub_add_cancel ..
    have hframe : FrameAt d.mem (k.reg .ss) (k.reg .sp - 22) k := by
      apply frameAt returnAddress
      intro i hi
      apply hmem
      bv_omega
    intro r
    unfold interruptLeave
    rw [kernelExitRun_user hempty, he.task, he.currentTask, he.mem, hd.currentTask]
    dsimp only
    rw [hd.segment, hd.userSp, hsegment, huserSp]
    cases r with
    | ax => exact hframe.ax
    | bx => exact hframe.bx
    | cx => exact hframe.cx
    | dx => exact hframe.dx
    | si => exact hframe.si
    | di => exact hframe.di
    | bp => exact hframe.bp
    | sp => exact BitVec.sub_add_cancel ..
    | ss => rfl
    | ds => rfl
    | es => rfl
    | cs => exact hframe.cs
    | ip => exact hframe.ip
    | flags => exact hframe.flags
  · intro off hoff
    rw [interruptLeave_mem, hmem off (by bv_omega)]
    exact framedMem_above returnAddress hroom hoff

/-- Interrupted kernel code goes on with everything, if it had the kernel's
segment in {lit}`DS`. -/
theorem kernel_resumed (hk : KernelMode k) (hds : k.reg .ds = kernelSegment)
    {num : Word} {dispatcher : Machine -> Machine}
    (hreturns : forall c, interruptEnter k returnAddress num = .ok c ->
      DispatcherReturns c (dispatcher c)) :
    exists k', interruptRun dispatcher k returnAddress num = .ok k' ∧
      Resumed k k' ((k.task k.currentTask).stackTop.toNat + 1) := by
  have hroom := hk.room
  have hon := hk.onStack
  rcases called_from_kernel hk hds returnAddress num with ⟨c, hrun, hc⟩
  have hd := hreturns c hrun
  have hcsp := hc.sp
  have hmem : forall off, k.reg .sp - 22 ≤ off ->
      off.toNat ≤ (k.task k.currentTask).stackTop.toNat + 1 ->
      peek (dispatcher c).mem (k.reg .ss) off =
        peek (framedMem k returnAddress) (k.reg .ss) off := by
    intro off hoff hlast
    rw [← hc.mem off hoff, hk.ss]
    exact hd.kernelStack off (by bv_omega) (hc.record ▸ hlast)
  generalize hcall : dispatcher c = d at hd hmem
  have he := numPopped d
  have hsp : (exec d [.pop .ax]).reg .sp = k.reg .sp - 22 := by
    rw [he.sp, hd.sp, hcsp]
    bv_omega
  have hbelow : (exec d [.pop .ax]).reg .sp ≠
      ((exec d [.pop .ax]).task (exec d [.pop .ax]).currentTask).stackTop := by
    rw [hsp, he.task, he.currentTask, hd.currentTask, hd.stackTop, hc.record]
    intro heq
    have hnat := congrArg BitVec.toNat heq
    bv_omega
  have hss := he.ss.trans (hd.ss.trans hc.ss)
  have hframe : FrameAt d.mem (k.reg .ss) (k.reg .sp - 22) k := by
    apply frameAt returnAddress
    intro i hi
    apply hmem
    · bv_omega
    · have hoff : (k.reg .sp - 22 + BitVec.ofNat 16 i).toNat ≤
          (k.reg .sp).toNat := by
        bv_omega
      omega
  refine ⟨interruptLeave d, ?_, ?_, ?_⟩
  · unfold interruptRun
    rw [hrun, ok_bind, hcall]
  · intro r
    unfold interruptLeave
    rw [kernelExitRun_kernel hbelow, popRegs_reg, hsp, hss, he.mem]
    cases r with
    | ax => exact hframe.ax
    | bx => exact hframe.bx
    | cx => exact hframe.cx
    | dx => exact hframe.dx
    | si => exact hframe.si
    | di => exact hframe.di
    | bp => exact hframe.bp
    | sp => exact BitVec.sub_add_cancel ..
    | ss => exact hss
    | ds => exact he.ds.trans (hd.ds.trans hc.ds)
    | es => exact he.es.trans (hd.es.trans hc.es)
    | cs => exact hframe.cs
    | ip => exact hframe.ip
    | flags => exact hframe.flags
  · intro off hoff hlast
    rw [interruptLeave_mem, hmem off (by bv_omega) hlast]
    exact framedMem_above returnAddress (by omega) hoff

theorem kernel_hangs (hk : KernelMode k) (hds : k.reg .ds ≠ kernelSegment)
    (dispatcher : Machine -> Machine) (num : Word) :
    interruptRun dispatcher k returnAddress num = .error .hang := by
  have he := framed k returnAddress
  have hstack := enterStack_kernel hk returnAddress
  unfold interruptRun
  rw [interruptEnter_hang (by rw [hstack, he.ds]; exact hds)]
  rfl

/-- An interrupt is transparent for a program just when it has its own segment
in {lit}`DS` and {lit}`ES`, and for the kernel just when it has its segment in
{lit}`DS`. -/
theorem interrupt_transparent {num : Word} {dispatcher : Machine -> Machine}
    (hreturns : forall c, interruptEnter k returnAddress num = .ok c ->
      DispatcherReturns c (dispatcher c)) :
    (UserMode k ->
      ((exists k', interruptRun dispatcher k returnAddress num = .ok k' ∧
        Resumed k k' 0xffff) <->
      k.reg .ds = k.reg .ss ∧ k.reg .es = k.reg .ss)) ∧
    (KernelMode k ->
      ((exists k', interruptRun dispatcher k returnAddress num = .ok k' ∧
        Resumed k k' ((k.task k.currentTask).stackTop.toNat + 1)) <->
      k.reg .ds = kernelSegment)) := by
  constructor
  · intro hk
    rcases program_resumed hk returnAddress num hreturns with ⟨k', hrun, hreg, hmem⟩
    constructor
    · intro h
      rcases h with ⟨k'', hrun', hresumed⟩
      rw [hrun] at hrun'
      cases hrun'
      have hds := (hresumed.reg .ds).symm.trans (hreg .ds)
      have hes := (hresumed.reg .es).symm.trans (hreg .es)
      exact ⟨hds, hes⟩
    · intro h
      refine ⟨k', hrun, ?_, fun off hoff _ => hmem off hoff⟩
      intro r
      rw [hreg r]
      split
      · next hr =>
          rcases hr with rfl | rfl
          · exact h.1.symm
          · exact h.2.symm
      · rfl
  · intro hk
    constructor
    · intro h
      by_contra hds
      rcases h with ⟨k', hrun, _⟩
      rw [kernel_hangs hk hds] at hrun
      cases hrun
    · intro hds
      exact kernel_resumed hk hds hreturns

end Frame

/-!
# A program that is interrupted

The program in segment {lit}`1050` is interrupted once with its own segment in
{lit}`DS` and {lit}`ES`, and once between the two loads of the kernel's segment
in its {lit}`farmemcpy`.
-/

def interruptedProgram (ds es : Word) : Machine where
  reg
    | .ss => 0x1050
    | .cs => 0x1050
    | .sp => 0x8000
    | .ds => ds
    | .es => es
    | .flags => interruptFlag
    | _ => 0
  mem := fun _ => 0
  task := fun _ => ⟨0, 0x9000, 0x1050, .running, 0, 0x8000, 0, 0, 0⟩
  currentTask := 8

theorem interruptedProgram_user (ds es : Word) :
    UserMode (interruptedProgram ds es) := by
  refine ⟨rfl, ?_, (by decide : 22 ≤ (0x8000 : Word).toNat)⟩
  intro off off'
  change linear 0x1050 off ≠ linear kernelSegment off'
  have hoff := off.isLt
  have hoff' := off'.isLt
  unfold linear kernelSegment
  change (0x1050 * 16 + off.toNat) % 0x100000 ≠
    (0x0050 * 16 + off'.toNat) % 0x100000
  omega

/-- A dispatcher that leaves a number in {lit}`AX`. -/
def clobberAx (k : Machine) : Machine :=
  k.set .ax 0xffff

theorem clobberAx_returns (k : Machine) : DispatcherReturns k (clobberAx k) :=
  ⟨rfl, rfl, rfl, rfl, rfl, rfl, rfl, rfl, fun _ _ _ => rfl, fun _ _ => rfl⟩

theorem interrupt_transparent_program : exists k',
    interruptRun clobberAx (interruptedProgram 0x1050 0x1050) 0x0200 8 =
      .ok k' ∧ Resumed (interruptedProgram 0x1050 0x1050) k' 0xffff :=
  ((interrupt_transparent fun c _ => clobberAx_returns c).1
    (interruptedProgram_user 0x1050 0x1050)).mpr ⟨rfl, rfl⟩

/-- The interrupt in {lit}`farmemcpy` changes {lit}`DS`. -/
theorem interrupt_in_farmemcpy :
    UserMode (interruptedProgram 0x0050 0x1050) ∧
      (forall c, DispatcherReturns c (clobberAx c)) ∧
      ¬ exists k', interruptRun clobberAx (interruptedProgram 0x0050 0x1050)
          0x0200 8 = .ok k' ∧
        Resumed (interruptedProgram 0x0050 0x1050) k' 0xffff := by
  have hk := interruptedProgram_user 0x0050 0x1050
  refine ⟨hk, clobberAx_returns, ?_⟩
  rcases program_resumed hk 0x0200 8
    (fun c _ => clobberAx_returns c) with ⟨k₁, hrun₁, hreg, _⟩
  intro h
  rcases h with ⟨k', hrun, hresumed⟩
  rw [hrun₁] at hrun
  cases hrun
  have hds := (hresumed.reg .ds).symm.trans (hreg .ds)
  revert hds
  decide

end Kernel
end Rmmtos
