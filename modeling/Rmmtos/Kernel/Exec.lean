import Rmmtos.Kernel.Exit
import Rmmtos.Kernel.Gate

/-!
# The start of a program

{lit}`exec` gives the current task a new stack: the parameter at the very end of
its segment, the count of the arguments below it, and below that the registers
that {lit}`_kernel_exit` pops.  The parameter is given by its characters.
-/

namespace Rmmtos
namespace Kernel

open Library Fs

/-- The loop over the parameter, from its terminating zero down, with the stack
pointer. -/
def pokeParam (segment : Word) (param : List Byte) : Nat -> Mem × Word -> Mem × Word
  | 0, x => x
  | i + 1, x =>
      pokeParam segment param i (poke x.1 segment x.2 (param.getD i 0), x.2 - 1)

/-- The saved registers of a new program, by their offsets. -/
def execFrame (segment userSp : Word) : List (Word × Word) :=
  [(userSp, 0x0200), (userSp - 2, segment), (userSp - 4, 0), (userSp - 6, 0xbeef),
    (userSp - 8, 0), (userSp - 10, 0), (userSp - 12, 0), (userSp - 14, 0),
    (userSp - 16, 0), (userSp - 18, 0), (userSp - 20, 0)]

def KernelState.exec (s : KernelState) (param : List Byte) : KernelState :=
  let task := s.task s.currentTask
  let (mem, userSp) := pokeParam task.segment param (param.length + 1) (s.mem, 0xffff)
  let userSp := userSp - 1
  let mem := pokew mem task.segment userSp 1
  let userSp := userSp - 2
  let mem := pokeFrame mem task.segment (execFrame task.segment userSp)
  { s with mem := mem }.setTask s.currentTask { task with userSp := userSp - 20 }

/-!
# The stores
-/

def paramStores (param : List Byte) : Nat -> Word -> List (Word × Byte)
  | 0, _ => []
  | i + 1, userSp => (userSp, param.getD i 0) :: paramStores param i (userSp - 1)

def wordStores (w : Word × Word) : List (Word × Byte) :=
  [(w.1, w.2.extractLsb' 0 8), (w.1 + 1, w.2.extractLsb' 8 8)]

/-- The user stack pointer of a new program. -/
def execSp (param : List Byte) : Word :=
  0xffe7 - BitVec.ofNat 16 param.length

def execWords (segment userSp : Word) : List (Word × Word) :=
  [(userSp + 22, 1), (userSp + 20, 0x0200), (userSp + 18, segment), (userSp + 16, 0),
    (userSp + 14, 0xbeef), (userSp + 12, 0), (userSp + 10, 0), (userSp + 8, 0),
    (userSp + 6, 0), (userSp + 4, 0), (userSp + 2, 0), (userSp, 0)]

def execStores (segment : Word) (param : List Byte) : List (Word × Byte) :=
  paramStores param (param.length + 1) 0xffff ++
    (execWords segment (execSp param)).flatMap wordStores

def inSegment (segment : Word) (stores : List (Word × Byte)) : List (Nat × Byte) :=
  stores.map fun w => (linear segment w.1, w.2)

section Stores

variable {segment userSp : Word} {param : List Byte} {m : Mem}

theorem pokeParam_eq (n : Nat) : pokeParam segment param n (m, userSp) =
    (storeAll m (inSegment segment (paramStores param n userSp)),
      userSp - BitVec.ofNat 16 n) := by
  induction n generalizing m userSp with
  | zero => exact Prod.ext rfl (BitVec.sub_zero userSp).symm
  | succ n ih =>
      unfold pokeParam
      rw [ih]
      refine Prod.ext rfl ?_
      dsimp only
      rw [BitVec.ofNat_add]
      bv_omega

theorem pokew_eq (w : Word × Word) : pokew m segment w.1 w.2 =
    storeAll m (inSegment segment (wordStores w)) := rfl

theorem pokeFrame_cons (w : Word × Word) (ws : List (Word × Word)) :
    pokeFrame m segment (w :: ws) = pokeFrame (pokew m segment w.1 w.2) segment ws :=
  rfl

theorem pokeFrame_eq (ws : List (Word × Word)) : pokeFrame m segment ws =
    storeAll m (inSegment segment (ws.flatMap wordStores)) := by
  induction ws generalizing m with
  | nil => rfl
  | cons w rest ih =>
      unfold pokeFrame at ih ⊢
      rw [List.foldl_cons, ih, pokew_eq]
      rfl

theorem add_sub_word (p a b : Word) : p + a - b = p + (a - b) := by
  bv_omega

theorem execWords_eq (segment userSp : Word) : execWords segment userSp =
    (userSp + 23 - 1, 1) :: execFrame segment (userSp + 23 - 1 - 2) := by
  unfold execWords execFrame
  simp only [add_sub_word]
  have hbottom : userSp + (23 - 1 - 2 - 20) = userSp := BitVec.add_zero userSp
  rw [hbottom]
  rfl

theorem execSp_eq (param : List Byte) :
    0xffff - BitVec.ofNat 16 (param.length + 1) = execSp param + 23 := by
  unfold execSp
  rw [BitVec.ofNat_add]
  bv_omega

theorem inSegment_append (xs ys : List (Word × Byte)) :
    inSegment segment (xs ++ ys) = inSegment segment xs ++ inSegment segment ys :=
  List.map_append

theorem exec_mem (s : KernelState) (param : List Byte) : (s.exec param).mem =
    storeAll s.mem (inSegment (s.task s.currentTask).segment
      (execStores (s.task s.currentTask).segment param)) := by
  unfold KernelState.exec execStores KernelState.setTask
  rw [inSegment_append, storeAll_append, ← pokeFrame_eq, execWords_eq, pokeFrame_cons,
    ← execSp_eq]
  dsimp only
  rw [pokeParam_eq]

theorem exec_userSp (s : KernelState) (param : List Byte) :
    ((s.exec param).task s.currentTask).userSp = execSp param := by
  unfold KernelState.exec
  dsimp only
  rw [pokeParam_eq, execSp_eq]
  change (Function.update s.task s.currentTask _ s.currentTask).userSp = _
  rw [Function.update_self]
  dsimp only
  bv_omega

/-!
# Offsets
-/

theorem mem_paramStores {n i : Nat} (hi : i < n) :
    (userSp - BitVec.ofNat 16 (n - 1 - i), param.getD i 0) ∈
      paramStores param n userSp := by
  induction n generalizing userSp with
  | zero => cases hi
  | succ n ih =>
      unfold paramStores
      rcases Nat.lt_or_eq_of_le (Nat.le_of_lt_succ hi) with hlt | rfl
      · have hmem : (userSp - 1 - BitVec.ofNat 16 (n - 1 - i), param.getD i 0) ∈
            paramStores param n (userSp - 1) := ih hlt
        have hoff : userSp - 1 - BitVec.ofNat 16 (n - 1 - i) =
            userSp - BitVec.ofNat 16 (n + 1 - 1 - i) := by
          have hstep : n + 1 - 1 - i = n - 1 - i + 1 := by
            omega
          rw [hstep, BitVec.ofNat_add]
          bv_omega
        rw [hoff] at hmem
        exact List.mem_cons_of_mem _ hmem
      · have htop : i + 1 - 1 - i = 0 := by
          omega
        rw [htop]
        have hoff : userSp - BitVec.ofNat 16 0 = userSp := BitVec.sub_zero userSp
        rw [hoff]
        exact List.mem_cons_self

theorem paramStores_offset {n : Nat} {off : Word}
    (h : off ∈ (paramStores param n userSp).map Prod.fst) :
    exists j, j < n ∧ off = userSp - BitVec.ofNat 16 j := by
  induction n generalizing userSp with
  | zero => cases h
  | succ n ih =>
      unfold paramStores at h
      rcases List.mem_cons.mp h with heq | hmem
      · exact ⟨0, Nat.succ_pos n, heq.trans (BitVec.sub_zero userSp).symm⟩
      · rcases ih hmem with ⟨j, hj, hoff⟩
        refine ⟨j + 1, Nat.succ_lt_succ hj, ?_⟩
        rw [hoff, BitVec.ofNat_add]
        bv_omega

theorem paramStores_nodup {n : Nat} (hn : n ≤ wordCount) :
    ((paramStores param n userSp).map Prod.fst).Nodup := by
  induction n generalizing userSp with
  | zero => exact List.nodup_nil
  | succ n ih =>
      unfold paramStores
      rw [List.map_cons, List.nodup_cons]
      refine ⟨?_, ih (Nat.le_of_succ_le hn)⟩
      intro hmem
      rcases paramStores_offset hmem with ⟨j, hj, hoff⟩
      have hzero : BitVec.ofNat 16 (j + 1) = 0 := by
        rw [BitVec.ofNat_add]
        dsimp only at hoff
        bv_omega
      have hnat := congrArg BitVec.toNat hzero
      rw [BitVec.toNat_ofNat] at hnat
      unfold wordCount at hn
      change (j + 1) % 65536 = 0 at hnat
      omega

def frameOffsets : List Word :=
  [22, 23, 20, 21, 18, 19, 16, 17, 14, 15, 12, 13, 10, 11, 8, 9, 6, 7, 4, 5, 2, 3, 0, 1]

theorem execWords_offsets (segment userSp : Word) :
    ((execWords segment userSp).flatMap wordStores).map Prod.fst =
      frameOffsets.map fun c => userSp + c := by
  have hzero : userSp + 0 = userSp := BitVec.add_zero userSp
  unfold execWords wordStores frameOffsets
  simp only [List.flatMap_cons, List.flatMap_nil, List.map_cons, List.map_nil,
    List.cons_append, List.nil_append, BitVec.add_assoc, hzero]
  rfl

theorem execSp_toNat (hlen : param.length ≤ 4095) :
    (execSp param).toNat + 24 + param.length = 0xffff := by
  unfold execSp
  have hnat : (BitVec.ofNat 16 param.length).toNat = param.length := by
    rw [BitVec.toNat_ofNat]
    omega
  bv_omega

theorem frameOffset_toNat (hlen : param.length ≤ 4095) {c : Word}
    (hc : c ∈ frameOffsets) :
    (execSp param + c).toNat = (execSp param).toNat + c.toNat ∧ c.toNat < 24 := by
  have hsp := execSp_toNat hlen
  have hall : (frameOffsets.all fun c => decide (c.toNat < 24)) = true := by
    decide
  have hlt : c.toNat < 24 := of_decide_eq_true (List.all_eq_true.mp hall c hc)
  exact ⟨by rw [BitVec.toNat_add]; omega, hlt⟩

theorem paramOffset_toNat (hlen : param.length ≤ 4095) {j : Nat}
    (hj : j < param.length + 1) :
    (0xffff - BitVec.ofNat 16 j : Word).toNat = 0xffff - j := by
  have hnat : (BitVec.ofNat 16 j).toNat = j := by
    rw [BitVec.toNat_ofNat]
    omega
  bv_omega

/-- No two stores of {lit}`exec` meet. -/
theorem execStores_nodup (segment : Word) (hlen : param.length ≤ 4095) :
    ((execStores segment param).map Prod.fst).Nodup := by
  unfold execStores
  rw [List.map_append, execWords_offsets]
  refine List.nodup_append.mpr ⟨?_, ?_, ?_⟩
  · exact paramStores_nodup (by unfold wordCount; omega)
  · refine List.Nodup.map ?_ (by decide : frameOffsets.Nodup)
    intro c c' heq
    dsimp only at heq
    bv_omega
  · intro off hoff off' hoff' heq
    rcases paramStores_offset hoff with ⟨j, hj, rfl⟩
    rcases List.mem_map.mp hoff' with ⟨c, hc, rfl⟩
    rcases frameOffset_toNat hlen hc with ⟨hnat, hlt⟩
    have hparam := paramOffset_toNat hlen hj
    have hsp := execSp_toNat hlen
    rw [heq, hnat] at hparam
    omega

theorem inSegment_nodup {stores : List (Word × Byte)}
    (h : (stores.map Prod.fst).Nodup) :
    ((inSegment segment stores).map Prod.fst).Nodup := by
  have hmap : (inSegment segment stores).map Prod.fst =
      (stores.map Prod.fst).map (linear segment) := by
    unfold inSegment
    rw [List.map_map, List.map_map]
    rfl
  rw [hmap]
  exact h.map fun _ _ heq => linear_injective heq

theorem execStores_above (hlen : param.length ≤ 4095) {off : Word}
    (h : off ∈ (execStores segment param).map Prod.fst) : execSp param ≤ off := by
  have hsp := execSp_toNat hlen
  unfold execStores at h
  rw [List.map_append, execWords_offsets] at h
  change (execSp param).toNat ≤ off.toNat
  rcases List.mem_append.mp h with hparam | hframe
  · rcases paramStores_offset hparam with ⟨j, hj, rfl⟩
    rw [paramOffset_toNat hlen hj]
    omega
  · rcases List.mem_map.mp hframe with ⟨c, hc, rfl⟩
    rw [(frameOffset_toNat hlen hc).1]
    omega

end Stores

/-!
# The new stack
-/

section Stack

variable {s : KernelState} {param : List Byte}

theorem exec_at (hlen : param.length ≤ 4095) {off : Word} {value : Byte}
    (h : (off, value) ∈ execStores (s.task s.currentTask).segment param) :
    peek (s.exec param).mem (s.task s.currentTask).segment off = value := by
  unfold peek
  rw [exec_mem]
  exact storeAll_at (inSegment_nodup (execStores_nodup _ hlen))
    (List.mem_map.mpr ⟨(off, value), h, rfl⟩)

theorem exec_word (hlen : param.length ≤ 4095) {off value : Word}
    (hw : (off, value) ∈ execWords (s.task s.currentTask).segment (execSp param)) :
    peekw (s.exec param).mem (s.task s.currentTask).segment off = value := by
  have hstore : forall x, x ∈ wordStores (off, value) ->
      x ∈ execStores (s.task s.currentTask).segment param := fun x hx =>
    List.mem_append_right _ (List.mem_flatMap.mpr ⟨(off, value), hw, hx⟩)
  have hlow := exec_at hlen (hstore _ List.mem_cons_self)
  have hhigh := exec_at hlen (hstore _ (List.mem_cons_of_mem _ List.mem_cons_self))
  unfold peekw
  rw [hlow, hhigh]
  exact append_extract value

theorem exec_char (hlen : param.length ≤ 4095) {i : Nat} (hi : i ≤ param.length) :
    peek (s.exec param).mem (s.task s.currentTask).segment
      (offsetFrom (execSp param + 24) i) = param.getD i 0 := by
  have hoff : offsetFrom (execSp param + 24) i =
      0xffff - BitVec.ofNat 16 (param.length + 1 - 1 - i) := by
    have hsp := execSp_toNat hlen
    apply BitVec.eq_of_toNat_eq
    rw [paramOffset_toNat hlen (by omega), offsetFrom_toNat]
    · bv_omega
    · unfold wordCount
      bv_omega
  rw [hoff]
  exact exec_at hlen (List.mem_append_left _ (mem_paramStores (Nat.lt_succ_of_le hi)))

theorem exec_other (hlen : param.length ≤ 4095) {x : Nat}
    (hx : forall off, execSp param ≤ off ->
      x ≠ linear (s.task s.currentTask).segment off) :
    (s.exec param).mem x = s.mem x := by
  rw [exec_mem]
  refine storeAll_other ?_
  intro w hw
  rcases List.mem_map.mp hw with ⟨w', hw', rfl⟩
  exact hx _ (execStores_above hlen (List.mem_map_of_mem hw'))

/-!
# The first instruction
-/

/-- The processor at {lit}`_kernel_exit`, behind the last of what was on the kernel
stack. -/
structure LeavesKernel (s : KernelState) (k : Machine) : Prop where
  currentTask : k.currentTask = s.currentTask
  task : k.task s.currentTask = s.task s.currentTask
  empty : k.reg .sp = (s.task s.currentTask).stackTop
  program : forall off, peek k.mem (s.task s.currentTask).segment off =
    peek s.mem (s.task s.currentTask).segment off

/-- The address of the parameter of {lit}`main`, above the address that it returns
to. -/
def mainParameter (k : Machine) : Word := k.reg .sp + 2

def vaStart (p : Word) : Word := p + 2

/-- A program is at its first instruction, with its parameter on the stack. -/
structure ProgramStarts (segment result : Word) (param : List Byte) (before : Mem)
    (k : Machine) : Prop where
  ip : k.reg .ip = 0
  cs : k.reg .cs = segment
  ss : k.reg .ss = segment
  ds : k.reg .ds = segment
  es : k.reg .es = segment
  flags : k.reg .flags = interruptFlag
  ax : k.reg .ax = result
  others : forall r, r ∈ [Reg.bx, .cx, .dx, .si, .di, .bp] -> k.reg r = 0
  argc : peekw k.mem segment (k.reg .sp) = 1
  chars : forall i, i ≤ param.length ->
    peek k.mem segment (offsetFrom (k.reg .sp + 2) i) = param.getD i 0
  ends : (k.reg .sp + 2).toNat + param.length = 0xffff
  apart : ((execStores segment param).map Prod.fst).Nodup
  below : forall off, off.toNat + 22 < (k.reg .sp).toNat ->
    peek k.mem segment off = peek before segment off
  main : forall returnAddress i, i ≤ param.length ->
    let called := (GateInstr.pushWord returnAddress).exec k
    peek called.mem (called.reg .ds) (offsetFrom (vaStart (mainParameter called)) i) =
      param.getD i 0

theorem exec_segment (s : KernelState) (param : List Byte) :
    ((s.exec param).task s.currentTask).segment = (s.task s.currentTask).segment := by
  unfold KernelState.exec KernelState.setTask
  dsimp only
  rw [Function.update_self]

theorem execWords_apart {segment userSp off value : Word}
    (hw : (off, value) ∈ execWords segment userSp) (hne : off ≠ userSp + 12) :
    off ≠ userSp + 12 + 1 ∧ off + 1 ≠ userSp + 12 := by
  unfold execWords at hw
  simp only [List.mem_cons, Prod.mk.injEq, List.not_mem_nil, or_false] at hw
  have heven : exists c : Word, c.toNat < 24 ∧ c.toNat % 2 = 0 ∧ off = userSp + c := by
    rcases hw with h | h | h | h | h | h | h | h | h | h | h | h
    · exact ⟨22, by decide, by decide, h.1⟩
    · exact ⟨20, by decide, by decide, h.1⟩
    · exact ⟨18, by decide, by decide, h.1⟩
    · exact ⟨16, by decide, by decide, h.1⟩
    · exact ⟨14, by decide, by decide, h.1⟩
    · exact ⟨12, by decide, by decide, h.1⟩
    · exact ⟨10, by decide, by decide, h.1⟩
    · exact ⟨8, by decide, by decide, h.1⟩
    · exact ⟨6, by decide, by decide, h.1⟩
    · exact ⟨4, by decide, by decide, h.1⟩
    · exact ⟨2, by decide, by decide, h.1⟩
    · exact ⟨0, by decide, by decide, h.1.trans (BitVec.add_zero userSp).symm⟩
  rcases heven with ⟨c, hlt, heven, rfl⟩
  constructor <;> bv_omega

def resultMem (s : KernelState) (param : List Byte) (result : Word) : Mem :=
  pokew (s.exec param).mem (s.task s.currentTask).segment (execSp param + 12) result

theorem resultMem_word (hlen : param.length ≤ 4095) (result : Word) {off value : Word}
    (hw : (off, value) ∈ execWords (s.task s.currentTask).segment (execSp param))
    (hne : off ≠ execSp param + 12) :
    peekw (resultMem s param result) (s.task s.currentTask).segment off = value := by
  rcases execWords_apart hw hne with ⟨hnext, hprev⟩
  unfold resultMem
  rw [peekw_pokew_other hne hnext hprev]
  exact exec_word hlen hw

theorem char_kept (hlen : param.length ≤ 4095) {m : Mem} {segment value c : Word}
    (hc : c.toNat < 23) {i : Nat} (hi : i ≤ param.length) :
    peek (pokew m segment (execSp param + c) value) segment
        (offsetFrom (execSp param + 24) i) =
      peek m segment (offsetFrom (execSp param + 24) i) := by
  have hsp := execSp_toNat hlen
  have hchar : (offsetFrom (execSp param + 24) i).toNat =
      (execSp param).toNat + 24 + i := by
    have hbase : (execSp param + 24).toNat = (execSp param).toNat + 24 := by
      bv_omega
    rw [offsetFrom_toNat (by unfold wordCount; omega), hbase]
  exact peek_pokew_other (by bv_omega) (by bv_omega)

structure FramePopped (s : KernelState) (param : List Byte) (result : Word)
    (k : Machine) : Prop where
  reg : forall r, k.reg r =
    match r with
    | .ip => 0
    | .ax => result
    | .flags => interruptFlag
    | .sp => execSp param + 22
    | .cs | .ss | .ds | .es => (s.task s.currentTask).segment
    | .bp | .di | .si | .dx | .cx | .bx => 0
  mem : forall off, peek k.mem (s.task s.currentTask).segment off =
    peek (resultMem s param result) (s.task s.currentTask).segment off

theorem exec_popped {k : Machine} {result : Word} (hlen : param.length ≤ 4095)
    (hk : LeavesKernel (taskSetRegister (s.exec param) s.currentTask regAX result) k) :
    FramePopped s param result (kernelExitRun k) := by
  have hrecord : k.task k.currentTask = (s.exec param).task s.currentTask := by
    rw [hk.currentTask]
    exact hk.task
  have hempty : k.reg .sp = (k.task k.currentTask).stackTop := by
    rw [hrecord]
    exact hk.empty
  have hsegment := exec_segment s param
  have huserSp := exec_userSp s param
  have hprogram : forall off, peek k.mem (s.task s.currentTask).segment off =
      peek (resultMem s param result) (s.task s.currentTask).segment off := by
    intro off
    have hsame := hk.program off
    change peek k.mem ((s.exec param).task s.currentTask).segment off =
      peek (pokew (s.exec param).mem ((s.exec param).task s.currentTask).segment
        (((s.exec param).task s.currentTask).userSp + regAX) result)
        ((s.exec param).task s.currentTask).segment off at hsame
    rw [hsegment, huserSp] at hsame
    exact hsame
  have hword : forall (i : Nat) (off value : Word),
      (execWords (s.task s.currentTask).segment (execSp param))[i]? = some (off, value) ->
      off ≠ execSp param + 12 ->
      peekw k.mem (s.task s.currentTask).segment off = value := by
    intro i off value hplace hne
    rw [← resultMem_word hlen result (List.mem_of_getElem? hplace) hne]
    exact peekw_congr (hprogram off) (hprogram (off + 1))
  constructor
  · intro r
    rw [kernelExitRun_user hempty, hrecord]
    dsimp only
    rw [hsegment, huserSp]
    cases r with
    | ax =>
        have hresult := peekw_pokew (s.exec param).mem (s.task s.currentTask).segment
          (execSp param + 12) result
        rw [← hresult]
        exact peekw_congr (hprogram _) (hprogram _)
    | flags => exact hword 1 (execSp param + 20) _ rfl (by bv_omega)
    | cs => exact hword 2 (execSp param + 18) _ rfl (by bv_omega)
    | ip => exact hword 3 (execSp param + 16) _ rfl (by bv_omega)
    | bx => exact hword 6 (execSp param + 10) _ rfl (by bv_omega)
    | cx => exact hword 7 (execSp param + 8) _ rfl (by bv_omega)
    | dx => exact hword 8 (execSp param + 6) _ rfl (by bv_omega)
    | si => exact hword 9 (execSp param + 4) _ rfl (by bv_omega)
    | di => exact hword 10 (execSp param + 2) _ rfl (by bv_omega)
    | bp => exact hword 11 (execSp param) _ rfl (by bv_omega)
    | sp => rfl
    | ss => rfl
    | ds => rfl
    | es => rfl
  · intro off
    rw [kernelExitRun_mem]
    exact hprogram off

/-- {lit}`exec` builds the frame of a program that starts with its parameter, whatever
the result of the system call is. -/
theorem exec_starts_program {k : Machine} {result : Word} (hlen : param.length ≤ 4095)
    (hk : LeavesKernel (taskSetRegister (s.exec param) s.currentTask regAX result) k) :
    ProgramStarts (s.task s.currentTask).segment result param s.mem
      (kernelExitRun k) := by
  have hpopped := exec_popped hlen hk
  generalize kernelExitRun k = k' at hpopped
  have hsp : k'.reg .sp = execSp param + 22 := hpopped.reg .sp
  have hnat := execSp_toNat hlen
  have hbehind : k'.reg .sp + 2 = execSp param + 24 := by
    rw [hsp]
    bv_omega
  have hchars : forall i, i ≤ param.length ->
      peek k'.mem (s.task s.currentTask).segment (offsetFrom (execSp param + 24) i) =
        param.getD i 0 := by
    intro i hi
    rw [hpopped.mem]
    exact (char_kept hlen (by decide) hi).trans (exec_char hlen hi)
  refine ⟨hpopped.reg .ip, hpopped.reg .cs, hpopped.reg .ss, hpopped.reg .ds,
    hpopped.reg .es, hpopped.reg .flags, hpopped.reg .ax, ?_, ?_, ?_, ?_,
    execStores_nodup _ hlen, ?_, ?_⟩
  · intro r hr
    simp only [List.mem_cons, List.not_mem_nil, or_false] at hr
    rcases hr with rfl | rfl | rfl | rfl | rfl | rfl <;> exact hpopped.reg _
  · rw [hsp]
    have hargc : (execSp param + 22, 1) ∈
        execWords (s.task s.currentTask).segment (execSp param) := List.mem_cons_self
    rw [← resultMem_word hlen result hargc (by bv_omega)]
    exact peekw_congr (hpopped.mem _) (hpopped.mem _)
  · rw [hbehind]
    exact hchars
  · rw [hbehind]
    bv_omega
  · intro off hoff
    rw [hsp] at hoff
    have hbelow : off.toNat < (execSp param).toNat := by
      bv_omega
    rw [hpopped.mem]
    have hkept : peek (resultMem s param result) (s.task s.currentTask).segment off =
        peek (s.exec param).mem (s.task s.currentTask).segment off :=
      peek_pokew_other (by bv_omega) (by bv_omega)
    rw [hkept]
    refine exec_other hlen ?_
    intro off' hoff' heq
    have heq := linear_injective heq
    rw [heq] at hbelow
    exact absurd hoff' (Nat.not_le_of_lt hbelow)
  · intro returnAddress i hi
    have hargument : vaStart (mainParameter
        ((GateInstr.pushWord returnAddress).exec k')) = execSp param + 24 := by
      change k'.reg .sp - 2 + 2 + 2 = _
      rw [hsp]
      bv_omega
    have hcall : k'.reg .sp - 2 = execSp param + 20 := by
      rw [hsp]
      bv_omega
    change peek (pokew k'.mem (k'.reg .ss) (k'.reg .sp - 2) returnAddress) (k'.reg .ds)
      (offsetFrom (vaStart (mainParameter ((GateInstr.pushWord returnAddress).exec k')))
        i) = _
    rw [hargument, hcall, hpopped.reg .ss, hpopped.reg .ds]
    exact (char_kept hlen (by decide) hi).trans (hchars i hi)

end Stack

/-- A processor that is about to leave a kernel. -/
def leavingKernel (s : KernelState) : Machine where
  reg
    | .sp => (s.task s.currentTask).stackTop
    | _ => 0
  mem := s.mem
  task := s.task
  currentTask := s.currentTask

theorem leavingKernel_leaves (s : KernelState) : LeavesKernel s (leavingKernel s) :=
  ⟨rfl, rfl, rfl, fun _ => rfl⟩

/-- The first task of the small system goes on as a program with the parameter
{lit}`"hi"`. -/
theorem exec_starts_small :
    ProgramStarts (smallStart.task smallStart.currentTask).segment 0 [0x68, 0x69]
      smallStart.mem (kernelExitRun (leavingKernel (taskSetRegister
        (smallStart.exec [0x68, 0x69]) smallStart.currentTask regAX 0))) :=
  exec_starts_program (by decide) (leavingKernel_leaves _)

end Kernel
end Rmmtos
