import Rmmtos.Kernel.System

/-!
# Segments

The bitmap of segments, the list of tasks and the segments in the records of
the tasks agree in every state of the running system.  Exited tasks stay in the
list and their segments are used again, so the order of the list matters: a
task that lives stands before all others that have had its segment.
-/

namespace Rmmtos
namespace Kernel

open Library Fs

/-!
# The bitmap
-/

def segmentOf (i : Nat) : Word :=
  firstSegment + 0x1000 * BitVec.ofNat 16 i

theorem segmentOf_injective {i j : Nat} (hi : i < 8) (hj : j < 8)
    (h : segmentOf i = segmentOf j) : i = j := by
  unfold segmentOf firstSegment at h
  interval_cases i <;> interval_cases j <;> first | rfl | cases h

theorem segmentOf_toNat {i : Nat} (hi : i < 8) :
    (segmentOf i).toNat = 0x1050 + 0x1000 * i := by
  unfold segmentOf firstSegment
  interval_cases i <;> rfl

theorem segmentOf_succ (i : Nat) :
    segmentOf i + 0x1000 = segmentOf (i + 1) := by
  unfold segmentOf
  have hsucc : BitVec.ofNat 16 (i + 1) = BitVec.ofNat 16 i + 1 := by
    rw [BitVec.ofNat_add]
    rfl
  rw [hsucc]
  bv_omega

theorem allocateFrom_spec (bitmap : Byte) (i n : Nat) :
    allocateFrom bitmap (segmentOf i) (List.range' i n) = (0, bitmap) ∨
      exists j, i ≤ j ∧ j < i + n ∧ bitmap &&& byteMask j = 0 ∧
        allocateFrom bitmap (segmentOf i) (List.range' i n) =
          (segmentOf j, bitmap ||| byteMask j) := by
  induction n generalizing i with
  | zero => exact Or.inl rfl
  | succ n ih =>
      rw [List.range'_succ, allocateFrom]
      by_cases hfree : bitmap &&& byteMask i = 0
      · rw [if_pos hfree]
        exact Or.inr ⟨i, Nat.le_refl i, by omega, hfree, rfl⟩
      · rw [if_neg hfree, segmentOf_succ]
        rcases ih (i + 1) with hnone | ⟨j, hlow, hhigh, hbit, hsome⟩
        · exact Or.inl hnone
        · exact Or.inr ⟨j, by omega, by omega, hbit, hsome⟩

theorem allocateSegment_spec (bitmap : Byte)
    (h : (allocateSegment bitmap).1 ≠ 0) :
    exists i, i < 8 ∧ byteBit bitmap i = false ∧
      allocateSegment bitmap = (segmentOf i, bitmap ||| byteMask i) := by
  have hstart : allocateSegment bitmap =
      allocateFrom bitmap (segmentOf 0) (List.range' 0 8) := rfl
  rcases allocateFrom_spec bitmap 0 8 with hnone | ⟨i, _, hi, hbit, hsome⟩
  · rw [hstart, hnone] at h
    exact absurd rfl h
  · exact ⟨i, by omega, (and_byteMask_eq_zero (by omega)).mp hbit,
      hstart.trans hsome⟩

theorem freeSegment_segmentOf (bitmap : Byte) {i : Nat} (hi : i < 8) :
    freeSegment bitmap (segmentOf i) = bitmap &&& ~~~byteMask i := by
  have hindex : ((segmentOf i - firstSegment) / 0x1000).toNat = i := by
    unfold segmentOf firstSegment
    interval_cases i <;> rfl
  rw [freeSegment, hindex]

/-!
# The invariant
-/

/-- The segments of the tasks, as the bitmap and the list of tasks have them. -/
structure SegmentInv (s : KernelState) : Prop where
  segments : forall p, p ∈ s.taskList ->
    exists i, i < 8 ∧ (s.task p).segment = segmentOf i
  order : s.taskList.Pairwise
    (fun p q => s.Live q -> (s.task p).segment ≠ (s.task q).segment)
  bits : forall i, i < 8 -> (byteBit s.segmentBitmap i = true <->
    exists p, p ∈ s.taskList ∧ s.Live p ∧ (s.task p).segment = segmentOf i)

section Invariant

variable {s s' : KernelState}

theorem SegmentInv.distinct (hs : SegmentInv s) {p q : Word}
    (hp : p ∈ s.taskList) (hlivep : s.Live p) (hq : q ∈ s.taskList)
    (hliveq : s.Live q) (hne : p ≠ q) :
    (s.task p).segment ≠ (s.task q).segment := by
  let apart : Word -> Word -> Prop := fun p q => s.Live p -> s.Live q ->
    (s.task p).segment ≠ (s.task q).segment
  have happart : s.taskList.Pairwise apart :=
    hs.order.imp fun hpq _ hlive => hpq hlive
  have hsymm : Std.Symm apart :=
    ⟨fun p q hpq hq hp heq => hpq hp hq heq.symm⟩
  exact happart.forall hp hq hne hlivep hliveq

theorem SegmentInv.lookup (hs : SegmentInv s) {p : Word}
    (hp : p ∈ s.taskList) (hlive : s.Live p) :
    segmentToTask s (s.task p).segment = p := by
  unfold segmentToTask
  cases hfind : s.taskList.find?
      (fun q => (s.task q).segment == (s.task p).segment) with
  | none =>
      rw [List.find?_eq_none] at hfind
      exact absurd (beq_self_eq_true _) (hfind p hp)
  | some q =>
      rcases List.find?_eq_some_iff_append.mp hfind with
        ⟨hseg, before, behind, hlist, hbefore⟩
      rw [hlist] at hp
      rcases List.mem_append.mp hp with hp | hp
      · have hskipped := hbefore p hp
        rw [beq_self_eq_true] at hskipped
        cases hskipped
      · rcases List.mem_cons.mp hp with rfl | hp
        · rfl
        · have horder := hs.order
          rw [hlist, List.pairwise_append, List.pairwise_cons] at horder
          exact absurd (eq_of_beq hseg) (horder.2.1.1 p hp hlive)

theorem SegmentInv.same (hs : SegmentInv s) (h : OnlyStates s s') :
    SegmentInv s' := by
  constructor
  · intro p hp
    rw [h.taskList] at hp
    rw [h.segment]
    exact hs.segments p hp
  · rw [h.taskList]
    refine hs.order.imp fun {p q} hpq hlive => ?_
    rw [h.segment, h.segment]
    exact hpq ((h.live q).mp hlive)
  · intro i hi
    rw [h.segmentBitmap, hs.bits i hi]
    constructor
    · rintro ⟨p, hp, hlive, hseg⟩
      exact ⟨p, h.taskList ▸ hp, (h.live p).mpr hlive, by rw [h.segment, hseg]⟩
    · rintro ⟨p, hp, hlive, hseg⟩
      rw [h.segment] at hseg
      exact ⟨p, h.taskList ▸ hp, (h.live p).mp hlive, hseg⟩

theorem SegmentInv.add (hs : SegmentInv s) {p : Word} {i : Nat} {t : Task}
    (hi : i < 8) (hfree : byteBit s.segmentBitmap i = false)
    (hnew : p ∉ s.taskList) (hlist : s'.taskList = p :: s.taskList)
    (htasks : s'.task = Function.update s.task p t)
    (hsegment : t.segment = segmentOf i) (hstate : t.state ≠ .exited)
    (hbitmap : s'.segmentBitmap = s.segmentBitmap ||| byteMask i) :
    SegmentInv s' := by
  have hself : s'.task p = t := by rw [htasks, Function.update_self]
  have hold : forall q, q ∈ s.taskList -> s'.task q = s.task q := by
    intro q hq
    have hne : q ≠ p := fun heq => hnew (heq ▸ hq)
    rw [htasks, Function.update_of_ne hne]
  have hlive : forall q, q ∈ s.taskList -> (s'.Live q <-> s.Live q) := by
    intro q hq
    unfold KernelState.Live
    rw [hold q hq]
  have hunused : forall q, q ∈ s.taskList -> s.Live q ->
      (s.task q).segment ≠ segmentOf i := by
    intro q hq hliveq hseg
    have hset := (hs.bits i hi).mpr ⟨q, hq, hliveq, hseg⟩
    rw [hfree] at hset
    cases hset
  constructor
  · intro q hq
    rw [hlist] at hq
    rcases List.mem_cons.mp hq with rfl | hq
    · rw [hself]
      exact ⟨i, hi, hsegment⟩
    · rw [hold q hq]
      exact hs.segments q hq
  · rw [hlist, List.pairwise_cons]
    constructor
    · intro q hq hliveq
      rw [hself, hold q hq, hsegment]
      exact (hunused q hq ((hlive q hq).mp hliveq)).symm
    · refine hs.order.imp_of_mem fun {q r} hq hr hqr hliver => ?_
      rw [hold q hq, hold r hr]
      exact hqr ((hlive r hr).mp hliver)
  · intro j hj
    rw [hbitmap, byteBit_or_byteMask hj hi, Bool.or_eq_true, hs.bits j hj,
      decide_eq_true_iff, hlist]
    constructor
    · rintro (⟨q, hq, hliveq, hseg⟩ | rfl)
      · exact ⟨q, List.mem_cons_of_mem p hq, (hlive q hq).mpr hliveq,
          by rw [hold q hq, hseg]⟩
      · refine ⟨p, List.mem_cons_self, ?_, by rw [hself, hsegment]⟩
        unfold KernelState.Live
        rw [hself]
        exact hstate
    · rintro ⟨q, hq, hliveq, hseg⟩
      rcases List.mem_cons.mp hq with rfl | hq
      · rw [hself, hsegment] at hseg
        exact Or.inr (segmentOf_injective hj hi hseg.symm)
      · rw [hold q hq] at hseg
        exact Or.inl ⟨q, hq, (hlive q hq).mp hliveq, hseg⟩

theorem SegmentInv.exit (hs : SegmentInv s) {p : Word} (hp : p ∈ s.taskList)
    (hlivep : s.Live p) : SegmentInv (afterExit s p) := by
  rcases hs.segments p hp with ⟨i, hi, hsegment⟩
  have hseg : forall q, ((afterExit s p).task q).segment =
      (s.task q).segment := by
    intro q
    unfold afterExit
    by_cases hq : q = p
    · rw [hq, setTask_self]
      rfl
    · rw [setTask_other _ _ _ hq]
  have hlive : forall q, (afterExit s p).Live q <-> s.Live q ∧ q ≠ p := by
    intro q
    unfold KernelState.Live afterExit
    by_cases hq : q = p
    · rw [hq, setTask_self]
      exact iff_of_false (fun h => h rfl) (fun h => h.2 rfl)
    · rw [setTask_other _ _ _ hq]
      exact ⟨fun h => ⟨h, hq⟩, fun h => h.1⟩
  constructor
  · intro q hq
    rw [hseg]
    exact hs.segments q hq
  · refine hs.order.imp fun {q r} hqr hliver => ?_
    rw [hseg, hseg]
    exact hqr ((hlive r).mp hliver).1
  · intro j hj
    have hbitmap : (afterExit s p).segmentBitmap =
        s.segmentBitmap &&& ~~~byteMask i := by
      change freeSegment s.segmentBitmap (s.task p).segment = _
      rw [hsegment, freeSegment_segmentOf _ hi]
    rw [hbitmap, byteBit_and_not_byteMask hj hi, Bool.and_eq_true, hs.bits j hj,
      Bool.not_eq_true', decide_eq_false_iff_not]
    constructor
    · rintro ⟨⟨q, hq, hliveq, hsegq⟩, hji⟩
      refine ⟨q, hq, (hlive q).mpr ⟨hliveq, ?_⟩, by rw [hseg, hsegq]⟩
      intro heq
      rw [heq, hsegment] at hsegq
      exact hji (segmentOf_injective hj hi hsegq.symm)
    · rintro ⟨q, hq, hliveq, hsegq⟩
      rcases (hlive q).mp hliveq with ⟨hliveq, hne⟩
      rw [hseg] at hsegq
      refine ⟨⟨q, hq, hliveq, hsegq⟩, ?_⟩
      intro hji
      rw [hji] at hsegq
      exact hs.distinct hq hliveq hp hlivep hne (hsegq.trans hsegment.symm)

theorem SegmentInv.schedule (hs : SegmentInv s) (h : taskSchedule s = .ok s') :
    SegmentInv s' := by
  rcases taskSchedule_eq h with rfl | ⟨p, rfl⟩
  · exact hs
  · exact ⟨hs.segments, hs.order, hs.bits⟩

theorem setTask_segments (hs : SegmentInv s) (p : Word) {t : Task}
    (hstate : t.state = (s.task p).state)
    (hsegment : t.segment = (s.task p).segment) :
    SegmentInv (s.setTask p t) := by
  have hcase : forall q, (s.setTask p t).Live q = s.Live q ∧
      ((s.setTask p t).task q).segment = (s.task q).segment := by
    intro q
    unfold KernelState.Live
    by_cases hq : q = p
    · rw [hq, setTask_self, hstate, hsegment]
      exact ⟨rfl, rfl⟩
    · rw [setTask_other _ _ _ hq]
      exact ⟨rfl, rfl⟩
  refine ⟨?_, ?_, ?_⟩
  · intro q hq
    rw [(hcase q).2]
    exact hs.segments q hq
  · refine hs.order.imp fun {q r} hqr hliver => ?_
    rw [(hcase q).2, (hcase r).2]
    exact hqr ((hcase r).1 ▸ hliver)
  · intro i hi
    rw [setTask_segmentBitmap, hs.bits i hi]
    simp only [setTask_taskList, (hcase _).1, (hcase _).2]

theorem SegmentInv.step (hs : SegmentInv s) (hsystem : SystemInv s)
    (hstep : KernelStep s s') : SegmentInv s' := by
  rcases hsystem.owned with ⟨label, howned⟩
  cases hstep with
  | @user m userSp _ _ =>
      have hmem : SegmentInv { s with mem := m } :=
        ⟨hs.segments, hs.order, hs.bits⟩
      exact setTask_segments hmem s.currentTask rfl rfl
  | @fork _ segment hrunning hrun =>
      rcases fork_eq hrun with
        ⟨p, stack, s₁, s₂, htask, hstack, hsegment, hne, _, rfl⟩
      rw [← hsegment] at hne
      rcases allocateSegment_spec _ hne with ⟨i, hi, hfree, hallocate⟩
      rw [hallocate] at hsegment
      have hsame := (kernel_malloc_sameTasks htask).trans
        (kernel_malloc_sameTasks hstack)
      have hlive : (forkTask (s.task s.currentTask) segment stack).state ≠
          .exited := by
        rw [forkTask_state]
        exact hrunning.live
      refine hs.add hi hfree (howned.malloc_fresh htask) ?_ ?_ ?_ hlive ?_
      · rfl
      · change Function.update s₂.task p _ = _
        rw [hsame.task]
      · rw [forkTask_segment, ← hsegment]
      · change (allocateSegment s.segmentBitmap).2 = _
        rw [hallocate]
  | exit hrunning hrun =>
      rcases howned.taskExit hsystem.current hrunning.live hrun with
        ⟨s₁, s₂, hsame, _, hwake, hschedule⟩
      have hs₁ := (hs.exit hsystem.current hrunning.live).same hsame.onlyStates
      exact (hs₁.same (wakeWaiting_onlyStates hwake)).schedule hschedule
  | sleep hrunning hrun =>
      rcases taskSleep_eq hrunning.live hrun with ⟨st, hst, hschedule⟩
      exact (hs.same (setState_onlyStates hrunning.live hst)).schedule hschedule
  | setWakeup _ hrun =>
      rcases setWakeup_view hrun with ⟨htask, hlist, hcurrent, hbitmap, _⟩
      refine hs.same ⟨hlist, hcurrent, hbitmap, ?_, ?_, ?_⟩ <;> intro p
      · unfold KernelState.Live
        rw [htask]
      · rw [htask]
      · rw [htask]
  | irqSetWakeup _ hrun =>
      rcases irqSetWakeup_view hrun with ⟨htask, hlist, hcurrent, hbitmap, _⟩
      refine hs.same ⟨hlist, hcurrent, hbitmap, ?_, ?_, ?_⟩ <;> intro p
      · unfold KernelState.Live
        rw [htask]
      · rw [htask]
      · rw [htask]
  | waitFor _ _ =>
      unfold setWaiting
      split
      · exact setTask_segments hs _ rfl rfl
      · exact hs
  | openNode hrunning hrun =>
      rcases howned.openNode hsystem.current hrunning.live hrun with ⟨_, hview⟩
      refine hs.same ⟨hview.taskList, hview.currentTask, hview.segmentBitmap, ?_,
        hview.segment, hview.waiting⟩
      intro p
      unfold KernelState.Live
      rw [hview.state]
  | tick hrun => exact hs.same (clockTick_onlyStates hrun)
  | irq hrun => exact hs.same (irqResume_onlyStates hrun)
  | schedule hrun => exact hs.schedule hrun
  | dispatch _ _ => exact ⟨hs.segments, hs.order, hs.bits⟩

theorem Started.segments (hs : Started s) : SegmentInv s := by
  rcases hs with ⟨boot, hboot, hrun⟩
  rcases taskInit_eq hboot hrun with ⟨p, stack, s₁, s₂, htask, hstack, _, rfl⟩
  have hsame := (kernel_malloc_sameTasks htask).trans
    (kernel_malloc_sameTasks hstack)
  have hempty : SegmentInv boot := by
    refine ⟨?_, ?_, ?_⟩
    · simp [hboot.taskList]
    · simp [hboot.taskList]
    · simp [hboot.taskList, hboot.bitmap]
  have hlive : (newTask firstSegment stack).state ≠ .exited :=
    TaskState.noConfusion
  refine hempty.add (p := p) (i := 0) (by decide) ?_ ?_ ?_ ?_ ?_ hlive ?_
  · rw [hboot.bitmap]
    exact byteBit_zero 0
  · simp [hboot.taskList]
  · rw [hboot.taskList]
    rfl
  · change Function.update s₂.task p _ = _
    rw [hsame.task]
  · rfl
  · rw [hboot.bitmap]
    rfl

end Invariant

/-!
# The segments of the running system
-/

theorem linear_segmentOf {i : Nat} (hi : i < 8) (off : Word) :
    linear (segmentOf i) off = 0x10500 + 0x10000 * i + off.toNat := by
  have hoff := off.isLt
  unfold linear
  rw [segmentOf_toNat hi, Nat.mod_eq_of_lt (by omega)]
  omega

theorem linear_kernelSegment (off : Word) :
    linear kernelSegment off = 0x500 + off.toNat := by
  have hoff := off.isLt
  unfold linear kernelSegment
  rw [show (0x0050 : Word).toNat = 0x50 from rfl, Nat.mod_eq_of_lt (by omega)]

/-- The bitmap, the list and the records of the tasks tell the same story. -/
structure SegmentsSound (s : KernelState) : Prop where
  bits : forall i, i < 8 -> (s.segmentBitmap &&& byteMask i ≠ 0 <->
    ExistsUnique fun p => p ∈ s.taskList ∧ s.Live p ∧
      (s.task p).segment = firstSegment + 0x1000 * BitVec.ofNat 16 i)
  segments : forall p q, p ∈ s.taskList -> s.Live p -> q ∈ s.taskList ->
    s.Live q -> p ≠ q -> (s.task p).segment ≠ (s.task q).segment
  kernelStacks : forall p q, p ∈ s.taskList -> s.Live p -> q ∈ s.taskList ->
    s.Live q -> p ≠ q ->
    (s.task p).stack.toNat + kernelStackBytes.toNat ≤ (s.task q).stack.toNat ∨
      (s.task q).stack.toNat + kernelStackBytes.toNat ≤ (s.task p).stack.toNat
  ranges : forall p q, p ∈ s.taskList -> s.Live p -> q ∈ s.taskList ->
    s.Live q -> p ≠ q -> forall off off',
      linear (s.task p).segment off ≠ linear (s.task q).segment off'
  kernel : forall p, p ∈ s.taskList -> s.Live p -> forall off off',
    linear (s.task p).segment off ≠ linear kernelSegment off'
  current : s.currentTask ∈ s.taskList
  lookup : forall p, p ∈ s.taskList -> s.Live p ->
    segmentToTask s (s.task p).segment = p

theorem segmentsSound_of_inv {s : KernelState} (hsystem : SystemInv s)
    (hs : SegmentInv s) : SegmentsSound s := by
  rcases hsystem.owned with ⟨label, howned⟩
  constructor
  · intro i hi
    have hbit : s.segmentBitmap &&& byteMask i ≠ 0 <->
        byteBit s.segmentBitmap i = true := by
      rw [ne_eq, and_byteMask_eq_zero hi, Bool.not_eq_false]
    rw [hbit, hs.bits i hi]
    constructor
    · rintro ⟨p, hp, hlivep, hsegp⟩
      refine ⟨p, ⟨hp, hlivep, hsegp⟩, ?_⟩
      rintro q ⟨hq, hliveq, hsegq⟩
      by_contra hne
      exact hs.distinct hq hliveq hp hlivep hne (hsegq.trans hsegp.symm)
    · rintro ⟨p, hp, _⟩
      exact ⟨p, hp⟩
  · intro p q hp hlivep hq hliveq hne
    exact hs.distinct hp hlivep hq hliveq hne
  · intro p q hp hlivep hq hliveq hne
    have hlabelp := howned.uses _ _ (Uses.stack hp hlivep)
    have hlabelq := howned.uses _ _ (Uses.stack hq hliveq)
    refine howned.owned.apart hlabelp hlabelq ?_
    intro heq
    rw [heq, hlabelq] at hlabelp
    injection hlabelp with howner
    injection howner with hqp
    exact hne hqp.symm
  · intro p q hp hlivep hq hliveq hne off off' heq
    have hseg := hs.distinct hp hlivep hq hliveq hne
    rcases hs.segments p hp with ⟨i, hi, hsegp⟩
    rcases hs.segments q hq with ⟨j, hj, hsegq⟩
    rw [hsegp, hsegq] at hseg heq
    rw [linear_segmentOf hi, linear_segmentOf hj] at heq
    have hij : i ≠ j := fun h => hseg (by rw [h])
    have hoff := off.isLt
    have hoff' := off'.isLt
    omega
  · intro p hp _ off off' heq
    rcases hs.segments p hp with ⟨i, hi, hseg⟩
    rw [hseg, linear_segmentOf hi, linear_kernelSegment] at heq
    have hoff' := off'.isLt
    omega
  · exact hsystem.current
  · intro p hp hlive
    exact hs.lookup hp hlive

theorem reachable_inv {s : KernelState} (hs : Reachable Started KernelStep s) :
    SystemInv s ∧ SegmentInv s := by
  apply hs.invariant (I := fun s => SystemInv s ∧ SegmentInv s)
  · intro s hs
    exact ⟨hs.inv, hs.segments⟩
  · rintro s s' ⟨hsystem, hs⟩ hstep
    exact ⟨hsystem.step hstep, hs.step hsystem hstep⟩

/-- In every reachable state the set bits of the bitmap are the segments of the
live tasks, and no two of them share a segment or a kernel stack. -/
theorem segments_sound {s : KernelState} (hs : Reachable Started KernelStep s) :
    SegmentsSound s := by
  rcases reachable_inv hs with ⟨hsystem, hsegments⟩
  exact segmentsSound_of_inv hsystem hsegments

def openFork : KernelState :=
  ((fork openStart).toOption.map Prod.snd).getD openStart

def parentExited : KernelState :=
  (taskExit openFork openFork.currentTask).toOption.getD openFork

def segmentReused : KernelState :=
  ((fork parentExited).toOption.map Prod.snd).getD parentExited

theorem segmentReused_reachable : Reachable Started KernelStep segmentReused := by
  have hopen : KernelStep fileStart openStart := .openNode (Or.inl rfl) openStart_run
  have hforked : fork openStart = .ok (0x2050, openFork) := rfl
  have hfork : KernelStep openStart openFork := .fork (Or.inl rfl) hforked
  have hexit : KernelStep openFork parentExited := .exit (Or.inl rfl) rfl
  have hreused : fork parentExited = .ok (0x1050, segmentReused) := rfl
  have hreuse : KernelStep parentExited segmentReused := .fork (Or.inl rfl) hreused
  exact .step (.step (.step (.step (.start fileStart_started) hopen) hfork) hexit)
    hreuse

/-- A live task has the segment of one that has exited and is still listed. -/
theorem segments_sound_reused :
    segmentReused.taskList.map (fun p =>
      ((segmentReused.task p).state, (segmentReused.task p).segment)) =
        [(.running, 0x1050), (.running, 0x2050), (.exited, 0x1050)] ∧
      SegmentsSound segmentReused :=
  ⟨by decide +kernel, segments_sound segmentReused_reachable⟩

end Kernel
end Rmmtos
