import Rmmtos.Library.Interrupts
import Rmmtos.Library.LinkedList
import Rmmtos.Fs.OpenHandles
import Rmmtos.Kernel.SingleWakeup

/-!
# An interrupt while a task registers for it

{lit}`irq_set_wakeup` links a record into the list that
{lit}`irq_resume_waiting_tasks` empties and frees, with the interrupts on.  Here the
list is in memory, record by record, so that a pointer to a record may stay when the
record has been freed.
-/

namespace Rmmtos
namespace Kernel

open Library Fs

/-!
# The list in memory
-/

structure IrqItem where
  task : Word
  next : Word
deriving DecidableEq, Repr

/-- The list of one interrupt from its entry {lit}`head` of {lit}`irq_events` on,
with the record that is being registered.  The records that a handler has woken and
freed are kept with their tasks.  The lists of {lit}`kernel` itself are not used. -/
structure IrqMemory where
  kernel : KernelState
  head : Word
  item : Word -> IrqItem
  newWait : Word
  resumed : List (Word × Word)

def IrqMemory.setItem (m : IrqMemory) (x : Word) (item : IrqItem) : IrqMemory :=
  { m with item := Function.update m.item x item }

def moreItems (x : Word × IrqMemory) : Bool :=
  x.1 != 0

def resumeItem (x : Word × IrqMemory) : Result (Word × IrqMemory) := do
  let item := x.2.item x.1
  let kernel ← taskWakeup item.task x.2.kernel
  let kernel ← kernel.free x.1
  .ok (item.next, { x.2 with
    kernel := kernel, resumed := x.2.resumed ++ [(x.1, item.task)] })

def irqResumeWaitingTasksAt (m : IrqMemory) : Result IrqMemory :=
  whileLoop .hang moreItems resumeItem wordCount (m.head, m) >>=
    fun x => .ok { x.2 with head := 0 }

/-- Where {lit}`irq_set_wakeup` is, in front of one of its statements behind the call
of {lit}`malloc`. -/
inductive IrqPoint where
  | setWaitList
  | checkIrq
  | checkWait
  | setTask
  | testList
  | setNull
  | setNext
  | setHead
  | registered
deriving DecidableEq, Repr

def irqSetWakeupStep (task : Word) (irq : Nat) :
    IrqPoint -> IrqMemory -> Result (IrqPoint × IrqMemory)
  | .setWaitList, m => .ok (.checkIrq, m)
  | .checkIrq, m =>
      if irqCount ≤ irq then panic .irqIndexOutOfRange else .ok (.checkWait, m)
  | .checkWait, m =>
      if m.newWait = 0 then panic .irqWaitAlloc else .ok (.setTask, m)
  | .setTask, m =>
      .ok (.testList, m.setItem m.newWait { m.item m.newWait with task := task })
  | .testList, m =>
      if m.head = 0 then .ok (.setNull, m) else .ok (.setNext, m)
  | .setNull, m =>
      .ok (.setHead, m.setItem m.newWait { m.item m.newWait with next := 0 })
  | .setNext, m =>
      .ok (.setHead, m.setItem m.newWait { m.item m.newWait with next := m.head })
  | .setHead, m => .ok (.registered, { m with head := m.newWait })
  | .registered, m => .ok (.registered, m)

def IrqWait.pair (w : IrqWait) : Word × Word :=
  (w.address, w.task)

structure WaitsLaid (head : Word) (item : Word -> IrqItem) (waits : List IrqWait) :
    Prop where
  path : NextPath (fun x => (item x).next) 0 head (waits.map IrqWait.address)
  tasks : forall w, w ∈ waits -> (item w.address).task = w.task

def irqView : QueueView IrqMemory Word Word where
  holds m := NextPath (fun x => (m.item x).next) 0 m.head
  taken m := m.resumed

/-- The interrupt behind the first {lit}`n` statements does no harm to the
registration, nor to the others. -/
def IrqSafe (task : Word) (irq : Nat) (registrations : List (Word × Word)) (n : Nat)
    (m : IrqMemory) : Prop :=
  RegistersSafely irqView (irqSetWakeupStep task irq) irqResumeWaitingTasksAt
    .registered registrations n (.setWaitList, m)

structure IrqStart (s : KernelState) (irq : Nat) (m : IrqMemory) : Prop where
  malloc : s.malloc irqWaitSize = .ok (m.newWait, m.kernel)
  laid : WaitsLaid m.head m.item (s.irqEvents irq)
  resumed : m.resumed = []

section Laid

variable {head : Word} {item item' : Word -> IrqItem} {w : IrqWait}
  {waits : List IrqWait}

theorem waitsLaid_nil : WaitsLaid 0 item [] :=
  ⟨.done, fun _ hw => nomatch hw⟩

theorem WaitsLaid.head_zero (h : WaitsLaid head item []) : head = 0 := by
  rcases h with ⟨hpath, _⟩
  cases hpath with
  | done => rfl

theorem waitsLaid_cons : WaitsLaid head item (w :: waits) <->
    head = w.address ∧ w.address ≠ 0 ∧ (item w.address).task = w.task ∧
      WaitsLaid (item w.address).next item waits := by
  constructor
  · rintro ⟨hpath, htasks⟩
    rw [List.map_cons] at hpath
    cases hpath with
    | node hne hrest =>
        exact ⟨rfl, hne, htasks w List.mem_cons_self, hrest,
          fun v hv => htasks v (List.mem_cons_of_mem w hv)⟩
  · rintro ⟨rfl, hne, htask, hrest⟩
    refine ⟨.node hne hrest.path, fun v hv => ?_⟩
    rcases List.mem_cons.mp hv with rfl | hv
    · exact htask
    · exact hrest.tasks v hv

theorem WaitsLaid.congr (h : WaitsLaid head item waits)
    (hsame : forall x, x ∈ waits.map IrqWait.address -> item' x = item x) :
    WaitsLaid head item' waits := by
  refine ⟨h.path.congr fun x hx => by rw [hsame x hx], fun w hw => ?_⟩
  rw [hsame _ (List.mem_map_of_mem hw)]
  exact h.tasks w hw

theorem WaitsLaid.length_lt (h : WaitsLaid head item waits) :
    waits.length < wordCount := by
  have hfew := Fs.length_lt_of_nodup h.path.nodup h.path.not_mem
  rw [List.length_map] at hfew
  exact hfew

end Laid

/-!
# The handler
-/

section Handler

variable {m : IrqMemory} {waits : List IrqWait} {kernel : KernelState}

theorem resumeLoop_laid {head : Word} {n : Nat} (hlaid : WaitsLaid head m.item waits)
    (hrun : resumeTasks waits m.kernel = .ok kernel) (hn : waits.length ≤ n) :
    whileLoop .hang moreItems resumeItem n (head, m) =
      .ok (0, { m with
        kernel := kernel, resumed := m.resumed ++ waits.map IrqWait.pair }) := by
  induction waits generalizing head m n with
  | nil =>
      cases hlaid.head_zero
      cases hrun
      rw [whileLoop_done n rfl, List.map_nil, List.append_nil]
  | cons w rest ih =>
      rcases waitsLaid_cons.mp hlaid with ⟨rfl, hne, htask, hrest⟩
      rcases ok_bind_iff.mp hrun with ⟨k₁, hwake, hrun⟩
      rcases ok_bind_iff.mp hrun with ⟨k₂, hfree, hrun⟩
      cases n with
      | zero => cases hn
      | succ n =>
          have hturn : resumeItem (w.address, m) = .ok ((m.item w.address).next,
              { m with kernel := k₂, resumed := m.resumed ++ [w.pair] }) := by
            refine ok_bind_iff.mpr ⟨k₁, htask ▸ hwake,
              ok_bind_iff.mpr ⟨k₂, hfree, ?_⟩⟩
            rw [htask]
            rfl
          have hgoes : moreItems (w.address, m) = true := bne_iff_ne.mpr hne
          rw [whileLoop_turn n hgoes hturn]
          rw [ih (m := { m with kernel := k₂, resumed := m.resumed ++ [w.pair] })
            hrest hrun (Nat.le_of_succ_le_succ hn)]
          dsimp only
          rw [List.append_assoc]
          rfl

theorem irqResumeAt_laid (hlaid : WaitsLaid m.head m.item waits)
    (hrun : resumeTasks waits m.kernel = .ok kernel) :
    irqResumeWaitingTasksAt m = .ok { m with
      kernel := kernel, head := 0
      resumed := m.resumed ++ waits.map IrqWait.pair } := by
  unfold irqResumeWaitingTasksAt
  rw [resumeLoop_laid hlaid hrun (Nat.le_of_lt hlaid.length_lt)]
  rfl

theorem irqResumeAt_idle (hhead : m.head = 0) : irqResumeWaitingTasksAt m = .ok m := by
  have hlaid : WaitsLaid m.head m.item [] := by
    rw [hhead]
    exact waitsLaid_nil
  rw [irqResumeAt_laid hlaid rfl]
  rw [List.map_nil, List.append_nil, ← hhead]

end Handler

/-!
# Waits that can be woken
-/

section Wakeups

variable {s : KernelState} {registered : Word -> Bool} {irq : Nat}
  {w : IrqWait} {waits rest : List IrqWait}

theorem taskWakeup_awaits {p : Word} (hawaits : Awaits s registered p) :
    exists s', taskWakeup p s = .ok s' := by
  unfold taskWakeup
  rcases hawaits with ⟨hstate, _⟩ | ⟨hstate, _⟩
  · rw [hstate]
    exact ⟨_, rfl⟩
  · rw [hstate]
    exact ⟨_, rfl⟩

theorem withWaits_fires_iff (hmem : forall v, v ∈ rest <-> v ∈ waits) {src : Source}
    {p : Word} : Fires (withWaits s irq rest) src p <->
      Fires (withWaits s irq waits) src p := by
  cases src with
  | alarm x => rw [fires_alarm_iff, fires_alarm_iff]; rfl
  | exit q => rw [fires_exit_iff, fires_exit_iff]; rfl
  | irqWait n x =>
      rw [fires_irqWait_iff, fires_irqWait_iff]
      unfold withWaits
      dsimp only
      by_cases hn : n = irq
      · subst hn
        rw [Function.update_self, Function.update_self]
        simp only [hmem]
      · rw [Function.update_of_ne hn, Function.update_of_ne hn]

theorem IrqInv.perm (hs : IrqInv registered irq waits s) (hperm : waits.Perm rest) :
    IrqInv registered irq rest s := by
  rcases hs with ⟨⟨label, howned⟩, hs⟩
  have hevents : forall xs, (withWaits s irq xs).irqEvents irq = xs :=
    fun xs => Function.update_self ..
  have hmem : forall v, v ∈ rest <-> v ∈ waits := fun v => hperm.symm.mem_iff
  have hagain : withWaits (withWaits s irq waits) irq rest = withWaits s irq rest := by
    unfold withWaits
    simp only [Function.update_idem]
  refine ⟨⟨label, ?_⟩, hs.less rfl (fun _ => rfl) fun src p =>
    (withWaits_fires_iff hmem).mp⟩
  rw [← hagain]
  refine howned.replaceWaits ?_ fun v hv => ?_
  · have hnodup := howned.waits_nodup irq
    rw [hevents] at hnodup
    exact (hperm.map IrqWait.address).nodup_iff.mp hnodup
  · refine howned.uses _ _ (Uses.irqWait ?_)
    rw [hevents]
    exact (hmem v).mp hv

theorem IrqInv.first (hs : IrqInv registered irq (w :: rest) s) :
    exists s₁ s₂, taskWakeup w.task s = .ok s₁ ∧ s₁.free w.address = .ok s₂ := by
  rcases hs with ⟨⟨label, howned⟩, hs⟩
  have hevents : (withWaits s irq (w :: rest)).irqEvents irq = w :: rest :=
    Function.update_self ..
  have hnodup := howned.waits_nodup irq
  rw [hevents] at hnodup
  rcases hs.dropWait hnodup with ⟨_, _, hawaits, _⟩
  rcases taskWakeup_awaits (s := s) hawaits with ⟨s₁, hwake⟩
  have hlabel : label w.address = some (.irqWait irq) := by
    refine howned.uses _ _ (Uses.irqWait ?_)
    rw [hevents]
    exact List.mem_cons_self
  rcases howned.owned.free hlabel with ⟨h, hfree, _⟩
  refine ⟨s₁, _, hwake, kernel_free_of_heap (h := h) ?_⟩
  rw [(taskWakeup_same hwake).heap]
  exact hfree

theorem IrqInv.resumes (hs : IrqInv registered irq (waits ++ rest) s) :
    exists s', resumeTasks waits s = .ok s' ∧ IrqInv registered irq rest s' := by
  induction waits generalizing s with
  | nil => exact ⟨s, rfl, hs⟩
  | cons w waits ih =>
      rcases hs.first with ⟨s₁, s₂, hwake, hfree⟩
      rcases ih (hs.wake hwake hfree) with ⟨s', hrun, hs'⟩
      exact ⟨s', ok_bind_iff.mpr ⟨s₁, hwake, ok_bind_iff.mpr ⟨s₂, hfree, hrun⟩⟩, hs'⟩

end Wakeups

/-!
# The registration
-/

def IrqPlace (task : Word) (waits : List IrqWait) (m : IrqMemory) : IrqPoint -> Prop
  | .registered => WaitsLaid m.head m.item (⟨m.newWait, task⟩ :: waits)
  | .setHead => WaitsLaid m.head m.item waits ∧ m.item m.newWait = ⟨task, m.head⟩
  | .setNull => WaitsLaid m.head m.item waits ∧ (m.item m.newWait).task = task ∧
      waits = []
  | .setNext => WaitsLaid m.head m.item waits ∧ (m.item m.newWait).task = task
  | .testList => WaitsLaid m.head m.item waits ∧ (m.item m.newWait).task = task
  | _ => WaitsLaid m.head m.item waits

structure Linking (task newWait : Word) (waits : List IrqWait) (kernel : KernelState)
    (resumed : List (Word × Word)) (k : IrqPoint) (m : IrqMemory) : Prop where
  newWait : m.newWait = newWait
  kernel : m.kernel = kernel
  resumed : m.resumed = resumed
  place : IrqPlace task waits m k

def IrqPoint.left : IrqPoint -> Nat
  | .setWaitList => 7
  | .checkIrq => 6
  | .checkWait => 5
  | .setTask => 4
  | .testList => 3
  | .setNull => 2
  | .setNext => 2
  | .setHead => 1
  | .registered => 0

section Registration

variable {task newWait : Word} {irq : Nat} {waits : List IrqWait}
  {kernel kernel' : KernelState} {resumed : List (Word × Word)} {k : IrqPoint}
  {m : IrqMemory} {registered : Word -> Bool}

theorem WaitsLaid.setItem (h : WaitsLaid m.head m.item waits) {x : Word}
    (hfresh : x ∉ waits.map IrqWait.address) (item : IrqItem) :
    WaitsLaid m.head (m.setItem x item).item waits := by
  refine h.congr fun y hy => Function.update_of_ne ?_ ..
  rintro rfl
  exact hfresh hy

theorem setItem_self (m : IrqMemory) (x : Word) (item : IrqItem) :
    (m.setItem x item).item x = item :=
  Function.update_self ..

theorem Linking.step (hm : Linking task newWait waits kernel resumed k m)
    (hirq : irq < irqCount) (hne : newWait ≠ 0)
    (hfresh : newWait ∉ waits.map IrqWait.address) :
    exists k' m', irqSetWakeupStep task irq k m = .ok (k', m') ∧
      Linking task newWait waits kernel resumed k' m' ∧
      (k ≠ .registered -> k'.left < k.left) := by
  rcases hm with ⟨rfl, hkernel, hresumed, hplace⟩
  cases k with
  | setWaitList =>
      exact ⟨_, _, rfl, ⟨rfl, hkernel, hresumed, hplace⟩, fun _ => by decide⟩
  | checkIrq =>
      exact ⟨_, _, if_neg (Nat.not_le.mpr hirq), ⟨rfl, hkernel, hresumed, hplace⟩,
        fun _ => by decide⟩
  | checkWait =>
      exact ⟨_, _, if_neg hne, ⟨rfl, hkernel, hresumed, hplace⟩, fun _ => by decide⟩
  | setTask =>
      refine ⟨_, _, rfl, ⟨rfl, hkernel, hresumed, ?_, ?_⟩, fun _ => by decide⟩
      · exact WaitsLaid.setItem hplace hfresh _
      · exact congrArg IrqItem.task (setItem_self m _ _)
  | testList =>
      rcases hplace with ⟨hlaid, htask⟩
      by_cases hhead : m.head = 0
      · refine ⟨_, _, if_pos hhead, ⟨rfl, hkernel, hresumed, hlaid, htask, ?_⟩,
          fun _ => by decide⟩
        rcases hlaid with ⟨hpath, _⟩
        rw [hhead] at hpath
        exact List.map_eq_nil_iff.mp (hpath.unique .done)
      · exact ⟨_, _, if_neg hhead, ⟨rfl, hkernel, hresumed, hlaid, htask⟩,
          fun _ => by decide⟩
  | setNull =>
      rcases hplace with ⟨hlaid, htask, rfl⟩
      refine ⟨_, _, rfl, ⟨rfl, hkernel, hresumed, hlaid.setItem hfresh _, ?_⟩,
        fun _ => by decide⟩
      refine (setItem_self m _ _).trans ?_
      change IrqItem.mk (m.item m.newWait).task 0 = ⟨task, m.head⟩
      rw [htask, hlaid.head_zero]
  | setNext =>
      rcases hplace with ⟨hlaid, htask⟩
      refine ⟨_, _, rfl, ⟨rfl, hkernel, hresumed, hlaid.setItem hfresh _, ?_⟩,
        fun _ => by decide⟩
      refine (setItem_self m _ _).trans ?_
      change IrqItem.mk (m.item m.newWait).task m.head = ⟨task, m.head⟩
      rw [htask]
  | setHead =>
      rcases hplace with ⟨hlaid, hitem⟩
      refine ⟨_, _, rfl, ⟨rfl, hkernel, hresumed, waitsLaid_cons.mpr
        ⟨rfl, hne, ?_, ?_⟩⟩, fun _ => by decide⟩
      · exact congrArg IrqItem.task hitem
      · change WaitsLaid (m.item m.newWait).next m.item waits
        rw [hitem]
        exact hlaid
  | registered =>
      exact ⟨_, _, rfl, ⟨rfl, hkernel, hresumed, hplace⟩, fun h => absurd rfl h⟩

theorem Linking.steps (hm : Linking task newWait waits kernel resumed k m)
    (hirq : irq < irqCount) (hne : newWait ≠ 0)
    (hfresh : newWait ∉ waits.map IrqWait.address) (n : Nat) :
    exists k' m', runSteps (irqSetWakeupStep task irq) n (k, m) = .ok (k', m') ∧
      Linking task newWait waits kernel resumed k' m' := by
  refine runSteps_invariant
    (I := Linking task newWait waits kernel resumed) ?_ n hm
  intro k m hm
  rcases hm.step hirq hne hfresh with ⟨k', m', hrun, hm', _⟩
  exact ⟨k', m', hrun, hm'⟩

theorem Linking.ends (hm : Linking task newWait waits kernel resumed k m)
    (hirq : irq < irqCount) (hne : newWait ≠ 0)
    (hfresh : newWait ∉ waits.map IrqWait.address) :
    exists n m', runSteps (irqSetWakeupStep task irq) n (k, m) =
        .ok (.registered, m') ∧
      Linking task newWait waits kernel resumed .registered m' := by
  suffices hend : exists n j m', runSteps (irqSetWakeupStep task irq) n (k, m) =
      .ok (.registered, m') ∧ Linking task newWait waits kernel resumed .registered m' ∧
        j = IrqPoint.registered.left by
    rcases hend with ⟨n, _, m', hrun, hm', _⟩
    exact ⟨n, m', hrun, hm'⟩
  refine runSteps_reaches
    (I := fun j k m => Linking task newWait waits kernel resumed k m ∧ j = k.left) ?_
    ⟨hm, rfl⟩
  rintro _ k m ⟨hm, rfl⟩ hk
  rcases hm.step hirq hne hfresh with ⟨k', m', hrun, hm', hleft⟩
  exact ⟨_, k', m', hrun, ⟨hm', rfl⟩, hleft hk⟩

/-- In front of the last statement the list must be empty for the interrupt. -/
theorem Linking.resume (hm : Linking task newWait waits kernel resumed k m)
    (hk : k ≠ .registered) (hempty : k = .setHead -> waits = [])
    (hfresh : newWait ∉ waits.map IrqWait.address)
    (hrun : resumeTasks waits kernel = .ok kernel') :
    exists m', irqResumeWaitingTasksAt m = .ok m' ∧
      Linking task newWait [] kernel' (resumed ++ waits.map IrqWait.pair) k m' := by
  rcases hm with ⟨rfl, rfl, rfl, hplace⟩
  have hlaid : WaitsLaid m.head m.item waits := by
    cases k with
    | registered => exact absurd rfl hk
    | setHead => exact hplace.1
    | setNull => exact hplace.1
    | setNext => exact hplace.1
    | testList => exact hplace.1
    | setTask => exact hplace
    | checkWait => exact hplace
    | checkIrq => exact hplace
    | setWaitList => exact hplace
  refine ⟨_, irqResumeAt_laid hlaid hrun, rfl, rfl, rfl, ?_⟩
  cases k with
  | registered => exact absurd rfl hk
  | setHead =>
      rcases hplace with ⟨_, hitem⟩
      cases hempty rfl
      refine ⟨waitsLaid_nil, hitem.trans ?_⟩
      exact congrArg (IrqItem.mk task) hlaid.head_zero
  | setNull => exact ⟨waitsLaid_nil, hplace.2.1, rfl⟩
  | setNext => exact ⟨waitsLaid_nil, hplace.2⟩
  | testList => exact ⟨waitsLaid_nil, hplace.2⟩
  | setTask => exact waitsLaid_nil
  | checkWait => exact waitsLaid_nil
  | checkIrq => exact waitsLaid_nil
  | setWaitList => exact waitsLaid_nil

theorem served_of_laid {registrations : List (Word × Word)}
    (hlaid : WaitsLaid m.head m.item waits)
    (hinv : IrqInv registered irq waits m.kernel)
    (hperm : (m.resumed ++ waits.map IrqWait.pair).Perm registrations) :
    ServedOnce irqView irqResumeWaitingTasksAt registrations m := by
  rw [← List.append_nil waits] at hinv
  rcases hinv.resumes with ⟨kernel', hrun, _⟩
  let m' : IrqMemory := { m with
    kernel := kernel', head := 0, resumed := m.resumed ++ waits.map IrqWait.pair }
  refine ⟨1, fun n hn => ⟨m', ?_, hperm⟩⟩
  rcases Nat.exists_eq_add_of_le hn with ⟨d, rfl⟩
  rw [handlerRuns_add, handlerRuns_succ, irqResumeAt_laid hlaid hrun]
  exact handlerRuns_idle (irqResumeAt_idle rfl) d

theorem irqSafe_of_laid {n j : Nat} {m₀ : IrqMemory}
    {registrations : List (Word × Word)}
    (hrun : interrupted (irqSetWakeupStep task irq) irqResumeWaitingTasksAt n j
      (.setWaitList, m₀) = .ok (.registered, m))
    (hlaid : WaitsLaid m.head m.item waits)
    (hinv : IrqInv registered irq waits m.kernel)
    (hfreed : forall w, w ∈ waits -> w.address ∉ m.resumed.map Prod.fst)
    (hperm : (m.resumed ++ waits.map IrqWait.pair).Perm registrations) :
    IrqSafe task irq registrations n m₀ := by
  refine ⟨j, m, hrun, ⟨_, hlaid.path, ?_⟩, served_of_laid hlaid hinv hperm⟩
  intro a ha
  rcases List.mem_map.mp ha with ⟨w, hw, rfl⟩
  exact hfreed w hw

/-- In front of the store to the head, the list that the interrupt has freed stays
behind the new record. -/
theorem not_irqSafe_of_stale {n : Nat} {m₀ : IrqMemory} {w : IrqWait}
    {rest : List IrqWait} {registrations : List (Word × Word)} (hne : newWait ≠ 0)
    (hrun : runSteps (irqSetWakeupStep task irq) n (.setWaitList, m₀) =
      .ok (.setHead, m))
    (hm : Linking task newWait (w :: rest) kernel resumed .setHead m)
    (hresume : resumeTasks (w :: rest) kernel = .ok kernel') :
    ¬ IrqSafe task irq registrations n m₀ := by
  rcases hm with ⟨rfl, rfl, rfl, hlaid, hitem⟩
  rcases waitsLaid_cons.mp hlaid with ⟨hhead, hw, _⟩
  rintro ⟨j, m', hend, ⟨records, hrecords, hfreed⟩, _⟩
  rcases interrupted_ok_iff.mp hend with ⟨k, m₁, m₂, hfirst, hhandler, hrest⟩
  rw [hrun] at hfirst
  cases hfirst
  rw [irqResumeAt_laid hlaid hresume] at hhandler
  cases hhandler
  cases j with
  | zero => cases hrest
  | succ j =>
      rw [runSteps_succ] at hrest
      change runSteps (irqSetWakeupStep task irq) j (.registered, _) = _ at hrest
      rw [runSteps_end fun _ => rfl] at hrest
      cases hrest
      rcases hrecords.exists_rest hne with ⟨behind, rfl, hbehind⟩
      change NextPath _ 0 (m.item m.newWait).next behind at hbehind
      rw [hitem] at hbehind
      change NextPath _ 0 m.head behind at hbehind
      rw [hhead] at hbehind
      rcases hbehind.exists_rest hw with ⟨rest', rfl, _⟩
      refine hfreed w.address (List.mem_cons_of_mem _ List.mem_cons_self) ?_
      refine List.mem_map.mpr ⟨w.pair, ?_, rfl⟩
      exact List.mem_append_right _ List.mem_cons_self

end Registration

theorem irqStart_inv {w : Waits} {irq : Nat} {m : IrqMemory}
    (hw : Reachable WaitsStarted WakeStep w) (hidle : w.Idle) (hirq : irq < irqCount)
    (hstart : IrqStart w.kernel irq m) :
    IrqInv w.register irq
        (⟨m.newWait, w.kernel.currentTask⟩ :: w.kernel.irqEvents irq) m.kernel ∧
      m.newWait ≠ 0 ∧
      m.newWait ∉ (w.kernel.irqEvents irq).map IrqWait.address := by
  rcases wakeRun_inv hw with ⟨hinv, hsystem⟩
  rcases hsystem.owned with ⟨label, howned⟩
  rcases kernel_malloc_eq hstart.malloc with ⟨h, hheap, hkernel⟩
  have hne := malloc_ne_zero howned.owned.heap howned.pool_pos hheap
  have hevents : m.kernel.irqEvents = w.kernel.irqEvents := by
    rw [hkernel]
  have hset : irqSetWakeup w.kernel w.kernel.currentTask irq = .ok (withWaits m.kernel irq
      (⟨m.newWait, w.kernel.currentTask⟩ :: w.kernel.irqEvents irq)) := by
    unfold irqSetWakeup
    rw [hstart.malloc, ok_bind, if_neg (Nat.not_le.mpr hirq), if_neg hne]
    unfold withWaits
    rw [hevents]
  have hcall := hinv.call hsystem (.irqSetWakeup irq hidle) hset
  refine ⟨⟨hcall.2.owned, hcall.1⟩, hne, ?_⟩
  intro hmem
  rcases List.mem_map.mp hmem with ⟨v, hv, hvp⟩
  have hlabel := howned.uses _ _ (Uses.irqWait hv)
  have hnone := (howned.malloc hstart.malloc (o := .irqWait irq) (Nat.zero_le _)).1
  rw [hvp, hnone] at hlabel
  cases hlabel

/-- Wherever the interrupt comes, the registration is safe unless it has read the head
of a list with waits and not yet written it. -/
theorem irq_registers_iff {w : Waits} {irq : Nat} {m : IrqMemory}
    (hw : Reachable WaitsStarted WakeStep w) (hidle : w.Idle) (hirq : irq < irqCount)
    (hstart : IrqStart w.kernel irq m) (n : Nat) :
    exists k m₁, runSteps (irqSetWakeupStep w.kernel.currentTask irq) n
        (.setWaitList, m) = .ok (k, m₁) ∧
      (IrqSafe w.kernel.currentTask irq ((m.newWait, w.kernel.currentTask) ::
          (w.kernel.irqEvents irq).map IrqWait.pair) n m <->
        (k = .setHead -> w.kernel.irqEvents irq = [])) := by
  rcases irqStart_inv hw hidle hirq hstart with ⟨hinv, hne, hfresh⟩
  have hlinking : Linking w.kernel.currentTask m.newWait (w.kernel.irqEvents irq)
      m.kernel [] .setWaitList m := ⟨rfl, rfl, hstart.resumed, hstart.laid⟩
  rcases hlinking.steps hirq hne hfresh n with ⟨k, m₁, hrun, hm₁⟩
  refine ⟨k, m₁, hrun, ?_⟩
  have hbehind : IrqInv w.register irq
      (w.kernel.irqEvents irq ++ [⟨m.newWait, w.kernel.currentTask⟩]) m.kernel :=
    hinv.perm (List.perm_append_singleton _ _).symm
  rcases hbehind.resumes with ⟨kernel', hresume, hinv'⟩
  by_cases hk : k = .registered
  · subst hk
    refine iff_of_true ?_ nofun
    rcases hm₁ with ⟨hnew, hkernel, hresumed, hlaid⟩
    change WaitsLaid m₁.head m₁.item (⟨m₁.newWait, _⟩ :: _) at hlaid
    rw [hnew] at hlaid
    rw [← hkernel, ← List.append_nil (_ :: _)] at hinv
    rcases hinv.resumes with ⟨kernel₂, hresume₂, hinv₂⟩
    have hhandler := irqResumeAt_laid hlaid hresume₂
    refine irqSafe_of_laid
      (m := { m₁ with kernel := kernel₂, head := 0, resumed := _ }) (j := 0)
      (interrupted_ok_iff.mpr ⟨_, _, _, hrun, hhandler, rfl⟩) waitsLaid_nil hinv₂ nofun ?_
    rw [hresumed, List.map_nil, List.append_nil]
    exact List.Perm.refl _
  · by_cases hstale : k = .setHead -> w.kernel.irqEvents irq = []
    · refine iff_of_true ?_ hstale
      rcases hm₁.resume hk hstale hfresh hresume with ⟨m₂, hhandler, hm₂⟩
      rcases hm₂.ends hirq hne List.not_mem_nil with
        ⟨j, m', hend, hnew, hkernel, hresumed, hlaid⟩
      have hpair : m'.resumed = (w.kernel.irqEvents irq).map IrqWait.pair := hresumed
      rw [← hnew, ← hkernel] at hinv'
      refine irqSafe_of_laid (interrupted_ok_iff.mpr ⟨_, _, _, hrun, hhandler, hend⟩)
        hlaid hinv' ?_ ?_
      · intro v hv
        rcases List.mem_singleton.mp hv with rfl
        rw [hpair, hnew, List.map_map]
        exact hfresh
      · rw [hpair, hnew]
        exact List.perm_append_singleton _ _
    · refine iff_of_false ?_ hstale
      rcases not_forall.mp hstale with ⟨rfl, hwaits⟩
      rcases List.exists_cons_of_ne_nil hwaits with ⟨v, rest, hcons⟩
      rw [hcons] at hm₁ hresume
      exact not_irqSafe_of_stale hne hrun hm₁ hresume

end Kernel
end Rmmtos
