import Rmmtos.Kernel.AlarmLoop
import Rmmtos.Kernel.IrqRace

/-!
# A tick while a task registers for it

{lit}`clock_set_wakeup` walks to a place in the queue that {lit}`clock_func`
shortens, with the interrupts on.  Here the queue is in memory, record by record.
-/

namespace Rmmtos
namespace Kernel

open Library Fs

/-!
# The queue in memory
-/

structure AlarmItem where
  delta : Word
  task : Word
  next : Word
deriving DecidableEq, Repr

/-- The queue from {lit}`alarm_queue` on, with the two pointers of the call.  The
records that a tick has woken and freed are kept with their tasks.  The queue of
{lit}`kernel` itself is not used. -/
structure ClockMemory where
  kernel : KernelState
  alarmQueue : Word
  item : Word -> AlarmItem
  alarm : Word
  ptr : Word
  resumed : List (Word × Word)

def ClockMemory.setItem (m : ClockMemory) (x : Word) (item : AlarmItem) :
    ClockMemory :=
  { m with item := Function.update m.item x item }

def moreTicks (x : Word × ClockMemory) : Bool :=
  x.1 != 0 && x.2.alarmQueue != 0

def wakeItem (x : Word × ClockMemory) : Result (Word × ClockMemory) :=
  let m := x.2
  let item := m.item m.alarmQueue
  if item.delta ≤ x.1 then do
    let kernel ← taskWakeup item.task m.kernel
    let kernel ← kernel.free m.alarmQueue
    .ok (x.1 - item.delta, { m with
      kernel := kernel, alarmQueue := item.next
      resumed := m.resumed ++ [(m.alarmQueue, item.task)] })
  else .ok (0, m.setItem m.alarmQueue { item with delta := item.delta - x.1 })

def ClockMemory.count (m : ClockMemory) : ClockMemory :=
  { m with kernel := { m.kernel with clock := m.kernel.clock.count } }

def clockFuncAt (m : ClockMemory) : Result ClockMemory :=
  whileLoop .hang moreTicks wakeItem wordCount (tick, m.count) >>= fun x => .ok x.2

/-- Where {lit}`clock_set_wakeup` is, in front of one of its statements behind the
call of {lit}`malloc`. -/
inductive AlarmPoint where
  | checkAlarm
  | setDelta
  | setTask
  | setNext
  | testQueue
  | setQueue
  | setPtr
  | subtract
  | testLoop
  | testNext
  | setLast
  | reduceNext
  | linkNext
  | linkPtr
  | registered
deriving DecidableEq, Repr

def clockSetWakeupStep (task milliseconds : Word) :
    AlarmPoint -> ClockMemory -> Result (AlarmPoint × ClockMemory)
  | .checkAlarm, m =>
      if m.alarm = 0 then panic .alarmAlloc else .ok (.setDelta, m)
  | .setDelta, m =>
      .ok (.setTask, m.setItem m.alarm { m.item m.alarm with delta := milliseconds })
  | .setTask, m =>
      .ok (.setNext, m.setItem m.alarm { m.item m.alarm with task := task })
  | .setNext, m =>
      .ok (.testQueue, m.setItem m.alarm { m.item m.alarm with next := 0 })
  | .testQueue, m =>
      if m.alarmQueue = 0 then .ok (.setQueue, m) else .ok (.setPtr, m)
  | .setQueue, m => .ok (.registered, { m with alarmQueue := m.alarm })
  | .setPtr, m => .ok (.subtract, { m with ptr := m.alarmQueue })
  | .subtract, m =>
      let item := m.item m.alarm
      .ok (.testLoop, m.setItem m.alarm { item with
        delta := item.delta - (m.item m.ptr).delta })
  | .testLoop, m =>
      let next := (m.item m.ptr).next
      if next ≠ 0 ∧ (m.item next).delta < (m.item m.alarm).delta then
        .ok (.subtract, m)
      else .ok (.testNext, m)
  | .testNext, m =>
      if (m.item m.ptr).next = 0 then .ok (.setLast, m) else .ok (.reduceNext, m)
  | .setLast, m =>
      .ok (.registered, m.setItem m.ptr { m.item m.ptr with next := m.alarm })
  | .reduceNext, m =>
      let next := (m.item m.ptr).next
      .ok (.linkNext, m.setItem next { m.item next with
        delta := (m.item next).delta - (m.item m.alarm).delta })
  | .linkNext, m =>
      .ok (.linkPtr, m.setItem m.alarm { m.item m.alarm with
        next := (m.item m.ptr).next })
  | .linkPtr, m =>
      .ok (.registered, m.setItem m.ptr { m.item m.ptr with next := m.alarm })
  | .registered, m => .ok (.registered, m)

def ClockAlarm.pair {τ : Type} (a : ClockAlarm τ) : Word × τ :=
  (a.address, a.task)

structure AlarmsLaid (head : Word) (item : Word -> AlarmItem)
    (queue : List (ClockAlarm Word)) : Prop where
  path : NextPath (fun x => (item x).next) 0 head (queue.map ClockAlarm.address)
  items : forall a, a ∈ queue ->
    (item a.address).delta = a.delta ∧ (item a.address).task = a.task

def clockView : QueueView ClockMemory Word Word where
  holds m := NextPath (fun x => (m.item x).next) 0 m.alarmQueue
  taken m := m.resumed

structure ClockStart (s : KernelState) (m : ClockMemory) : Prop where
  malloc : s.malloc clockAlarmSize = .ok (m.alarm, m.kernel)
  laid : AlarmsLaid m.alarmQueue m.item s.clock.alarmQueue
  resumed : m.resumed = []

/-- What a tick leaves of a queue. -/
def remaining {τ : Type} : List (ClockAlarm τ) -> Word -> List (ClockAlarm τ)
  | [], _ => []
  | alarm :: rest, tickl =>
      if tickl = 0 then alarm :: rest
      else if alarm.delta ≤ tickl then remaining rest (tickl - alarm.delta)
      else { alarm with delta := alarm.delta - tickl } :: rest

section Laid

variable {head : Word} {item item' : Word -> AlarmItem} {a : ClockAlarm Word}
  {queue : List (ClockAlarm Word)}

theorem alarmsLaid_nil : AlarmsLaid 0 item [] :=
  ⟨.done, fun _ ha => nomatch ha⟩

theorem AlarmsLaid.head_zero (h : AlarmsLaid head item []) : head = 0 := by
  rcases h with ⟨hpath, _⟩
  cases hpath with
  | done => rfl

theorem alarmsLaid_cons : AlarmsLaid head item (a :: queue) <->
    head = a.address ∧ a.address ≠ 0 ∧
      (item a.address).delta = a.delta ∧ (item a.address).task = a.task ∧
      AlarmsLaid (item a.address).next item queue := by
  constructor
  · rintro ⟨hpath, hitems⟩
    rw [List.map_cons] at hpath
    cases hpath with
    | node hne hrest =>
        rcases hitems a List.mem_cons_self with ⟨hdelta, htask⟩
        exact ⟨rfl, hne, hdelta, htask, hrest,
          fun b hb => hitems b (List.mem_cons_of_mem a hb)⟩
  · rintro ⟨rfl, hne, hdelta, htask, hrest⟩
    refine ⟨.node hne hrest.path, fun b hb => ?_⟩
    rcases List.mem_cons.mp hb with rfl | hb
    · exact ⟨hdelta, htask⟩
    · exact hrest.items b hb

theorem AlarmsLaid.congr (h : AlarmsLaid head item queue)
    (hsame : forall x, x ∈ queue.map ClockAlarm.address -> item' x = item x) :
    AlarmsLaid head item' queue := by
  refine ⟨h.path.congr fun x hx => by rw [hsame x hx], fun a ha => ?_⟩
  rw [hsame _ (List.mem_map_of_mem ha)]
  exact h.items a ha

theorem AlarmsLaid.setItem {m : ClockMemory} (h : AlarmsLaid head m.item queue)
    {x : Word} (hfresh : x ∉ queue.map ClockAlarm.address) (item : AlarmItem) :
    AlarmsLaid head (m.setItem x item).item queue := by
  refine h.congr fun y hy => Function.update_of_ne ?_ ..
  rintro rfl
  exact hfresh hy

theorem AlarmsLaid.length_lt (h : AlarmsLaid head item queue) :
    queue.length < wordCount := by
  have hfew := Fs.length_lt_of_nodup h.path.nodup h.path.not_mem
  rw [List.length_map] at hfew
  exact hfew

theorem alarm_setItem_self (m : ClockMemory) (x : Word) (item : AlarmItem) :
    (m.setItem x item).item x = item :=
  Function.update_self ..

theorem alarm_setItem_of_ne (m : ClockMemory) {x y : Word} (hne : y ≠ x)
    (item : AlarmItem) : (m.setItem x item).item y = m.item y :=
  Function.update_of_ne hne ..

theorem setDelta_next (m : ClockMemory) (x y d : Word) :
    ((m.setItem x { m.item x with delta := d }).item y).next = (m.item y).next := by
  by_cases hy : y = x
  · subst hy
    rw [alarm_setItem_self]
  · rw [alarm_setItem_of_ne m hy]

theorem AlarmsLaid.setDelta {m : ClockMemory}
    (h : AlarmsLaid head m.item (a :: queue)) (d : Word) :
    AlarmsLaid head (m.setItem head { m.item head with delta := d }).item
      ({ a with delta := d } :: queue) := by
  have hnodup := h.path.nodup
  rcases alarmsLaid_cons.mp h with ⟨rfl, hne, hdelta, htask, hrest⟩
  rw [alarmsLaid_cons, alarm_setItem_self]
  exact ⟨rfl, hne, rfl, htask, hrest.setItem (List.nodup_cons.mp hnodup).1 _⟩

theorem AlarmsLaid.setBehind {m : ClockMemory} {b : ClockAlarm Word}
    (h : AlarmsLaid head m.item (b :: a :: queue)) (d : Word) :
    AlarmsLaid head (m.setItem a.address { m.item a.address with delta := d }).item
      (b :: { a with delta := d } :: queue) := by
  have hnodup := (List.nodup_cons.mp h.path.nodup).1
  rcases alarmsLaid_cons.mp h with ⟨rfl, hne, hdelta, htask, hrest⟩
  have hother : b.address ≠ a.address := fun heq => hnodup (heq ▸ List.mem_cons_self)
  rw [alarmsLaid_cons, alarm_setItem_of_ne m hother]
  have hnext := (alarmsLaid_cons.mp hrest).1
  rw [hnext] at hrest ⊢
  exact ⟨rfl, hne, hdelta, htask, hrest.setDelta d⟩

end Laid

/-!
# The handler
-/

/-- What a tick does to the memory of a queue: deltas change, and alarms at the head
are woken and freed. -/
structure Ticked (m : ClockMemory) (queue : List (ClockAlarm Word)) (m' : ClockMemory)
    (queue' : List (ClockAlarm Word)) : Prop where
  alarm : m'.alarm = m.alarm
  ptr : m'.ptr = m.ptr
  laid : AlarmsLaid m'.alarmQueue m'.item queue'
  frame : forall x, x ∉ queue.map ClockAlarm.address -> m'.item x = m.item x
  next : forall x, (m'.item x).next = (m.item x).next
  served : m'.resumed ++ queue'.map ClockAlarm.pair =
    m.resumed ++ queue.map ClockAlarm.pair

section Handler

variable {m : ClockMemory} {a : ClockAlarm Word} {queue queue' : List (ClockAlarm Word)}
  {kernel kernel' : KernelState} {tickl : Word}

theorem Ticked.refl (hlaid : AlarmsLaid m.alarmQueue m.item queue) :
    Ticked m queue m queue :=
  ⟨rfl, rfl, hlaid, fun _ _ => rfl, fun _ => rfl, rfl⟩

theorem wakeLoop_laid {n : Nat} (hlaid : AlarmsLaid m.alarmQueue m.item queue)
    (hrun : wakeDue kernelCalls queue tickl m.kernel = .ok (queue', kernel'))
    (hn : queue.length ≤ n) :
    exists x, whileLoop .hang moreTicks wakeItem n (tickl, m) = .ok x ∧
      Ticked m queue x.2 queue' ∧ x.2.kernel = kernel' := by
  induction queue generalizing m tickl n with
  | nil =>
      cases hrun
      refine ⟨_, whileLoop_done n ?_, .refl hlaid, rfl⟩
      unfold moreTicks
      rw [hlaid.head_zero]
      exact Bool.and_false _
  | cons a rest ih =>
      have hnodup := (List.nodup_cons.mp hlaid.path.nodup).1
      rcases alarmsLaid_cons.mp hlaid with ⟨hhead, hne, hdelta, htask, hrest⟩
      unfold wakeDue at hrun
      split at hrun
      · next hzero =>
          cases hrun
          refine ⟨_, whileLoop_done n ?_, .refl hlaid, rfl⟩
          unfold moreTicks
          rw [hzero]
          exact Bool.false_and _
      · next hzero =>
          have hgoes : moreTicks (tickl, m) = true := by
            unfold moreTicks
            rw [hhead]
            exact Bool.and_eq_true_iff.mpr ⟨bne_iff_ne.mpr hzero, bne_iff_ne.mpr hne⟩
          cases n with
          | zero => cases hn
          | succ n =>
              split at hrun
              · next hdue =>
                  rcases ok_bind_iff.mp hrun with ⟨k₁, hwake, hrun⟩
                  rcases ok_bind_iff.mp hrun with ⟨k₂, hfree, hrun⟩
                  let m₁ : ClockMemory := { m with
                    kernel := k₂, alarmQueue := (m.item a.address).next
                    resumed := m.resumed ++ [a.pair] }
                  have hturn : wakeItem (tickl, m) = .ok (tickl - a.delta, m₁) := by
                    unfold wakeItem
                    dsimp only
                    rw [hhead, hdelta, htask, if_pos hdue]
                    exact ok_bind_iff.mpr ⟨k₁, hwake, ok_bind_iff.mpr ⟨k₂, hfree, rfl⟩⟩
                  rcases ih (m := m₁) hrest hrun (Nat.le_of_succ_le_succ hn) with
                    ⟨x, hloop, hticked, hkernel⟩
                  refine ⟨x, ?_, ⟨hticked.alarm, hticked.ptr, hticked.laid, ?_,
                    hticked.next, ?_⟩, hkernel⟩
                  · rw [whileLoop_turn n hgoes hturn]
                    exact hloop
                  · intro y hy
                    exact hticked.frame y fun hmem => hy (List.mem_cons_of_mem _ hmem)
                  · rw [hticked.served]
                    exact List.append_assoc ..
              · next hdue =>
                  cases hrun
                  have hturn : wakeItem (tickl, m) = .ok (0, m.setItem m.alarmQueue
                      { m.item m.alarmQueue with delta := a.delta - tickl }) := by
                    unfold wakeItem
                    dsimp only
                    rw [hhead, hdelta, if_neg hdue]
                  refine ⟨_, (whileLoop_turn n hgoes hturn).trans (whileLoop_done n rfl),
                    ⟨rfl, rfl, hlaid.setDelta _, ?_, ?_, rfl⟩, rfl⟩
                  · intro y hy
                    refine alarm_setItem_of_ne m ?_ _
                    rintro rfl
                    exact hy (hhead ▸ List.mem_cons_self)
                  · exact fun y => setDelta_next m m.alarmQueue y _

theorem TickInv.perm {s : KernelState} {registered : Word -> Bool}
    (hs : TickInv registered queue s)
    (hperm : (queue.map ClockAlarm.pair).Perm (queue'.map ClockAlarm.pair)) :
    TickInv registered queue' s := by
  rcases hs with ⟨⟨label, howned⟩, hs⟩
  have hmem : forall a, a ∈ queue' -> exists b, b ∈ queue ∧ b.pair = a.pair := by
    intro a ha
    exact List.mem_map.mp (hperm.mem_iff.mpr (List.mem_map_of_mem ha))
  have haddress := hperm.map Prod.fst
  rw [List.map_map, List.map_map] at haddress
  refine ⟨⟨label, howned.replaceQueue ?_ fun a ha => ?_⟩,
    hs.less rfl (fun _ => rfl) fun src p hsrc => ?_⟩
  · exact haddress.nodup_iff.mp howned.alarms_nodup
  · rcases hmem a ha with ⟨b, hb, hpair⟩
    have heq : b.address = a.address := congrArg Prod.fst hpair
    rw [← heq]
    exact howned.uses _ _ (Uses.alarm hb)
  · cases src with
    | exit q =>
        rw [fires_exit_iff] at hsrc ⊢
        exact hsrc
    | irqWait n x =>
        rw [fires_irqWait_iff] at hsrc ⊢
        exact hsrc
    | alarm x =>
        rcases fires_alarm_iff.mp hsrc with ⟨a, ha, rfl, rfl⟩
        rcases hmem a ha with ⟨b, hb, hpair⟩
        exact fires_alarm_iff.mpr ⟨b, hb, congrArg Prod.fst hpair,
          congrArg Prod.snd hpair⟩

theorem TickInv.first {s : KernelState} {registered : Word -> Bool}
    (hs : TickInv registered (a :: queue) s) :
    exists s₁ s₂, taskWakeup a.task s = .ok s₁ ∧ s₁.free a.address = .ok s₂ := by
  rcases hs with ⟨⟨label, howned⟩, hs⟩
  rcases hs.dropAlarm howned.alarms_nodup with ⟨_, _, hawaits, _⟩
  rcases taskWakeup_awaits (s := s) hawaits with ⟨s₁, hwake⟩
  have hlabel := howned.uses _ _ (Uses.alarm List.mem_cons_self)
  rcases howned.owned.free hlabel with ⟨h, hfree, _⟩
  refine ⟨s₁, _, hwake, kernel_free_of_heap (h := h) ?_⟩
  rw [(taskWakeup_same hwake).heap]
  exact hfree

theorem TickInv.ticks {s : KernelState} {registered : Word -> Bool}
    {extra : List (ClockAlarm Word)} (hs : TickInv registered (queue ++ extra) s)
    (tickl : Word) :
    exists s', wakeDue kernelCalls queue tickl s = .ok (remaining queue tickl, s') ∧
      TickInv registered (remaining queue tickl ++ extra) s' := by
  induction queue generalizing tickl s with
  | nil => exact ⟨s, rfl, hs⟩
  | cons a rest ih =>
      unfold wakeDue remaining
      split
      · exact ⟨s, rfl, hs⟩
      · split
        · rcases hs.first with ⟨s₁, s₂, hwake, hfree⟩
          rcases ih (hs.wake hwake hfree) (tickl - a.delta) with ⟨s', hrun, hs'⟩
          exact ⟨s', ok_bind_iff.mpr ⟨s₁, hwake, ok_bind_iff.mpr ⟨s₂, hfree, hrun⟩⟩, hs'⟩
        · exact ⟨s, rfl, hs.delta⟩

theorem TickInv.count {s : KernelState} {registered : Word -> Bool}
    (hs : TickInv registered queue s) :
    TickInv registered queue { s with clock := s.clock.count } := by
  rcases hs with ⟨⟨label, howned⟩, hs⟩
  refine ⟨⟨label, howned.same ⟨rfl, rfl, fun _ h => h, fun _ => rfl, fun _ => rfl,
    fun _ => rfl, rfl, rfl, rfl⟩⟩, ?_⟩
  have hsources : SameSources (withQueue s queue)
      (withQueue { s with clock := s.clock.count } queue) :=
    ⟨rfl, fun _ => Iff.rfl, fun _ => rfl, rfl, rfl⟩
  exact hs.less rfl (fun _ => rfl) fun src p => hsources.fires.mp

theorem clockFuncAt_laid {registered : Word -> Bool} {extra : List (ClockAlarm Word)}
    (hlaid : AlarmsLaid m.alarmQueue m.item queue)
    (hinv : TickInv registered (queue ++ extra) m.kernel) :
    exists m', clockFuncAt m = .ok m' ∧ Ticked m queue m' (remaining queue tick) ∧
      TickInv registered (remaining queue tick ++ extra) m'.kernel := by
  rcases hinv.count.ticks tick with ⟨s', hrun, hinv'⟩
  rcases wakeLoop_laid (m := m.count) hlaid hrun (Nat.le_of_lt hlaid.length_lt) with
    ⟨x, hloop, hticked, rfl⟩
  refine ⟨x.2, ?_, ⟨hticked.alarm, hticked.ptr, hticked.laid, hticked.frame, hticked.next,
    hticked.served⟩, hinv'⟩
  unfold clockFuncAt
  rw [hloop]
  rfl

/-- An alarm is woken after at most this many ticks, or it shortens the queue. -/
def weight (queue : List (ClockAlarm Word)) : Nat :=
  (queue.map fun a => a.delta.toNat + 1).sum

theorem weight_cons (a : ClockAlarm Word) (queue : List (ClockAlarm Word)) :
    weight (a :: queue) = a.delta.toNat + 1 + weight queue :=
  List.sum_cons

theorem weight_remaining_le (queue : List (ClockAlarm Word)) (tickl : Word) :
    weight (remaining queue tickl) ≤ weight queue := by
  induction queue generalizing tickl with
  | nil => exact Nat.le_refl _
  | cons a rest ih =>
      unfold remaining
      split
      · exact Nat.le_refl _
      · split
        · rw [weight_cons]
          exact Nat.le_add_left_of_le (ih _)
        · next hdue =>
            rw [weight_cons, weight_cons]
            have hless : (a.delta - tickl).toNat ≤ a.delta.toNat := by
              rw [BitVec.toNat_sub_of_le (BitVec.le_of_lt (BitVec.not_le.mp hdue))]
              exact Nat.sub_le _ _
            exact Nat.add_le_add_right (Nat.succ_le_succ hless) _

/-- Every tick lowers the weight of the queue. -/
theorem weight_remaining_lt (hne : queue ≠ []) (hpos : tickl ≠ 0) :
    weight (remaining queue tickl) < weight queue := by
  cases queue with
  | nil => exact absurd rfl hne
  | cons a rest =>
      unfold remaining
      rw [if_neg hpos]
      split
      · rw [weight_cons]
        have hrest := weight_remaining_le rest (tickl - a.delta)
        omega
      · next hdue =>
          rw [weight_cons, weight_cons]
          have hlt := BitVec.not_le.mp hdue
          have hless : (a.delta - tickl).toNat < a.delta.toNat := by
            rw [BitVec.toNat_sub_of_le (BitVec.le_of_lt hlt)]
            exact Nat.sub_lt (Nat.zero_lt_of_lt (BitVec.lt_def.mp hlt))
              (Nat.pos_of_ne_zero fun h => hpos (BitVec.eq_of_toNat_eq h))
          exact Nat.add_lt_add_right (Nat.succ_lt_succ hless) _

/-- Any number of ticks keeps account of every registration. -/
theorem handlerRuns_laid {registered : Word -> Bool} (n : Nat)
    (hlaid : AlarmsLaid m.alarmQueue m.item queue)
    (hinv : TickInv registered queue m.kernel) :
    exists m' queue', handlerRuns clockFuncAt n m = .ok m' ∧
      m'.resumed ++ queue'.map ClockAlarm.pair =
        m.resumed ++ queue.map ClockAlarm.pair ∧
      weight queue' ≤ weight queue - n := by
  induction n generalizing m queue with
  | zero => exact ⟨m, queue, rfl, rfl, Nat.le_refl _⟩
  | succ n ih =>
      rw [← List.append_nil queue] at hinv
      rcases clockFuncAt_laid hlaid hinv with ⟨m₁, hfirst, hticked, hinv₁⟩
      rw [List.append_nil] at hinv₁
      rcases ih hticked.laid hinv₁ with ⟨m', queue', hrest, hserved, hweight⟩
      refine ⟨m', queue', ?_, hserved.trans hticked.served, ?_⟩
      · rw [handlerRuns_succ, hfirst]
        exact hrest
      · cases queue with
        | nil =>
            change _ ≤ 0 - n at hweight
            rw [Nat.zero_sub] at hweight
            exact Nat.le_trans hweight (Nat.zero_le _)
        | cons a rest =>
            have hlt : weight (remaining (a :: rest) tick) < weight (a :: rest) :=
              weight_remaining_lt (List.cons_ne_nil a rest) (by decide)
            omega

theorem clock_served_of_laid {registered : Word -> Bool}
    {registrations : List (Word × Word)}
    (hlaid : AlarmsLaid m.alarmQueue m.item queue)
    (hinv : TickInv registered queue m.kernel)
    (hperm : (m.resumed ++ queue.map ClockAlarm.pair).Perm registrations) :
    ServedOnce clockView clockFuncAt registrations m := by
  refine ⟨weight queue, fun n hn => ?_⟩
  rcases handlerRuns_laid n hlaid hinv with ⟨m', queue', hrun, hserved, hweight⟩
  refine ⟨m', hrun, ?_⟩
  cases queue' with
  | nil =>
      rw [List.map_nil, List.append_nil] at hserved
      change m'.resumed.Perm registrations
      rw [hserved]
      exact hperm
  | cons a rest =>
      rw [weight_cons] at hweight
      omega

end Handler

/-!
# The registration
-/

/-- The call has come to the head of the queue and has not linked its record. -/
structure AtHead (task : Word) (queue : List (ClockAlarm Word)) (m : ClockMemory) :
    Prop where
  queued : queue ≠ []
  ptr : m.ptr = m.alarmQueue
  task : (m.item m.alarm).task = task
  last : (m.item m.alarm).next = 0

/-- What holds of the new record and of the pointers at each point. -/
def AlarmPlace (ms task : Word) (queue : List (ClockAlarm Word)) (m : ClockMemory) :
    AlarmPoint -> Prop
  | .checkAlarm => True
  | .setDelta => True
  | .setTask => (m.item m.alarm).delta = ms
  | .setNext => (m.item m.alarm).delta = ms ∧ (m.item m.alarm).task = task
  | .testQueue => m.item m.alarm = ⟨ms, task, 0⟩
  | .setQueue => m.item m.alarm = ⟨ms, task, 0⟩ ∧ queue = []
  | .setPtr => m.item m.alarm = ⟨ms, task, 0⟩ ∧ queue ≠ []
  | .subtract => AtHead task queue m
  | .testLoop => AtHead task queue m
  | .testNext => AtHead task queue m
  | .setLast => AtHead task queue m ∧ queue.tail = []
  | .reduceNext => AtHead task queue m ∧ queue.tail ≠ []
  | .linkNext => AtHead task queue m ∧ queue.tail ≠ []
  | .linkPtr => queue ≠ [] ∧ m.ptr = m.alarmQueue ∧ (m.item m.alarm).task = task ∧
      (m.item m.alarm).next = (m.item m.ptr).next
  | .registered => True

/-- The memory in the middle of a registration, with the alarms that are queued and
those that were queued when it began. -/
structure Placing (ms task new : Word) (kernel : KernelState)
    (resumed pairs : List (Word × Word)) (queue : List (ClockAlarm Word))
    (k : AlarmPoint) (m : ClockMemory) : Prop where
  alarm : m.alarm = new
  kernel : m.kernel = kernel
  resumed : m.resumed = resumed
  laid : AlarmsLaid m.alarmQueue m.item queue
  unlinked : k ≠ .registered -> queue.map ClockAlarm.pair = pairs
  linked : k = .registered ->
    (queue.map ClockAlarm.pair).Perm ((new, task) :: pairs)
  place : AlarmPlace ms task queue m k

/-- After this many subtractions the loop is over. -/
def OverAfter (queue : List (ClockAlarm Word)) (d : Word) (turns : Nat) : Prop :=
  match queue with
  | head :: behind :: _ => Reaches head behind d turns
  | _ => True

def TurnsLeft (ms : Word) (queue : List (ClockAlarm Word)) (m : ClockMemory)
    (turns : Nat) : AlarmPoint -> Prop
  | .checkAlarm | .setDelta | .setTask | .setNext | .testQueue | .setQueue
  | .setPtr => OverAfter queue ms (turns + 1)
  | .subtract => OverAfter queue (m.item m.alarm).delta (turns + 1)
  | .testLoop => OverAfter queue (m.item m.alarm).delta turns
  | .testNext | .setLast | .reduceNext | .linkNext | .linkPtr | .registered => True

def AlarmPoint.left (turns : Nat) : AlarmPoint -> Nat
  | .checkAlarm => 2 * turns + 12
  | .setDelta => 2 * turns + 11
  | .setTask => 2 * turns + 10
  | .setNext => 2 * turns + 9
  | .testQueue => 2 * turns + 8
  | .setQueue => 1
  | .setPtr => 2 * turns + 7
  | .subtract => 2 * turns + 6
  | .testLoop => 2 * turns + 5
  | .testNext => 4
  | .setLast => 1
  | .reduceNext => 3
  | .linkNext => 2
  | .linkPtr => 1
  | .registered => 0

/-- A statement comes nearer to the end when the loop comes to its end, and it does
not make a loop end that would not. -/
structure Nearer (ms : Word) (queue : List (ClockAlarm Word)) (k : AlarmPoint)
    (m : ClockMemory) (queue' : List (ClockAlarm Word)) (k' : AlarmPoint)
    (m' : ClockMemory) : Prop where
  forward : k ≠ .registered -> forall turns, TurnsLeft ms queue m turns k ->
    exists turns', TurnsLeft ms queue' m' turns' k' ∧ k'.left turns' < k.left turns
  backward : forall turns, TurnsLeft ms queue' m' turns k' ->
    exists turns', TurnsLeft ms queue m turns' k

section Registration

variable {ms task new d : Word} {kernel : KernelState}
  {resumed pairs : List (Word × Word)} {a head : ClockAlarm Word}
  {queue queue' rest : List (ClockAlarm Word)} {k k' : AlarmPoint} {m m' : ClockMemory}
  {turns : Nat}

theorem overAfter_succ : OverAfter (head :: rest) d (turns + 1) <->
    OverAfter (head :: rest) (d - head.delta) turns := by
  cases rest with
  | nil => exact Iff.rfl
  | cons behind tail =>
      unfold OverAfter Reaches
      dsimp only
      have hstep : d - BitVec.ofNat 16 (turns + 1) * head.delta =
          d - head.delta - BitVec.ofNat 16 turns * head.delta := by
        rw [BitVec.ofNat_add turns 1, BitVec.add_mul, BitVec.one_mul]
        generalize BitVec.ofNat 16 turns * head.delta = taken
        bv_omega
      rw [hstep]

theorem ends_of_overAfter (hover : OverAfter queue d turns) : Ends queue d := by
  match queue with
  | [] => trivial
  | [_] => trivial
  | head :: behind :: tail => exact Nat.le_trans (mod_gcd_le d head.delta turns) hover

theorem overAfter_of_ends (hends : Ends queue d) :
    exists turns, OverAfter queue d (turns + 1) := by
  match queue with
  | [] => exact ⟨0, trivial⟩
  | [_] => exact ⟨0, trivial⟩
  | head :: behind :: tail =>
      rcases (endsWithin_iff_ends _ d).mpr hends with ⟨k, hfirst, _, hreach⟩
      cases k with
      | zero => cases hfirst
      | succ k => exact ⟨k, hreach⟩

theorem Nearer.same
    (hturns : forall turns, TurnsLeft ms queue m turns k <->
      TurnsLeft ms queue' m' turns k')
    (hleft : forall turns, k'.left turns < k.left turns) :
    Nearer ms queue k m queue' k' m' :=
  ⟨fun _ turns h => ⟨turns, (hturns turns).mp h, hleft turns⟩,
    fun turns h => ⟨turns, (hturns turns).mpr h⟩⟩

theorem Placing.move (hm : Placing ms task new kernel resumed pairs queue k m)
    (hk : k ≠ .registered) (hk' : k' ≠ .registered)
    (hplace : AlarmPlace ms task queue m k') :
    Placing ms task new kernel resumed pairs queue k' m :=
  ⟨hm.alarm, hm.kernel, hm.resumed, hm.laid, fun _ => hm.unlinked hk,
    fun h => absurd h hk', hplace⟩

theorem Placing.fresh (hm : Placing ms task new kernel resumed pairs queue k m)
    (hk : k ≠ .registered) (hfresh : new ∉ pairs.map Prod.fst) :
    m.alarm ∉ queue.map ClockAlarm.address := by
  rw [hm.alarm]
  rw [← hm.unlinked hk, List.map_map] at hfresh
  exact hfresh

theorem Placing.setItem (hm : Placing ms task new kernel resumed pairs queue k m)
    (k' : AlarmPoint) (hk : k ≠ .registered) (hk' : k' ≠ .registered)
    (hfresh : new ∉ pairs.map Prod.fst) (item : AlarmItem)
    (hplace : AlarmPlace ms task queue (m.setItem m.alarm item) k') :
    Placing ms task new kernel resumed pairs queue k' (m.setItem m.alarm item) :=
  ⟨hm.alarm, hm.kernel, hm.resumed, hm.laid.setItem (hm.fresh hk hfresh) item,
    fun _ => hm.unlinked hk, fun h => absurd h hk', hplace⟩

theorem AlarmsLaid.link (hlaid : AlarmsLaid m.alarmQueue m.item (head :: rest))
    (hptr : m.ptr = m.alarmQueue) (hne : m.alarm ≠ 0)
    (hfresh : m.alarm ∉ (head :: rest).map ClockAlarm.address)
    (hnext : (m.item m.alarm).next = (m.item m.ptr).next) :
    AlarmsLaid m.alarmQueue (m.setItem m.ptr { m.item m.ptr with next := m.alarm }).item
      (head :: ⟨m.alarm, (m.item m.alarm).delta, (m.item m.alarm).task⟩ :: rest) := by
  have hnodup := (List.nodup_cons.mp hlaid.path.nodup).1
  rcases alarmsLaid_cons.mp hlaid with ⟨hhead, hzero, hdelta, htask, hrest⟩
  have hother : m.alarm ≠ head.address := fun heq => hfresh (heq ▸ List.mem_cons_self)
  rw [hptr, hhead] at hnext ⊢
  rw [alarmsLaid_cons, alarm_setItem_self]
  refine ⟨rfl, hzero, hdelta, htask, ?_⟩
  rw [alarmsLaid_cons, alarm_setItem_of_ne m hother]
  refine ⟨rfl, hne, rfl, rfl, ?_⟩
  rw [hnext]
  exact hrest.setItem hnodup _

/-- What a statement does in the middle of a registration. -/
def StepsOn (ms task new : Word) (kernel : KernelState)
    (resumed pairs : List (Word × Word)) (queue : List (ClockAlarm Word))
    (k : AlarmPoint) (m : ClockMemory) : Prop :=
  exists queue' k' m', clockSetWakeupStep task ms k m = .ok (k', m') ∧
    Placing ms task new kernel resumed pairs queue' k' m' ∧
    Nearer ms queue k m queue' k' m'

theorem Placing.stepQueue
    (hm : Placing ms task new kernel resumed pairs queue .testQueue m) :
    StepsOn ms task new kernel resumed pairs queue .testQueue m := by
  by_cases hempty : m.alarmQueue = 0
  · have hnil : queue = [] := by
      have hpath := hm.laid.path
      rw [hempty] at hpath
      exact List.map_eq_nil_iff.mp (hpath.unique .done)
    refine ⟨queue, .setQueue, m, if_pos hempty, hm.move nofun nofun ⟨hm.place, hnil⟩,
      .same (fun _ => Iff.rfl) ?_⟩
    exact fun turns => Nat.succ_lt_succ (Nat.succ_pos _)
  · have hsome : queue ≠ [] := by
      rintro rfl
      exact hempty hm.laid.head_zero
    refine ⟨queue, .setPtr, m, if_neg hempty, hm.move nofun nofun ⟨hm.place, hsome⟩,
      .same (fun _ => Iff.rfl) ?_⟩
    exact fun turns => Nat.lt_succ_self _

theorem Placing.stepEmpty
    (hm : Placing ms task new kernel resumed pairs queue .setQueue m) (hne : new ≠ 0) :
    StepsOn ms task new kernel resumed pairs queue .setQueue m := by
  rcases hm with ⟨rfl, hkernel, hresumed, hlaid, hpairs, _, hitem, rfl⟩
  refine ⟨[⟨m.alarm, ms, task⟩], .registered, { m with alarmQueue := m.alarm }, rfl,
    ⟨rfl, hkernel, hresumed, alarmsLaid_cons.mpr ⟨rfl, hne, ?_, ?_, ?_⟩, nofun, ?_,
      trivial⟩, fun _ turns _ => ⟨0, trivial, Nat.one_pos⟩, fun turns _ => ⟨0, trivial⟩⟩
  · exact congrArg AlarmItem.delta hitem
  · exact congrArg AlarmItem.task hitem
  · change AlarmsLaid (m.item m.alarm).next m.item []
    rw [hitem]
    exact alarmsLaid_nil
  · intro _
    rw [← hpairs nofun]
    exact List.Perm.refl _

theorem Placing.stepPtr
    (hm : Placing ms task new kernel resumed pairs queue .setPtr m) :
    StepsOn ms task new kernel resumed pairs queue .setPtr m := by
  rcases hm with ⟨halarm, hkernel, hresumed, hlaid, hpairs, _, hitem, hsome⟩
  refine ⟨queue, .subtract, { m with ptr := m.alarmQueue }, rfl,
    ⟨halarm, hkernel, hresumed, hlaid, fun _ => hpairs nofun, nofun, hsome, rfl, ?_, ?_⟩,
    .same (fun turns => ?_) fun turns => Nat.lt_succ_self _⟩
  · exact congrArg AlarmItem.task hitem
  · exact congrArg AlarmItem.next hitem
  · change _ <-> OverAfter queue (m.item m.alarm).delta (turns + 1)
    rw [hitem]
    exact Iff.rfl

theorem AtHead.setDelta (h : AtHead task queue m) (d : Word) :
    AtHead task queue (m.setItem m.alarm { m.item m.alarm with delta := d }) :=
  ⟨h.queued, h.ptr, (congrArg AlarmItem.task (alarm_setItem_self m _ _)).trans h.task,
    (congrArg AlarmItem.next (alarm_setItem_self m _ _)).trans h.last⟩

theorem Placing.stepSubtract
    (hm : Placing ms task new kernel resumed pairs queue .subtract m)
    (hfresh : new ∉ pairs.map Prod.fst) :
    StepsOn ms task new kernel resumed pairs queue .subtract m := by
  have hplace : AtHead task queue m := hm.place
  let d := (m.item m.alarm).delta - (m.item m.ptr).delta
  let m' := m.setItem m.alarm { m.item m.alarm with delta := d }
  have hitem : (m'.item m'.alarm).delta = d :=
    congrArg AlarmItem.delta (alarm_setItem_self m _ _)
  refine ⟨queue, .testLoop, m', rfl,
    hm.setItem .testLoop nofun nofun hfresh _ (hplace.setDelta d),
    .same (fun turns => ?_) fun turns => Nat.lt_succ_self _⟩
  rcases List.exists_cons_of_ne_nil hplace.queued with ⟨head, rest, rfl⟩
  rcases alarmsLaid_cons.mp hm.laid with ⟨hhead, _, hdelta, _⟩
  change OverAfter _ (m.item m.alarm).delta (turns + 1) <->
    OverAfter _ (m'.item m'.alarm).delta turns
  have hptr : m.ptr = head.address := hplace.ptr.trans hhead
  rw [hitem, overAfter_succ, ← hdelta, ← hptr]

theorem Placing.test_iff (hlaid : AlarmsLaid m.alarmQueue m.item (head :: rest))
    (hptr : m.ptr = m.alarmQueue) (d : Word) :
    ((m.item m.ptr).next ≠ 0 ∧ (m.item (m.item m.ptr).next).delta < d) <->
      ¬ OverAfter (head :: rest) d 0 := by
  rcases alarmsLaid_cons.mp hlaid with ⟨hhead, _, _, _, hrest⟩
  rw [hptr, hhead]
  cases rest with
  | nil =>
      rw [hrest.head_zero]
      exact iff_of_false (fun h => h.1 rfl) fun h => h trivial
  | cons behind tail =>
      rcases alarmsLaid_cons.mp hrest with ⟨hnext, hne, hdelta, _⟩
      rw [hnext, hdelta]
      unfold OverAfter Reaches
      dsimp only
      rw [BitVec.zero_mul, BitVec.sub_zero, BitVec.not_le]
      exact and_iff_right hne

theorem Placing.stepLoop
    (hm : Placing ms task new kernel resumed pairs queue .testLoop m) :
    StepsOn ms task new kernel resumed pairs queue .testLoop m := by
  have hplace : AtHead task queue m := hm.place
  rcases List.exists_cons_of_ne_nil hplace.queued with ⟨head, rest, rfl⟩
  have htest := test_iff hm.laid hplace.ptr (m.item m.alarm).delta
  by_cases hover : OverAfter (head :: rest) (m.item m.alarm).delta 0
  · refine ⟨head :: rest, .testNext, m, if_neg fun h => htest.mp h hover,
      hm.move nofun nofun hplace, fun _ turns _ => ⟨0, trivial, ?_⟩, fun _ _ => ⟨0, hover⟩⟩
    exact Nat.lt_of_lt_of_le (Nat.lt_succ_self 4) (Nat.le_add_left 5 _)
  · refine ⟨head :: rest, .subtract, m, if_pos (htest.mpr hover),
      hm.move nofun nofun hplace, fun _ turns hturns => ?_,
      fun turns hturns => ⟨turns + 1, hturns⟩⟩
    cases turns with
    | zero => exact absurd hturns hover
    | succ turns => exact ⟨turns, hturns, Nat.lt_succ_self _⟩

theorem Placing.stepNext
    (hm : Placing ms task new kernel resumed pairs queue .testNext m) :
    StepsOn ms task new kernel resumed pairs queue .testNext m := by
  have hplace : AtHead task queue m := hm.place
  rcases List.exists_cons_of_ne_nil hplace.queued with ⟨head, rest, rfl⟩
  rcases alarmsLaid_cons.mp hm.laid with ⟨hhead, _, _, _, hrest⟩
  have hptr : m.ptr = head.address := hplace.ptr.trans hhead
  rw [← hptr] at hrest
  by_cases hlast : (m.item m.ptr).next = 0
  · have hnil : rest = [] := by
      have hpath := hrest.path
      rw [hlast] at hpath
      exact List.map_eq_nil_iff.mp (hpath.unique .done)
    refine ⟨head :: rest, .setLast, m, if_pos hlast,
      hm.move nofun nofun ⟨hplace, hnil⟩, .same (fun _ => Iff.rfl) fun _ => ?_⟩
    exact Nat.succ_lt_succ (Nat.succ_pos 2)
  · have hsome : rest ≠ [] := by
      rintro rfl
      exact hlast hrest.head_zero
    exact ⟨head :: rest, .reduceNext, m, if_neg hlast,
      hm.move nofun nofun ⟨hplace, hsome⟩,
      .same (fun _ => Iff.rfl) fun _ => Nat.lt_succ_self 3⟩

theorem Placing.stepReduce
    (hm : Placing ms task new kernel resumed pairs queue .reduceNext m)
    (hfresh : new ∉ pairs.map Prod.fst) :
    StepsOn ms task new kernel resumed pairs queue .reduceNext m := by
  rcases hm.place with ⟨hplace, htail⟩
  have hother := hm.fresh nofun hfresh
  rcases List.exists_cons_of_ne_nil hplace.queued with ⟨head, rest, rfl⟩
  rcases List.exists_cons_of_ne_nil htail with ⟨behind, tail, hrest⟩
  cases hrest
  have hnodup := hm.laid.path.nodup
  rcases alarmsLaid_cons.mp hm.laid with ⟨hhead, hne, hdelta, htask, hrest⟩
  have hptr : m.ptr = head.address := hplace.ptr.trans hhead
  have hnext : (m.item m.ptr).next = behind.address := by
    rw [hptr]
    exact (alarmsLaid_cons.mp hrest).1
  let d := behind.delta - (m.item m.alarm).delta
  let m' := m.setItem behind.address { m.item behind.address with delta := d }
  have hrun : clockSetWakeupStep task ms .reduceNext m = .ok (.linkNext, m') := by
    unfold clockSetWakeupStep
    dsimp only
    rw [hnext, (alarmsLaid_cons.mp hrest).2.2.1]
  have hlaid : AlarmsLaid m'.alarmQueue m'.item
      (head :: { behind with delta := d } :: tail) := hm.laid.setBehind d
  have hitem : m'.item m'.alarm = m.item m.alarm := by
    refine alarm_setItem_of_ne m (fun heq => hother ?_) _
    exact heq ▸ List.mem_cons_of_mem _ List.mem_cons_self
  refine ⟨_, .linkNext, m', hrun, ⟨hm.alarm, hm.kernel, hm.resumed, hlaid,
    fun _ => hm.unlinked nofun, nofun, ⟨List.cons_ne_nil _ _, hplace.ptr, ?_, ?_⟩,
    List.cons_ne_nil _ _⟩, .same (fun _ => Iff.rfl) fun _ => Nat.lt_succ_self 2⟩
  · rw [hitem]
    exact hplace.task
  · rw [hitem]
    exact hplace.last

theorem Placing.stepLinkNext
    (hm : Placing ms task new kernel resumed pairs queue .linkNext m)
    (hfresh : new ∉ pairs.map Prod.fst) :
    StepsOn ms task new kernel resumed pairs queue .linkNext m := by
  have hother := hm.fresh nofun hfresh
  rcases hm.place with ⟨hplace, _⟩
  let m' := m.setItem m.alarm { m.item m.alarm with next := (m.item m.ptr).next }
  have hptr : m.ptr ≠ m.alarm := by
    rcases List.exists_cons_of_ne_nil hplace.queued with ⟨head, rest, rfl⟩
    rw [hplace.ptr, (alarmsLaid_cons.mp hm.laid).1]
    exact fun heq => hother (heq ▸ List.mem_cons_self)
  refine ⟨queue, .linkPtr, m', rfl, hm.setItem .linkPtr nofun nofun hfresh _
    ⟨hplace.queued, hplace.ptr, ?_, ?_⟩, .same (fun _ => Iff.rfl) fun _ => Nat.lt_succ_self 1⟩
  · exact (congrArg AlarmItem.task (alarm_setItem_self m _ _)).trans hplace.task
  · refine (congrArg AlarmItem.next (alarm_setItem_self m _ _)).trans ?_
    exact (congrArg AlarmItem.next (alarm_setItem_of_ne m hptr _)).symm

theorem Placing.stepLink
    (hm : Placing ms task new kernel resumed pairs queue k m)
    (hk : k = .setLast ∨ k = .linkPtr) (hne : new ≠ 0)
    (hfresh : new ∉ pairs.map Prod.fst) :
    StepsOn ms task new kernel resumed pairs queue k m := by
  have hk' : k ≠ .registered := by
    rintro rfl
    rcases hk with hk | hk <;> cases hk
  have hother := hm.fresh hk' hfresh
  have hplace : queue ≠ [] ∧ m.ptr = m.alarmQueue ∧ (m.item m.alarm).task = task ∧
      (m.item m.alarm).next = (m.item m.ptr).next := by
    rcases hk with rfl | rfl
    · rcases hm.place with ⟨hhead, hlast⟩
      refine ⟨hhead.queued, hhead.ptr, hhead.task, hhead.last.trans ?_⟩
      rcases List.exists_cons_of_ne_nil hhead.queued with ⟨head, rest, rfl⟩
      cases (show rest = [] from hlast)
      rcases alarmsLaid_cons.mp hm.laid with ⟨hfirst, _, _, _, hrest⟩
      rw [hhead.ptr, hfirst]
      exact hrest.head_zero.symm
    · exact hm.place
  rcases hplace with ⟨hsome, hptr, htask, hnext⟩
  rcases List.exists_cons_of_ne_nil hsome with ⟨head, rest, rfl⟩
  have hlaid := hm.laid.link hptr (hm.alarm ▸ hne) hother hnext
  have hpairs := hm.unlinked hk'
  refine ⟨head :: ⟨m.alarm, (m.item m.alarm).delta, (m.item m.alarm).task⟩ :: rest,
    .registered, m.setItem m.ptr { m.item m.ptr with next := m.alarm }, ?_,
    ⟨hm.alarm, hm.kernel, hm.resumed, hlaid, nofun, fun _ => ?_, trivial⟩,
    fun _ turns _ => ⟨0, trivial, ?_⟩, fun turns _ => ⟨0, ?_⟩⟩
  · rcases hk with rfl | rfl <;> rfl
  · rw [← hpairs, ← htask, ← hm.alarm]
    exact List.Perm.swap _ _ _
  · rcases hk with rfl | rfl <;> exact Nat.one_pos
  · rcases hk with rfl | rfl <;> trivial

/-- Every statement leads from one point of the registration to another. -/
theorem Placing.step (hm : Placing ms task new kernel resumed pairs queue k m)
    (hne : new ≠ 0) (hfresh : new ∉ pairs.map Prod.fst) :
    StepsOn ms task new kernel resumed pairs queue k m := by
  have hnew : m.alarm ≠ 0 := hm.alarm ▸ hne
  cases k with
  | checkAlarm =>
      exact ⟨queue, .setDelta, m, if_neg hnew, hm.move nofun nofun trivial,
        .same (fun _ => Iff.rfl) fun _ => Nat.lt_succ_self _⟩
  | setDelta =>
      refine ⟨queue, .setTask, _, rfl, hm.setItem .setTask nofun nofun hfresh _ ?_,
        .same (fun _ => Iff.rfl) fun _ => Nat.lt_succ_self _⟩
      exact congrArg AlarmItem.delta (alarm_setItem_self m _ _)
  | setTask =>
      refine ⟨queue, .setNext, _, rfl, hm.setItem .setNext nofun nofun hfresh _ ⟨?_, ?_⟩,
        .same (fun _ => Iff.rfl) fun _ => Nat.lt_succ_self _⟩
      · exact (congrArg AlarmItem.delta (alarm_setItem_self m _ _)).trans hm.place
      · exact congrArg AlarmItem.task (alarm_setItem_self m _ _)
  | setNext =>
      rcases hm.place with ⟨hdelta, htask⟩
      refine ⟨queue, .testQueue, _, rfl, hm.setItem .testQueue nofun nofun hfresh _ ?_,
        .same (fun _ => Iff.rfl) fun _ => Nat.lt_succ_self _⟩
      refine (alarm_setItem_self m _ _).trans ?_
      change AlarmItem.mk (m.item m.alarm).delta (m.item m.alarm).task 0 = ⟨ms, task, 0⟩
      rw [hdelta, htask]
  | testQueue => exact hm.stepQueue
  | setQueue => exact hm.stepEmpty hne
  | setPtr => exact hm.stepPtr
  | subtract => exact hm.stepSubtract hfresh
  | testLoop => exact hm.stepLoop
  | testNext => exact hm.stepNext
  | setLast => exact hm.stepLink (.inl rfl) hne hfresh
  | reduceNext => exact hm.stepReduce hfresh
  | linkNext => exact hm.stepLinkNext hfresh
  | linkPtr => exact hm.stepLink (.inr rfl) hne hfresh
  | registered =>
      exact ⟨queue, .registered, m, rfl, hm, fun h => absurd rfl h,
        fun turns _ => ⟨turns, trivial⟩⟩

theorem Placing.steps (hm : Placing ms task new kernel resumed pairs queue k m)
    (hne : new ≠ 0) (hfresh : new ∉ pairs.map Prod.fst) (n : Nat) :
    exists k' m', runSteps (clockSetWakeupStep task ms) n (k, m) = .ok (k', m') ∧
      exists queue', Placing ms task new kernel resumed pairs queue' k' m' := by
  refine runSteps_invariant
    (I := fun k m => exists queue, Placing ms task new kernel resumed pairs queue k m) ?_ n
    ⟨queue, hm⟩
  rintro k m ⟨queue, hm⟩
  rcases hm.step hne hfresh with ⟨queue', k', m', hrun, hm', _⟩
  exact ⟨k', m', hrun, queue', hm'⟩

/-- The call comes to its end when its loop does. -/
theorem Placing.ends (hm : Placing ms task new kernel resumed pairs queue k m)
    (hne : new ≠ 0) (hfresh : new ∉ pairs.map Prod.fst)
    (hturns : TurnsLeft ms queue m turns k) :
    exists n m' queue', runSteps (clockSetWakeupStep task ms) n (k, m) =
        .ok (.registered, m') ∧
      Placing ms task new kernel resumed pairs queue' .registered m' := by
  have hstep : forall j k m, (exists queue turns,
      Placing ms task new kernel resumed pairs queue k m ∧
        TurnsLeft ms queue m turns k ∧ j = k.left turns) -> k ≠ .registered ->
      exists j' k' m', clockSetWakeupStep task ms k m = .ok (k', m') ∧
        (exists queue turns, Placing ms task new kernel resumed pairs queue k' m' ∧
          TurnsLeft ms queue m' turns k' ∧ j' = k'.left turns) ∧ j' < j := by
    rintro _ k m ⟨queue, turns, hm, hturns, rfl⟩ hk
    rcases hm.step hne hfresh with ⟨queue', k', m', hrun, hm', hnearer⟩
    rcases hnearer.forward hk turns hturns with ⟨turns', hturns', hleft⟩
    exact ⟨_, k', m', hrun, ⟨queue', turns', hm', hturns', rfl⟩, hleft⟩
  rcases runSteps_reaches hstep ⟨queue, turns, hm, hturns, rfl⟩ with
    ⟨n, _, m', hrun, queue', _, hm', _⟩
  exact ⟨n, m', queue', hrun, hm'⟩

theorem Placing.never (hm : Placing ms task new kernel resumed pairs queue k m)
    (hne : new ≠ 0) (hfresh : new ∉ pairs.map Prod.fst)
    (hturns : forall turns, ¬ TurnsLeft ms queue m turns k) (n : Nat) :
    runSteps (clockSetWakeupStep task ms) n (k, m) ≠ .ok (.registered, m') := by
  intro hend
  have hkeeps : exists k' m', runSteps (clockSetWakeupStep task ms) n (k, m) =
      .ok (k', m') ∧ exists queue, Placing ms task new kernel resumed pairs queue k' m' ∧
        forall turns, ¬ TurnsLeft ms queue m' turns k' := by
    refine runSteps_invariant (I := fun k m => exists queue,
      Placing ms task new kernel resumed pairs queue k m ∧
        forall turns, ¬ TurnsLeft ms queue m turns k) ?_ n ⟨queue, hm, hturns⟩
    rintro k m ⟨queue, hm, hturns⟩
    rcases hm.step hne hfresh with ⟨queue', k', m', hrun, hm', hnearer⟩
    refine ⟨k', m', hrun, queue', hm', fun turns hleft => ?_⟩
    rcases hnearer.backward turns hleft with ⟨turns', hback⟩
    exact hturns turns' hback
  rcases hkeeps with ⟨k', m', hrun, queue', _, hnever⟩
  rw [hrun] at hend
  cases hend
  exact hnever 0 trivial

end Registration

/-!
# The tick in the middle
-/

/-- The call has read {lit}`alarm_queue` and uses what it has read. -/
def AlarmPoint.holdsPtr : AlarmPoint -> Bool
  | .subtract | .testLoop | .testNext | .setLast | .reduceNext | .linkNext
  | .linkPtr => true
  | _ => false

/-- The tick leaves the alarm that the call has read, or will read, in the queue. -/
structure PtrKept (queue : List (ClockAlarm Word)) (k : AlarmPoint) : Prop where
  queued : k = .setPtr -> remaining queue tick ≠ []
  head : k.holdsPtr = true -> forall a, queue.head? = some a -> tick < a.delta

def LoopEnds (ms : Word) (queue : List (ClockAlarm Word)) (m : ClockMemory) :
    AlarmPoint -> Prop
  | .checkAlarm | .setDelta | .setTask | .setNext | .testQueue | .setQueue
  | .setPtr => Ends queue ms
  | .subtract | .testLoop => Ends queue (m.item m.alarm).delta
  | .testNext | .setLast | .reduceNext | .linkNext | .linkPtr | .registered => True

section Middle

variable {ms task new : Word} {kernel : KernelState}
  {resumed pairs : List (Word × Word)} {head : ClockAlarm Word}
  {queue extra rest : List (ClockAlarm Word)} {k : AlarmPoint} {m m' : ClockMemory}
  {registered : Word -> Bool}

theorem ends_iff_turns {d : Word} :
    Ends queue d <-> exists turns, OverAfter queue d (turns + 1) :=
  ⟨overAfter_of_ends, fun ⟨_, hover⟩ => ends_of_overAfter hover⟩

theorem loopEnds_iff :
    LoopEnds ms queue m k <-> exists turns, TurnsLeft ms queue m turns k := by
  cases k with
  | checkAlarm => exact ends_iff_turns
  | setDelta => exact ends_iff_turns
  | setTask => exact ends_iff_turns
  | setNext => exact ends_iff_turns
  | testQueue => exact ends_iff_turns
  | setQueue => exact ends_iff_turns
  | setPtr => exact ends_iff_turns
  | subtract => exact ends_iff_turns
  | testLoop =>
      constructor
      · intro hends
        rcases overAfter_of_ends hends with ⟨turns, hover⟩
        exact ⟨turns + 1, hover⟩
      · rintro ⟨turns, hover⟩
        exact ends_of_overAfter hover
  | testNext => exact iff_of_true trivial ⟨0, trivial⟩
  | setLast => exact iff_of_true trivial ⟨0, trivial⟩
  | reduceNext => exact iff_of_true trivial ⟨0, trivial⟩
  | linkNext => exact iff_of_true trivial ⟨0, trivial⟩
  | linkPtr => exact iff_of_true trivial ⟨0, trivial⟩
  | registered => exact iff_of_true trivial ⟨0, trivial⟩

theorem loopEnds_congr (hitem : m'.item m'.alarm = m.item m.alarm)
    (hends : LoopEnds ms queue m k) : LoopEnds ms queue m' k := by
  cases k with
  | subtract =>
      change Ends queue (m'.item m'.alarm).delta
      rw [hitem]
      exact hends
  | testLoop =>
      change Ends queue (m'.item m'.alarm).delta
      rw [hitem]
      exact hends
  | _ => exact hends

theorem remaining_mem {x tickl : Word}
    (hx : x ∈ (remaining queue tickl).map ClockAlarm.address) :
    x ∈ queue.map ClockAlarm.address := by
  induction queue generalizing tickl with
  | nil => exact hx
  | cons a rest ih =>
      unfold remaining at hx
      split at hx
      · exact hx
      · split at hx
        · exact List.mem_cons_of_mem _ (ih hx)
        · exact hx

theorem remaining_stays (hstays : tick < head.delta) :
    remaining (head :: rest) tick =
      { head with delta := head.delta - tick } :: rest := by
  unfold remaining
  rw [if_neg (by decide), if_neg (BitVec.not_le.mpr hstays)]

theorem Ticked.ptr_head (ht : Ticked m queue m' (remaining queue tick))
    (hlaid : AlarmsLaid m.alarmQueue m.item queue) (hsome : queue ≠ [])
    (hstays : forall a, queue.head? = some a -> tick < a.delta)
    (hptr : m.ptr = m.alarmQueue) :
    remaining queue tick ≠ [] ∧ (remaining queue tick).tail = queue.tail ∧
      m'.ptr = m'.alarmQueue := by
  rcases List.exists_cons_of_ne_nil hsome with ⟨head, rest, rfl⟩
  have hlaid' := ht.laid
  rw [remaining_stays (hstays head rfl)] at hlaid' ⊢
  refine ⟨List.cons_ne_nil _ _, rfl, ?_⟩
  rw [ht.ptr, hptr, (alarmsLaid_cons.mp hlaid).1, (alarmsLaid_cons.mp hlaid').1]

theorem AtHead.ticked (h : AtHead task queue m)
    (ht : Ticked m queue m' (remaining queue tick))
    (hlaid : AlarmsLaid m.alarmQueue m.item queue)
    (hstays : forall a, queue.head? = some a -> tick < a.delta)
    (hitem : m'.item m'.alarm = m.item m.alarm) :
    AtHead task (remaining queue tick) m' ∧
      (remaining queue tick).tail = queue.tail := by
  rcases ht.ptr_head hlaid h.queued hstays h.ptr with ⟨hsome, htail, hptr⟩
  refine ⟨⟨hsome, hptr, ?_, ?_⟩, htail⟩
  · rw [hitem]
    exact h.task
  · rw [hitem]
    exact h.last

theorem Placing.ticked (hm : Placing ms task new kernel resumed pairs queue k m)
    (hk : k ≠ .registered) (hkept : PtrKept queue k) (hfresh : new ∉ pairs.map Prod.fst)
    (hinv : TickInv registered (queue ++ extra) kernel) :
    exists m' pairs', clockFuncAt m = .ok m' ∧
      Placing ms task new m'.kernel m'.resumed pairs' (remaining queue tick) k m' ∧
      m'.resumed ++ pairs' = resumed ++ pairs ∧
      TickInv registered (remaining queue tick ++ extra) m'.kernel ∧
      m'.item m'.alarm = m.item m.alarm := by
  have hother := hm.fresh hk hfresh
  rcases hm with ⟨rfl, rfl, rfl, hlaid, hpairs, _, hplace⟩
  rcases clockFuncAt_laid hlaid hinv with ⟨m', hrun, ht, hinv'⟩
  have hitem : m'.item m'.alarm = m.item m.alarm := by
    rw [ht.alarm]
    exact ht.frame m.alarm hother
  refine ⟨m', _, hrun, ⟨ht.alarm, rfl, rfl, ht.laid, fun _ => rfl, fun h => absurd h hk, ?_⟩,
    ?_, hinv', hitem⟩
  · have hstays := hkept.head
    cases k with
    | checkAlarm => trivial
    | setDelta => trivial
    | setTask => exact (congrArg AlarmItem.delta hitem).trans hplace
    | setNext =>
        exact ⟨(congrArg AlarmItem.delta hitem).trans hplace.1,
          (congrArg AlarmItem.task hitem).trans hplace.2⟩
    | testQueue => exact hitem.trans hplace
    | setQueue =>
        rcases hplace with ⟨hplace, rfl⟩
        exact ⟨hitem.trans hplace, rfl⟩
    | setPtr => exact ⟨hitem.trans hplace.1, hkept.queued rfl⟩
    | subtract => exact (AtHead.ticked hplace ht hlaid (hstays rfl) hitem).1
    | testLoop => exact (AtHead.ticked hplace ht hlaid (hstays rfl) hitem).1
    | testNext => exact (AtHead.ticked hplace ht hlaid (hstays rfl) hitem).1
    | setLast =>
        rcases AtHead.ticked hplace.1 ht hlaid (hstays rfl) hitem with ⟨hhead, htail⟩
        exact ⟨hhead, htail.trans hplace.2⟩
    | reduceNext =>
        rcases AtHead.ticked hplace.1 ht hlaid (hstays rfl) hitem with ⟨hhead, htail⟩
        exact ⟨hhead, htail ▸ hplace.2⟩
    | linkNext =>
        rcases AtHead.ticked hplace.1 ht hlaid (hstays rfl) hitem with ⟨hhead, htail⟩
        exact ⟨hhead, htail ▸ hplace.2⟩
    | linkPtr =>
        rcases hplace with ⟨hsome, hptr, htask, hnext⟩
        rcases ht.ptr_head hlaid hsome (hstays rfl) hptr with ⟨hsome', _, hptr'⟩
        refine ⟨hsome', hptr', (congrArg AlarmItem.task hitem).trans htask, ?_⟩
        rw [hitem, hnext, ht.next, ht.ptr]
    | registered => exact absurd rfl hk
  · rw [← hpairs hk]
    exact ht.served

end Middle

/-!
# A record that no queue holds

When the tick frees the alarm that the call has read, the call goes on in memory that
is no longer in the queue.
-/

structure Unqueued (new : Word) (records : List Word) (m : ClockMemory) : Prop where
  path : NextPath (fun x => (m.item x).next) 0 m.alarmQueue records
  absent : new ∉ records
  unserved : new ∉ m.resumed.map Prod.fst

structure Missed (new : Word) (records : List Word) (k : AlarmPoint) (m : ClockMemory) :
    Prop where
  alarm : m.alarm = new
  unqueued : Unqueued new records m
  place : k = .setPtr ∧ records = [] ∨ k.holdsPtr = true ∧ m.ptr ∉ records ∨
    k = .registered

section Missed

variable {ms task new x : Word} {records : List Word} {k : AlarmPoint}
  {m m' : ClockMemory}

theorem Unqueued.setItem (h : Unqueued new records m) (hx : x ∉ records)
    (item : AlarmItem) : Unqueued new records (m.setItem x item) := by
  refine ⟨h.path.congr fun y hy => ?_, h.absent, h.unserved⟩
  have hother : y ≠ x := by
    rintro rfl
    exact hx hy
  rw [alarm_setItem_of_ne m hother]

theorem Unqueued.setDelta (h : Unqueued new records m) (x d : Word) :
    Unqueued new records (m.setItem x { m.item x with delta := d }) :=
  ⟨h.path.congr fun y _ => setDelta_next m x y d, h.absent, h.unserved⟩

theorem Missed.step (h : Missed new records k m) (task ms : Word) :
    exists k' m', clockSetWakeupStep task ms k m = .ok (k', m') ∧
      Missed new records k' m' := by
  rcases h with ⟨rfl, hunqueued, ⟨rfl, rfl⟩ | ⟨hk, hptr⟩ | rfl⟩
  · exact ⟨.subtract, { m with ptr := m.alarmQueue }, rfl, rfl,
      ⟨hunqueued.path, hunqueued.absent, hunqueued.unserved⟩,
      .inr (.inl ⟨rfl, List.not_mem_nil⟩)⟩
  · cases k with
    | subtract =>
        exact ⟨_, _, rfl, rfl, hunqueued.setDelta _ _, .inr (.inl ⟨rfl, hptr⟩)⟩
    | testLoop =>
        by_cases hgoes : (m.item m.ptr).next ≠ 0 ∧
            (m.item (m.item m.ptr).next).delta < (m.item m.alarm).delta
        · exact ⟨_, _, if_pos hgoes, rfl, hunqueued, .inr (.inl ⟨rfl, hptr⟩)⟩
        · exact ⟨_, _, if_neg hgoes, rfl, hunqueued, .inr (.inl ⟨rfl, hptr⟩)⟩
    | testNext =>
        by_cases hlast : (m.item m.ptr).next = 0
        · exact ⟨_, _, if_pos hlast, rfl, hunqueued, .inr (.inl ⟨rfl, hptr⟩)⟩
        · exact ⟨_, _, if_neg hlast, rfl, hunqueued, .inr (.inl ⟨rfl, hptr⟩)⟩
    | setLast => exact ⟨_, _, rfl, rfl, hunqueued.setItem hptr _, .inr (.inr rfl)⟩
    | reduceNext =>
        exact ⟨_, _, rfl, rfl, hunqueued.setDelta _ _, .inr (.inl ⟨rfl, hptr⟩)⟩
    | linkNext =>
        exact ⟨_, _, rfl, rfl, hunqueued.setItem hunqueued.absent _,
          .inr (.inl ⟨rfl, hptr⟩)⟩
    | linkPtr => exact ⟨_, _, rfl, rfl, hunqueued.setItem hptr _, .inr (.inr rfl)⟩
    | checkAlarm => cases hk
    | setDelta => cases hk
    | setTask => cases hk
    | setNext => cases hk
    | testQueue => cases hk
    | setQueue => cases hk
    | setPtr => cases hk
    | registered => cases hk
  · exact ⟨_, _, rfl, rfl, hunqueued, .inr (.inr rfl)⟩

theorem Unqueued.ticked (h : exists records, Unqueued new records m)
    (hrun : clockFuncAt m = .ok m') : exists records, Unqueued new records m' := by
  rcases ok_bind_iff.mp hrun with ⟨x, hloop, hx⟩
  cases hx
  refine (whileLoop_invariant
    (I := fun x => exists records, Unqueued new records x.2) ?_ hloop ?_).1
  · rintro ⟨tickl, m⟩ x ⟨records, hpath, habsent, hunserved⟩ hgoes hturn
    unfold wakeItem at hturn
    dsimp only at hturn
    split at hturn
    · rcases ok_bind_iff.mp hturn with ⟨k₁, _, hturn⟩
      rcases ok_bind_iff.mp hturn with ⟨k₂, _, hturn⟩
      cases hturn
      have hqueue : m.alarmQueue ≠ 0 := bne_iff_ne.mp (Bool.and_eq_true_iff.mp hgoes).2
      rcases hpath.exists_rest hqueue with ⟨rest, rfl, hrest⟩
      refine ⟨rest, hrest, fun hmem => habsent (List.mem_cons_of_mem _ hmem), ?_⟩
      rw [List.map_append]
      intro hmem
      rcases List.mem_append.mp hmem with hmem | hmem
      · exact hunserved hmem
      · rcases List.mem_singleton.mp hmem with rfl
        exact habsent List.mem_cons_self
    · cases hturn
      exact ⟨records, Unqueued.setDelta ⟨hpath, habsent, hunserved⟩ _ _⟩
  · rcases h with ⟨records, hpath, habsent, hunserved⟩
    exact ⟨records, hpath, habsent, hunserved⟩

/-- A record that no queue holds is never served. -/
theorem Missed.not_served (h : Missed new records .registered m) {task : Word}
    {registrations : List (Word × Word)} (hmem : (new, task) ∈ registrations) :
    ¬ ServedOnce clockView clockFuncAt registrations m := by
  rintro ⟨n, hserved⟩
  rcases hserved n (Nat.le_refl n) with ⟨m', hruns, hperm⟩
  have hend := handlerRuns_invariant
    (I := fun m => exists records, Unqueued new records m)
    (fun s s' hs hrun => Unqueued.ticked hs hrun) hruns ⟨records, h.unqueued⟩
  rcases hend with ⟨_, hunqueued⟩
  exact hunqueued.unserved (List.mem_map_of_mem (f := Prod.fst) (hperm.mem_iff.mpr hmem))

end Missed

/-!
# Every point
-/

/-- The tick behind the first {lit}`n` statements does no harm to the registration,
nor to the others. -/
def ClockSafe (task ms : Word) (registrations : List (Word × Word)) (n : Nat)
    (m : ClockMemory) : Prop :=
  RegistersSafely clockView (clockSetWakeupStep task ms) clockFuncAt .registered
    registrations n (.checkAlarm, m)

section Points

variable {ms task new : Word} {kernel : KernelState}
  {resumed pairs : List (Word × Word)} {head : ClockAlarm Word}
  {queue extra : List (ClockAlarm Word)} {k : AlarmPoint} {m m₀ : ClockMemory}
  {registered : Word -> Bool} {n : Nat}

theorem clockSafe_of_laid {j : Nat} {registrations : List (Word × Word)}
    (registered : Word -> Bool)
    (hrun : interrupted (clockSetWakeupStep task ms) clockFuncAt n j (.checkAlarm, m₀) =
      .ok (.registered, m))
    (hlaid : AlarmsLaid m.alarmQueue m.item queue)
    (hinv : TickInv registered queue m.kernel)
    (hperm : (m.resumed ++ queue.map ClockAlarm.pair).Perm registrations)
    (hnodup : (registrations.map Prod.fst).Nodup) :
    ClockSafe task ms registrations n m₀ := by
  refine ⟨j, m, hrun, ⟨_, hlaid.path, ?_⟩, clock_served_of_laid hlaid hinv hperm⟩
  rw [← (hperm.map Prod.fst).nodup_iff, List.map_append, List.map_map] at hnodup
  exact fun a ha hfreed => (List.disjoint_of_nodup_append hnodup) hfreed ha

theorem Placing.safe_registered
    (hm : Placing ms task new kernel [] pairs queue .registered m)
    (hrun : runSteps (clockSetWakeupStep task ms) n (.checkAlarm, m₀) =
      .ok (.registered, m))
    (hinv : TickInv registered queue kernel)
    (hnodup : (((new, task) :: pairs).map Prod.fst).Nodup) :
    ClockSafe task ms ((new, task) :: pairs) n m₀ := by
  rcases hm with ⟨_, rfl, hresumed, hlaid, _, hlinked, _⟩
  rw [← List.append_nil queue] at hinv
  rcases clockFuncAt_laid hlaid hinv with ⟨m', hhandler, ht, hinv'⟩
  rw [List.append_nil] at hinv'
  refine clockSafe_of_laid _ (j := 0) (interrupted_ok_iff.mpr ⟨_, _, _, hrun, hhandler, rfl⟩)
    ht.laid hinv' ?_ hnodup
  rw [ht.served, hresumed, List.nil_append]
  exact hlinked rfl

/-- The tick comes in the middle, and the call comes to its end. -/
theorem Placing.safe_middle (hm : Placing ms task new kernel [] pairs queue k m)
    (hk : k ≠ .registered) (hne : new ≠ 0)
    (hrun : runSteps (clockSetWakeupStep task ms) n (.checkAlarm, m₀) = .ok (k, m))
    (hinv : TickInv registered (queue ++ [⟨new, 0, task⟩]) kernel)
    (hnodup : (((new, task) :: pairs).map Prod.fst).Nodup)
    (hkept : PtrKept queue k) (hends : LoopEnds ms (remaining queue tick) m k) :
    ClockSafe task ms ((new, task) :: pairs) n m₀ := by
  have hfresh : new ∉ pairs.map Prod.fst := (List.nodup_cons.mp hnodup).1
  rcases hm.ticked hk hkept hfresh hinv with ⟨m', pairs', hhandler, hm', hserved, hinv', hitem⟩
  rw [List.nil_append] at hserved
  have hfresh' : new ∉ pairs'.map Prod.fst := by
    rw [← hserved, List.map_append] at hfresh
    exact fun hmem => hfresh (List.mem_append_right _ hmem)
  rcases loopEnds_iff.mp (loopEnds_congr hitem hends) with ⟨turns, hturns⟩
  rcases hm'.ends hne hfresh' hturns with ⟨j, m₂, queue', hend, hm₂⟩
  refine clockSafe_of_laid registered (interrupted_ok_iff.mpr ⟨_, _, _, hrun, hhandler, hend⟩)
    hm₂.laid ?_ ?_ hnodup
  · rw [hm₂.kernel]
    refine hinv'.perm ?_
    rw [List.map_append, hm'.unlinked hk]
    exact (List.perm_append_singleton _ _).trans (hm₂.linked rfl).symm
  · rw [hm₂.resumed, ← hserved]
    exact ((hm₂.linked rfl).append_left _).trans List.perm_middle

theorem Placing.ptr_eq (hm : Placing ms task new kernel resumed pairs queue k m)
    (hk : k.holdsPtr = true) : queue ≠ [] ∧ m.ptr = m.alarmQueue := by
  have hplace := hm.place
  cases k with
  | subtract => exact ⟨AtHead.queued hplace, AtHead.ptr hplace⟩
  | testLoop => exact ⟨AtHead.queued hplace, AtHead.ptr hplace⟩
  | testNext => exact ⟨AtHead.queued hplace, AtHead.ptr hplace⟩
  | setLast => exact ⟨AtHead.queued hplace.1, AtHead.ptr hplace.1⟩
  | reduceNext => exact ⟨AtHead.queued hplace.1, AtHead.ptr hplace.1⟩
  | linkNext => exact ⟨AtHead.queued hplace.1, AtHead.ptr hplace.1⟩
  | linkPtr => exact ⟨hplace.1, hplace.2.1⟩
  | checkAlarm => cases hk
  | setDelta => cases hk
  | setTask => cases hk
  | setNext => cases hk
  | testQueue => cases hk
  | setQueue => cases hk
  | setPtr => cases hk
  | registered => cases hk

theorem Placing.missed (hm : Placing ms task new kernel [] pairs queue k m)
    (hk : k ≠ .registered) (hfresh : new ∉ pairs.map Prod.fst)
    (hinv : TickInv registered (queue ++ extra) kernel) (hlost : ¬ PtrKept queue k) :
    exists m' records, clockFuncAt m = .ok m' ∧ Missed new records k m' := by
  have hptr := hm.ptr_eq
  rcases hm with ⟨rfl, rfl, hresumed, hlaid, hpairs, _, _⟩
  rcases clockFuncAt_laid hlaid hinv with ⟨m', hhandler, ht, _⟩
  have hserved := ht.served
  rw [hresumed, List.nil_append, hpairs hk] at hserved
  rw [← hserved, List.map_append, List.map_map, List.mem_append, not_or] at hfresh
  refine ⟨m', _, hhandler, ht.alarm, ⟨ht.laid.path, hfresh.2, hfresh.1⟩, ?_⟩
  by_cases hempty : k = .setPtr ∧ remaining queue tick = []
  · exact .inl ⟨hempty.1, congrArg (List.map ClockAlarm.address) hempty.2⟩
  · have hhead : exists a, k.holdsPtr = true ∧ queue.head? = some a ∧
        a.delta ≤ tick := by
      by_contra hnone
      refine hlost ⟨fun hk hnil => hempty ⟨hk, hnil⟩, fun hholds a ha => ?_⟩
      exact BitVec.not_le.mp fun hdue => hnone ⟨a, hholds, ha, hdue⟩
    rcases hhead with ⟨a, hholds, ha, hdue⟩
    refine .inr (.inl ⟨hholds, ?_⟩)
    rcases List.head?_eq_some_iff.mp ha with ⟨rest, rfl⟩
    rw [ht.ptr, (hptr hholds).2, (alarmsLaid_cons.mp hlaid).1]
    intro hmem
    unfold remaining at hmem
    rw [if_neg (by decide), if_pos hdue] at hmem
    exact (List.nodup_cons.mp hlaid.path.nodup).1 (remaining_mem hmem)

/-- The call writes to an alarm that has been freed. -/
theorem Placing.unsafe_missed (hm : Placing ms task new kernel [] pairs queue k m)
    (hk : k ≠ .registered)
    (hrun : runSteps (clockSetWakeupStep task ms) n (.checkAlarm, m₀) = .ok (k, m))
    (hinv : TickInv registered (queue ++ extra) kernel)
    (hfresh : new ∉ pairs.map Prod.fst) (hlost : ¬ PtrKept queue k) :
    ¬ ClockSafe task ms ((new, task) :: pairs) n m₀ := by
  rcases hm.missed hk hfresh hinv hlost with ⟨m', records, hhandler, hmissed⟩
  rintro ⟨j, m₂, hend, _, hserved⟩
  rcases interrupted_ok_iff.mp hend with ⟨k₁, s₁, s₂, hfirst, hsecond, hrest⟩
  rw [hrun] at hfirst
  cases hfirst
  rw [hhandler] at hsecond
  cases hsecond
  rcases runSteps_invariant (I := Missed new records)
    (fun k m h => h.step task ms) j hmissed with ⟨k', m₃, hrest', hmissed'⟩
  rw [hrest] at hrest'
  cases hrest'
  exact hmissed'.not_served List.mem_cons_self hserved

/-- The loop of the call goes on for ever. -/
theorem Placing.unsafe_hang (hm : Placing ms task new kernel [] pairs queue k m)
    (hk : k ≠ .registered) (hne : new ≠ 0)
    (hrun : runSteps (clockSetWakeupStep task ms) n (.checkAlarm, m₀) = .ok (k, m))
    (hinv : TickInv registered (queue ++ extra) kernel)
    (hfresh : new ∉ pairs.map Prod.fst) (hkept : PtrKept queue k)
    (hends : ¬ LoopEnds ms (remaining queue tick) m k)
    {registrations : List (Word × Word)} :
    ¬ ClockSafe task ms registrations n m₀ := by
  rcases hm.ticked hk hkept hfresh hinv with ⟨m', pairs', hhandler, hm', hserved, _, hitem⟩
  rw [List.nil_append] at hserved
  have hfresh' : new ∉ pairs'.map Prod.fst := by
    rw [← hserved, List.map_append] at hfresh
    exact fun hmem => hfresh (List.mem_append_right _ hmem)
  rintro ⟨j, m₂, hend, _⟩
  rcases interrupted_ok_iff.mp hend with ⟨k₁, s₁, s₂, hfirst, hsecond, hrest⟩
  rw [hrun] at hfirst
  cases hfirst
  rw [hhandler] at hsecond
  cases hsecond
  refine hm'.never hne hfresh' (fun turns hturns => hends ?_) j hrest
  exact loopEnds_congr hitem.symm (loopEnds_iff.mpr ⟨turns, hturns⟩)

end Points

theorem ends_zero (queue : List (ClockAlarm Word)) : Ends queue 0 := by
  match queue with
  | [] => trivial
  | [_] => trivial
  | head :: behind :: tail =>
      change 0 % _ ≤ behind.delta.toNat
      rw [Nat.zero_mod]
      exact Nat.zero_le _

theorem clockStart_inv {w : Waits} {m : ClockMemory}
    (hw : Reachable WaitsStarted WakeStep w) (hidle : w.Idle)
    (hstart : ClockStart w.kernel m) :
    TickInv w.register
        (⟨m.alarm, 0, w.kernel.currentTask⟩ :: w.kernel.clock.alarmQueue) m.kernel ∧
      m.alarm ≠ 0 := by
  rcases wakeRun_inv hw with ⟨hinv, hsystem⟩
  rcases hsystem.owned with ⟨label, howned⟩
  rcases kernel_malloc_eq hstart.malloc with ⟨h, hheap, hkernel⟩
  have hne := malloc_ne_zero howned.owned.heap howned.pool_pos hheap
  have hclock : m.kernel.clock = w.kernel.clock := by
    rw [hkernel]
  -- for no milliseconds the loop of the call is over, whatever the queue
  have hinsert : exists queue, insertAlarm ⟨m.alarm, 0, w.kernel.currentTask⟩
      w.kernel.clock.alarmQueue = .ok queue := by
    rw [insertAlarm_within, insertAlarmWithin_iff _ _ fun _ => Nat.succ_pos _]
    exact (endsWithin_iff_ends _ _).mpr (ends_zero _)
  rcases hinsert with ⟨queue, hinsert⟩
  have hset : w.kernel.setWakeup w.kernel.currentTask 0 = .ok (withQueue m.kernel queue) := by
    unfold withQueue
    rw [hclock]
    refine ok_bind_iff.mpr ⟨({ w.kernel.clock with alarmQueue := queue }, m.kernel), ?_, rfl⟩
    refine ok_bind_iff.mpr ⟨(m.alarm, m.kernel), hstart.malloc, ?_⟩
    exact (if_neg hne).trans (ok_bind_iff.mpr ⟨queue, hinsert, rfl⟩)
  have hcall := hinv.call hsystem (.setWakeup 0 hidle) hset
  have htick : TickInv w.register queue m.kernel := ⟨hcall.2.owned, hcall.1⟩
  exact ⟨htick.perm (insertAlarm_perm hinsert), hne⟩

/-- Wherever the tick comes, the registration is safe exactly when the tick leaves the
alarm that the call has read in the queue and the loop of the call is over with the
deltas that the tick leaves. -/
theorem clock_registers_iff {w : Waits} {m : ClockMemory}
    (hw : Reachable WaitsStarted WakeStep w) (hidle : w.Idle)
    (hstart : ClockStart w.kernel m) (ms : Word) (n : Nat) :
    exists k m₁ queue, runSteps (clockSetWakeupStep w.kernel.currentTask ms) n
        (.checkAlarm, m) = .ok (k, m₁) ∧
      AlarmsLaid m₁.alarmQueue m₁.item queue ∧
      (ClockSafe w.kernel.currentTask ms ((m.alarm, w.kernel.currentTask) ::
          w.kernel.clock.alarmQueue.map ClockAlarm.pair) n m <->
        PtrKept queue k ∧ LoopEnds ms (remaining queue tick) m₁ k) := by
  rcases clockStart_inv hw hidle hstart with ⟨hinv, hne⟩
  have hnodup : (((m.alarm, w.kernel.currentTask) ::
      w.kernel.clock.alarmQueue.map ClockAlarm.pair).map Prod.fst).Nodup := by
    rcases hinv.1 with ⟨label, howned⟩
    have haddresses := howned.alarms_nodup
    rw [List.map_cons, List.map_map]
    exact haddresses
  have hfresh := (List.nodup_cons.mp hnodup).1
  have hplacing : Placing ms w.kernel.currentTask m.alarm m.kernel []
      (w.kernel.clock.alarmQueue.map ClockAlarm.pair) w.kernel.clock.alarmQueue
      .checkAlarm m :=
    ⟨rfl, rfl, hstart.resumed, hstart.laid, fun _ => rfl, nofun, trivial⟩
  rcases hplacing.steps hne hfresh n with ⟨k, m₁, hrun, queue, hm₁⟩
  refine ⟨k, m₁, queue, hrun, hm₁.laid, ?_⟩
  by_cases hk : k = .registered
  · subst hk
    refine iff_of_true (hm₁.safe_registered hrun (hinv.perm ?_) hnodup)
      ⟨⟨nofun, nofun⟩, trivial⟩
    exact (hm₁.linked rfl).symm
  · have hbehind : TickInv w.register (queue ++ [⟨m.alarm, 0, w.kernel.currentTask⟩])
        m.kernel := by
      refine hinv.perm ?_
      rw [List.map_append, hm₁.unlinked hk]
      exact (List.perm_append_singleton _ _).symm
    by_cases hkept : PtrKept queue k
    · by_cases hends : LoopEnds ms (remaining queue tick) m₁ k
      · exact iff_of_true (hm₁.safe_middle hk hne hrun hbehind hnodup hkept hends)
          ⟨hkept, hends⟩
      · exact iff_of_false
          (hm₁.unsafe_hang hk hne hrun hbehind hfresh hkept hends) fun h => hends h.2
    · exact iff_of_false (hm₁.unsafe_missed hk hrun hbehind hfresh hkept)
        fun h => hkept h.1

end Kernel
end Rmmtos
