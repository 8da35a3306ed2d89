import Rmmtos.Kernel.Clock

/-!
# Timer accuracy

The deadline of an alarm in the queue is the sum of the deltas up to it.  A new
alarm that belongs right behind the head of the queue gets the deadline asked
for, and a tick wakes exactly the alarms whose deadline it reaches, unless two
of them share a deadline that the tick reaches exactly.
-/

namespace Rmmtos
namespace Kernel

open Library

section Deadlines

variable {τ σ : Type}

/-- The alarms with the milliseconds left to them, when {lit}`t` have been
counted before. -/
def alarmsFrom (t : Nat) : List (ClockAlarm τ) -> List (Nat × τ)
  | [] => []
  | a :: rest => (t + a.delta.toNat, a.task) ::
      alarmsFrom (t + a.delta.toNat) rest

def deadlines (queue : List (ClockAlarm τ)) : List Nat :=
  (alarmsFrom 0 queue).map Prod.fst

theorem alarmsFrom_add (t u : Nat) (queue : List (ClockAlarm τ)) :
    alarmsFrom (t + u) queue =
      (alarmsFrom u queue).map (fun a => (t + a.1, a.2)) := by
  induction queue generalizing u with
  | nil => rfl
  | cons a rest ih =>
      have hassoc : t + u + a.delta.toNat = t + (u + a.delta.toNat) := by omega
      rw [alarmsFrom, alarmsFrom, List.map_cons, hassoc, ih]

theorem le_alarmsFrom {t : Nat} {queue : List (ClockAlarm τ)} {a : Nat × τ}
    (ha : a ∈ alarmsFrom t queue) : t ≤ a.1 := by
  induction queue generalizing t with
  | nil => cases ha
  | cons b rest ih =>
      rcases List.mem_cons.mp ha with rfl | ha
      · exact Nat.le_add_right _ _
      · have hrest := ih ha
        omega

/-!
# Setting an alarm
-/

/-- The new alarm belongs right behind the head, and it does not share a
deadline that a tick reaches exactly. -/
structure InPlace (queue : List (ClockAlarm τ)) (ms : Word) : Prop where
  behindHead : match queue with
    | [] => True
    | [head] => head.delta ≤ ms
    | head :: behind :: _ => head.delta ≤ ms ∧
        ms.toNat ≤ head.delta.toNat + behind.delta.toNat
  noTie : 0 < ms.toNat -> ms.toNat % tick.toNat = 0 ->
    ms.toNat ∉ deadlines queue

theorem insertAlarm_inPlace {queue : List (ClockAlarm τ)} {ms : Word}
    (address : Word) (task : τ) (hplace : InPlace queue ms) :
    exists queue', insertAlarm ⟨address, ms, task⟩ queue = .ok queue' ∧
      (alarmsFrom 0 queue').Perm ((ms.toNat, task) :: alarmsFrom 0 queue) := by
  have hbehind := hplace.behindHead
  match queue with
  | [] =>
      refine ⟨_, rfl, ?_⟩
      simp only [alarmsFrom, Nat.zero_add]
      exact List.Perm.refl _
  | [head] =>
      have hle : head.delta.toNat ≤ ms.toNat := hbehind
      have hsum : head.delta.toNat + (ms - head.delta).toNat = ms.toNat := by
        bv_omega
      refine ⟨[head, ⟨address, ms - head.delta, task⟩], ?_, ?_⟩
      · rw [insertAlarm, alarmDelta, whileLoop_done wordCount rfl, ok_bind]
      · simp only [alarmsFrom, Nat.zero_add, hsum]
        exact List.Perm.swap _ _ _
  | head :: behind :: tail =>
      rcases hbehind with ⟨hle, hge⟩
      have hle : head.delta.toNat ≤ ms.toNat := hle
      have hdelta : (ms - head.delta).toNat = ms.toNat - head.delta.toNat := by
        bv_omega
      have hstop : dueAfterNext (behind :: tail) (ms - head.delta) = false := by
        rw [dueAfterNext, decide_eq_false_iff_not, BitVec.lt_def, hdelta]
        omega
      have hrest : (behind.delta - (ms - head.delta)).toNat =
          behind.delta.toNat - (ms.toNat - head.delta.toNat) := by
        rw [← hdelta]
        bv_omega
      refine ⟨head :: ⟨address, ms - head.delta, task⟩ ::
        { behind with delta := behind.delta - (ms - head.delta) } :: tail,
        ?_, ?_⟩
      · rw [insertAlarm, alarmDelta, whileLoop_done wordCount hstop, ok_bind]
      · have hsum : head.delta.toNat + (ms.toNat - head.delta.toNat) =
            ms.toNat := by omega
        have hnext : ms.toNat +
            (behind.delta.toNat - (ms.toNat - head.delta.toNat)) =
            head.delta.toNat + behind.delta.toNat := by omega
        simp only [alarmsFrom, Nat.zero_add, hdelta, hsum, hrest, hnext]
        exact List.Perm.swap _ _ _

/-!
# A tick
-/

def ClockCalls.logged (calls : ClockCalls τ σ) : ClockCalls τ (σ × List τ) where
  malloc size s := calls.malloc size s.1 >>= fun r => .ok (r.1, (r.2, s.2))
  free address s := calls.free address s.1 >>= fun r => .ok (r, s.2)
  wakeup task s := calls.wakeup task s.1 >>= fun r => .ok (r, s.2 ++ [task])

/-- No two alarms are due at the very end of the tick. -/
def NoTieAt (tickl : Nat) (queue : List (ClockAlarm τ)) : Prop :=
  (deadlines queue).Pairwise (fun a b => a = b -> a ≠ tickl)

/-- A tick wakes the alarms that are due, and the time of the tick is taken
off the others. -/
structure TickSplit (tickl : Nat) (queue queue' : List (ClockAlarm τ))
    (due late : List (Nat × τ)) : Prop where
  split : alarmsFrom 0 queue = due ++ late
  due_le : forall a, a ∈ due -> a.1 ≤ tickl
  late_gt : forall a, a ∈ late -> tickl < a.1
  left : alarmsFrom 0 queue' = late.map (fun a => (a.1 - tickl, a.2))

theorem alarmsFrom_delta (alarm : ClockAlarm τ) (rest : List (ClockAlarm τ)) :
    alarmsFrom alarm.delta.toNat rest =
      (alarmsFrom 0 rest).map (fun a => (alarm.delta.toNat + a.1, a.2)) :=
  alarmsFrom_add alarm.delta.toNat 0 rest

theorem tickSplit_end {alarm : ClockAlarm τ} {rest : List (ClockAlarm τ)}
    (htie : NoTieAt alarm.delta.toNat (alarm :: rest)) :
    TickSplit alarm.delta.toNat (alarm :: rest) rest
      [(alarm.delta.toNat, alarm.task)] (alarmsFrom alarm.delta.toNat rest) := by
  constructor
  · simp only [alarmsFrom, Nat.zero_add, List.singleton_append]
  · intro a ha
    rw [List.mem_singleton.mp ha]
  · intro a ha
    have hle := le_alarmsFrom ha
    have hmem : a.1 ∈ (alarmsFrom (0 + alarm.delta.toNat) rest).map Prod.fst := by
      rw [Nat.zero_add]
      exact List.mem_map_of_mem ha
    have hneq := (List.pairwise_cons.mp htie).1 a.1 hmem
    simp only [Nat.zero_add] at hneq
    have hstrict : alarm.delta.toNat ≠ a.1 := fun heq => hneq heq rfl
    omega
  · rw [alarmsFrom_delta, List.map_map]
    simp [Function.comp_def]

theorem tickSplit_due {alarm : ClockAlarm τ} {rest queue' : List (ClockAlarm τ)}
    {tickl : Nat} {due late : List (Nat × τ)} (hle : alarm.delta.toNat ≤ tickl)
    (hrest : TickSplit (tickl - alarm.delta.toNat) rest queue' due late) :
    TickSplit tickl (alarm :: rest) queue'
      ((alarm.delta.toNat, alarm.task) ::
        due.map (fun a => (alarm.delta.toNat + a.1, a.2)))
      (late.map (fun a => (alarm.delta.toNat + a.1, a.2))) := by
  constructor
  · rw [alarmsFrom, Nat.zero_add, alarmsFrom_delta, hrest.split, List.map_append]
    rfl
  · intro a ha
    rcases List.mem_cons.mp ha with rfl | ha
    · exact hle
    · rcases List.mem_map.mp ha with ⟨b, hb, rfl⟩
      have hb := hrest.due_le b hb
      change alarm.delta.toNat + b.1 ≤ _
      omega
  · intro a ha
    rcases List.mem_map.mp ha with ⟨b, hb, rfl⟩
    have hb := hrest.late_gt b hb
    change _ < alarm.delta.toNat + b.1
    omega
  · rw [hrest.left, List.map_map]
    refine List.map_congr_left fun a _ => ?_
    simp only [Function.comp_apply, Prod.mk.injEq, and_true]
    omega

theorem tickSplit_late {alarm : ClockAlarm τ} {rest : List (ClockAlarm τ)}
    {tickl : Word} (hlate : tickl.toNat < alarm.delta.toNat) :
    TickSplit tickl.toNat (alarm :: rest)
      ({ alarm with delta := alarm.delta - tickl } :: rest) []
      (alarmsFrom 0 (alarm :: rest)) := by
  have hsub : (alarm.delta - tickl).toNat =
      alarm.delta.toNat - tickl.toNat := by bv_omega
  constructor
  · rfl
  · simp
  · intro a ha
    rw [alarmsFrom, Nat.zero_add] at ha
    rcases List.mem_cons.mp ha with rfl | ha
    · exact hlate
    · have hle := le_alarmsFrom ha
      omega
  · simp only [alarmsFrom, Nat.zero_add, hsub, List.map_cons, List.cons.injEq,
      true_and]
    rw [alarmsFrom_delta, ← Nat.add_zero (alarm.delta.toNat - tickl.toNat),
      alarmsFrom_add, List.map_map]
    refine List.map_congr_left fun a _ => ?_
    simp only [Function.comp_apply, Prod.mk.injEq, and_true]
    omega

theorem NoTieAt.rest {alarm : ClockAlarm τ} {rest : List (ClockAlarm τ)}
    {tickl : Nat} (htie : NoTieAt tickl (alarm :: rest))
    (hle : alarm.delta.toNat ≤ tickl) :
    NoTieAt (tickl - alarm.delta.toNat) rest := by
  have htail := (List.pairwise_cons.mp htie).2
  rw [Nat.zero_add, alarmsFrom_delta, List.map_map] at htail
  refine List.pairwise_map.mpr ((List.pairwise_map.mp htail).imp ?_)
  intro a b hab heq hval
  refine hab ?_ ?_
  · simp only [Function.comp_apply, heq]
  · simp only [Function.comp_apply]
    omega

theorem wakeDue_zero (calls : ClockCalls τ σ) (queue : List (ClockAlarm τ))
    (s : σ) : wakeDue calls queue 0 s = .ok (queue, s) := by
  cases queue <;> rfl

theorem wakeDue_logged {calls : ClockCalls τ σ} {queue queue' : List (ClockAlarm τ)}
    {tickl : Word} {s s' : σ} {log log' : List τ}
    (hpos : tickl ≠ 0) (htie : NoTieAt tickl.toNat queue)
    (hrun : wakeDue calls.logged queue tickl (s, log) =
      .ok (queue', (s', log'))) :
    exists due late, TickSplit tickl.toNat queue queue' due late ∧
      log' = log ++ due.map Prod.snd := by
  induction queue generalizing tickl s log with
  | nil =>
      simp only [wakeDue, Except.ok.injEq, Prod.mk.injEq] at hrun
      rcases hrun with ⟨rfl, _, rfl⟩
      exact ⟨[], [], ⟨rfl, by simp, by simp, rfl⟩, by simp⟩
  | cons alarm rest ih =>
      rw [wakeDue, if_neg hpos] at hrun
      by_cases hdue : alarm.delta ≤ tickl
      · rw [if_pos hdue] at hrun
        rcases ok_bind_iff.mp hrun with ⟨s₁, hwake, hrun⟩
        rcases ok_bind_iff.mp hrun with ⟨s₂, hfree, hrun⟩
        rcases ok_bind_iff.mp hwake with ⟨r₁, _, hr₁⟩
        rcases ok_bind_iff.mp hfree with ⟨r₂, _, hr₂⟩
        cases hr₁
        cases hr₂
        by_cases hend : tickl - alarm.delta = 0
        · -- The loop stops with the tick, whatever else is due right now.
          have heq : tickl = alarm.delta := by bv_omega
          rw [hend, wakeDue_zero] at hrun
          cases hrun
          subst heq
          exact ⟨_, _, tickSplit_end htie, rfl⟩
        · have hle : alarm.delta.toNat ≤ tickl.toNat := hdue
          have hsub : (tickl - alarm.delta).toNat =
              tickl.toNat - alarm.delta.toNat := by bv_omega
          have htie' := htie.rest hle
          rw [← hsub] at htie'
          rcases ih hend htie' hrun with ⟨due, late, hsplit, hlog⟩
          rw [hsub] at hsplit
          refine ⟨_, _, tickSplit_due hle hsplit, ?_⟩
          rw [hlog]
          simp [Function.comp_def]
      · rw [if_neg hdue] at hrun
        cases hrun
        have hlate : tickl.toNat < alarm.delta.toNat := by
          simpa [BitVec.le_def] using hdue
        exact ⟨_, _, tickSplit_late hlate, by simp⟩

end Deadlines

/-!
# Runs

Alarms are set and ticks happen in any order.  A run keeps the number of ticks
so far, the wakeups with their ticks, and the tick each alarm was asked for.
-/

/-- The tick in which an alarm set after {lit}`elapsed` ticks is due. -/
def dueTick (elapsed ms : Nat) : Nat :=
  elapsed + max 1 ((ms + tick.toNat - 1) / tick.toNat)

structure ClockRun (τ σ : Type) where
  clock : Clock τ
  rest : σ
  elapsed : Nat
  log : List (Nat × τ)
  asked : List (Nat × τ)

def ClockRun.Start {τ σ : Type} (s : ClockRun τ σ) : Prop :=
  s.clock.alarmQueue = [] ∧ s.elapsed = 0 ∧ s.log = [] ∧ s.asked = []

section Runs

variable {τ σ : Type}

/-- The steps of a run whose alarms all meet a condition on the queue they are
put into. -/
inductive ClockStep (calls : ClockCalls τ σ)
    (meets : List (ClockAlarm τ) -> Word -> Prop) :
    ClockRun τ σ -> ClockRun τ σ -> Prop where
  | setWakeup {s : ClockRun τ σ} {task : τ} {ms : Word} {c : Clock τ} {r : σ} :
      meets s.clock.alarmQueue ms ->
      clockSetWakeup calls task ms s.clock s.rest = .ok (c, r) ->
      ClockStep calls meets s { s with
        clock := c
        rest := r
        asked := (dueTick s.elapsed ms.toNat, task) :: s.asked }
  | tick {s : ClockRun τ σ} {c : Clock τ} {r : σ} {woken : List τ} :
      clockFunc calls.logged s.clock (s.rest, []) = .ok (c, (r, woken)) ->
      ClockStep calls meets s { s with
        clock := c
        rest := r
        elapsed := s.elapsed + 1
        log := s.log ++ woken.map (fun task => (s.elapsed + 1, task)) }

/-- Every alarm has woken its task exactly once, in the tick it was asked for,
when that tick has come. -/
def TimerAccurate (s : ClockRun τ σ) : Prop :=
  s.log.Perm (s.asked.filter (fun a => a.1 ≤ s.elapsed))

structure ClockRunInv (s : ClockRun τ σ) : Prop where
  wakes : s.asked.Perm (s.log ++ (alarmsFrom 0 s.clock.alarmQueue).map
    (fun a => (dueTick s.elapsed a.1, a.2)))
  past : forall w, w ∈ s.log -> w.1 ≤ s.elapsed
  noTies : (deadlines s.clock.alarmQueue).Pairwise
    (fun a b => a = b -> a % tick.toNat = 0 -> a = 0)

theorem lt_dueTick (elapsed ms : Nat) : elapsed < dueTick elapsed ms := by
  unfold dueTick
  omega

theorem timerAccurate_of_inv {s : ClockRun τ σ} (hs : ClockRunInv s) :
    TimerAccurate s := by
  have hfilter := hs.wakes.filter (fun a => decide (a.1 ≤ s.elapsed))
  rw [List.filter_append] at hfilter
  have hlog : s.log.filter (fun a => decide (a.1 ≤ s.elapsed)) = s.log :=
    List.filter_eq_self.mpr fun a ha => decide_eq_true (hs.past a ha)
  have hqueue : ((alarmsFrom 0 s.clock.alarmQueue).map
      (fun a => (dueTick s.elapsed a.1, a.2))).filter
      (fun a => decide (a.1 ≤ s.elapsed)) = [] := by
    refine List.filter_eq_nil_iff.mpr fun a ha => ?_
    rcases List.mem_map.mp ha with ⟨b, _, rfl⟩
    have hlt := lt_dueTick s.elapsed b.1
    rw [decide_eq_true_eq]
    omega
  rw [hlog, hqueue, List.append_nil] at hfilter
  exact hfilter.symm

theorem clockRunInv_start {s : ClockRun τ σ} (hs : ClockRun.Start s) :
    ClockRunInv s := by
  rcases hs with ⟨hqueue, _, hlog, hasked⟩
  constructor
  · rw [hasked, hlog, hqueue]
    exact List.Perm.refl _
  · rw [hlog]
    simp
  · rw [hqueue]
    exact List.Pairwise.nil

theorem clockRunInv_setWakeup {calls : ClockCalls τ σ} {s : ClockRun τ σ}
    {task : τ} {ms : Word} {c : Clock τ} {r : σ} (hs : ClockRunInv s)
    (hplace : InPlace s.clock.alarmQueue ms)
    (hrun : clockSetWakeup calls task ms s.clock s.rest = .ok (c, r)) :
    ClockRunInv { s with
      clock := c
      rest := r
      asked := (dueTick s.elapsed ms.toNat, task) :: s.asked } := by
  rcases ok_bind_iff.mp hrun with ⟨⟨address, r'⟩, _, hrun⟩
  by_cases haddress : address = 0
  · simp only [haddress, if_true] at hrun
    cases hrun
  · simp only [haddress, if_false] at hrun
    rcases ok_bind_iff.mp hrun with ⟨queue, hinsert, hrun⟩
    cases hrun
    rcases insertAlarm_inPlace address task hplace with
      ⟨queue', hqueue', hperm⟩
    rw [hqueue'] at hinsert
    cases hinsert
    constructor
    · have hmap := hperm.map (fun a => (dueTick s.elapsed a.1, a.2))
      rw [List.map_cons] at hmap
      refine (hs.wakes.cons _).trans ?_
      exact List.perm_middle.symm.trans (hmap.symm.append_left s.log)
    · exact hs.past
    · have hdeadlines : (deadlines queue).Perm
          (ms.toNat :: deadlines s.clock.alarmQueue) := hperm.map Prod.fst
      refine hdeadlines.symm.pairwise (List.pairwise_cons.mpr ⟨?_, hs.noTies⟩) ?_
      · intro b hb heq hmultiple
        by_contra hne
        exact hplace.noTie (Nat.pos_of_ne_zero hne) hmultiple (heq ▸ hb)
      · intro a b hab heq
        rw [heq]
        exact hab heq.symm

theorem dueTick_due (elapsed : Nat) {ms : Nat} (h : ms ≤ tick.toNat) :
    dueTick elapsed ms = elapsed + 1 := by
  have htick : tick.toNat = 50 := rfl
  unfold dueTick
  rw [htick] at h ⊢
  omega

theorem dueTick_late (elapsed : Nat) {ms : Nat} (h : tick.toNat < ms) :
    dueTick (elapsed + 1) (ms - tick.toNat) = dueTick elapsed ms := by
  have htick : tick.toNat = 50 := rfl
  unfold dueTick
  rw [htick] at h ⊢
  omega

theorem clockRunInv_tick {calls : ClockCalls τ σ} {s : ClockRun τ σ}
    {c : Clock τ} {r : σ} {woken : List τ} (hs : ClockRunInv s)
    (hrun : clockFunc calls.logged s.clock (s.rest, []) = .ok (c, (r, woken))) :
    ClockRunInv { s with
      clock := c
      rest := r
      elapsed := s.elapsed + 1
      log := s.log ++ woken.map (fun task => (s.elapsed + 1, task)) } := by
  rcases ok_bind_iff.mp hrun with ⟨⟨queue, r'⟩, hwake, hrun⟩
  cases hrun
  rw [Clock.count_alarmQueue] at hwake
  have htie : NoTieAt tick.toNat s.clock.alarmQueue := by
    refine hs.noTies.imp fun {a b} hab heq hend => ?_
    have hzero := hab heq (by rw [hend]; rfl)
    rw [hzero] at hend
    exact absurd hend (by decide)
  rcases wakeDue_logged (by decide) htie hwake with ⟨due, late, hsplit, rfl⟩
  have hdue : due.map (fun a => (dueTick s.elapsed a.1, a.2)) =
      (due.map Prod.snd).map (fun task => (s.elapsed + 1, task)) := by
    rw [List.map_map]
    refine List.map_congr_left fun a ha => ?_
    rw [dueTick_due s.elapsed (hsplit.due_le a ha)]
    rfl
  have hlate : (alarmsFrom 0 queue).map
      (fun a => (dueTick (s.elapsed + 1) a.1, a.2)) =
      late.map (fun a => (dueTick s.elapsed a.1, a.2)) := by
    rw [hsplit.left, List.map_map]
    refine List.map_congr_left fun a ha => ?_
    simp only [Function.comp_apply]
    rw [dueTick_late s.elapsed (hsplit.late_gt a ha)]
  constructor
  · have hwakes := hs.wakes
    rw [hsplit.split, List.map_append, hdue, ← hlate, ← List.append_assoc]
      at hwakes
    exact hwakes
  · intro w hw
    rcases List.mem_append.mp hw with hw | hw
    · have hpast := hs.past w hw
      change w.1 ≤ s.elapsed + 1
      omega
    · rcases List.mem_map.mp hw with ⟨task, _, rfl⟩
      exact Nat.le_refl _
  · change (deadlines queue).Pairwise _
    have hties := hs.noTies
    rw [deadlines, hsplit.split, List.map_append] at hties
    have hties := (List.pairwise_append.mp hties).2.1
    rw [deadlines, hsplit.left, List.map_map]
    refine List.pairwise_map.mpr ((List.pairwise_map.mp hties).imp_of_mem ?_)
    intro a b ha hb hab heq hmultiple
    have hagt := hsplit.late_gt a ha
    have hbgt := hsplit.late_gt b hb
    simp only [Function.comp_apply] at heq hmultiple ⊢
    have hsame : a.1 = b.1 := by omega
    have hmod : a.1 % tick.toNat = 0 := by
      have hsum : a.1 = a.1 - tick.toNat + tick.toNat := by omega
      rw [hsum, Nat.add_mod_right]
      exact hmultiple
    have hzero := hab hsame hmod
    omega

/-- In every run whose alarms are set in place, every alarm wakes its task
exactly once and in the tick it was asked for, and setting another alarm in
place finds its end. -/
theorem timer_accurate {calls : ClockCalls τ σ} {s : ClockRun τ σ}
    (hs : Reachable ClockRun.Start (ClockStep calls InPlace) s) :
    TimerAccurate s ∧ forall task ms address, InPlace s.clock.alarmQueue ms ->
      exists queue, insertAlarm ⟨address, ms, task⟩ s.clock.alarmQueue =
        .ok queue := by
  have hinv : ClockRunInv s := by
    refine hs.invariant (I := ClockRunInv) (fun s => clockRunInv_start) ?_
    intro s s' hs hstep
    cases hstep with
    | setWakeup hplace hrun => exact clockRunInv_setWakeup hs hplace hrun
    | tick hrun => exact clockRunInv_tick hs hrun
  refine ⟨timerAccurate_of_inv hinv, fun task ms address hplace => ?_⟩
  rcases insertAlarm_inPlace address task hplace with
    ⟨queue, hqueue, _⟩
  exact ⟨queue, hqueue⟩

def idleCalls : ClockCalls τ Unit where
  malloc _ s := .ok (4, s)
  free _ s := .ok s
  wakeup _ s := .ok s

def idleRun : ClockRun τ Unit where
  clock := Clock.boot
  rest := ()
  elapsed := 0
  log := []
  asked := []

theorem idleRun_start : ClockRun.Start (idleRun : ClockRun τ Unit) :=
  ⟨rfl, rfl, rfl, rfl⟩

def twoAlarms : ClockRun Bool Unit where
  clock := ⟨[], 3, 0⟩
  rest := ()
  elapsed := 3
  log := [(3, true), (3, false)]
  asked := [(3, false), (3, true)]

theorem timer_accurate_two_alarms :
    TimerAccurate twoAlarms ∧
      forall task ms address, InPlace twoAlarms.clock.alarmQueue ms ->
        exists queue, insertAlarm ⟨address, ms, task⟩
          twoAlarms.clock.alarmQueue = .ok queue := by
  have hset := Reachable.step (Reachable.step (Reachable.start idleRun_start)
    (@ClockStep.setWakeup _ _ idleCalls InPlace _ true 120
      ⟨[⟨4, 120, true⟩], 0, 0⟩ () ⟨trivial, by decide⟩ rfl))
    (@ClockStep.setWakeup _ _ idleCalls InPlace _ false 130
      ⟨[⟨4, 120, true⟩, ⟨4, 10, false⟩], 0, 0⟩ () ⟨by decide, by decide⟩ rfl)
  refine timer_accurate (Reachable.step (Reachable.step (Reachable.step hset
    (@ClockStep.tick _ _ idleCalls InPlace _
      ⟨[⟨4, 70, true⟩, ⟨4, 10, false⟩], 1, 0⟩ () [] rfl))
    (@ClockStep.tick _ _ idleCalls InPlace _
      ⟨[⟨4, 20, true⟩, ⟨4, 10, false⟩], 2, 0⟩ () [] rfl))
    (@ClockStep.tick _ _ idleCalls InPlace _
      ⟨[], 3, 0⟩ () [true, false] rfl))

/-!
A short alarm set while a longer one is pending is put behind it, with a wrapped
delta, and misses its tick.
-/

theorem timer_late :
    ¬ (forall s : ClockRun Bool Unit,
      Reachable ClockRun.Start (ClockStep idleCalls (fun _ _ => True)) s ->
      TimerAccurate s) := by
  intro hall
  have haccurate := hall _ (Reachable.step (Reachable.step (Reachable.step
    (Reachable.start idleRun_start)
    (@ClockStep.setWakeup _ _ idleCalls (fun _ _ => True) _ true 100
      ⟨[⟨4, 100, true⟩], 0, 0⟩ () trivial rfl))
    (@ClockStep.setWakeup _ _ idleCalls (fun _ _ => True) _ false 10
      ⟨[⟨4, 100, true⟩, ⟨4, 65446, false⟩], 0, 0⟩ () trivial rfl))
    (@ClockStep.tick _ _ idleCalls (fun _ _ => True) _
      ⟨[⟨4, 50, true⟩, ⟨4, 65446, false⟩], 1, 0⟩ () [] rfl))
  exact absurd haccurate.length_eq (by decide)

end Runs

end Kernel
end Rmmtos
