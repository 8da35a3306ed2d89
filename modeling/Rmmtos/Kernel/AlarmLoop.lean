import Rmmtos.Kernel.ClockRuns

/-!
# The loop that puts an alarm into the queue

The loop of {lit}`clock_set_wakeup` stays at the head of the queue: every turn
takes the head's delta off the new one, modulo the size of a word, until what is
left is not above the delta behind the head.
-/

namespace Rmmtos
namespace Kernel

open Library

/-!
# What repeated subtraction reaches
-/

section Residues

variable {w : Nat}

theorem sub_mul_modEq (m h : BitVec w) (k : Nat) :
    Nat.ModEq (2 ^ w) ((m - BitVec.ofNat w k * h).toNat + k * h.toNat) m.toNat := by
  have hback := congrArg BitVec.toNat (BitVec.sub_add_cancel m (BitVec.ofNat w k * h))
  rw [BitVec.toNat_add, BitVec.toNat_mul, BitVec.toNat_ofNat] at hback
  unfold Nat.ModEq
  rw [← hback, Nat.mod_mod]
  simp only [Nat.add_mod, Nat.mul_mod, Nat.mod_mod]

/-- What is reached is not below the remainder by the greatest common divisor. -/
theorem mod_gcd_le (m h : BitVec w) (k : Nat) :
    m.toNat % Nat.gcd h.toNat (2 ^ w) ≤ (m - BitVec.ofNat w k * h).toNat := by
  have hmod := (sub_mul_modEq m h k).of_dvd (Nat.gcd_dvd_right h.toNat (2 ^ w))
  have hmultiple : Nat.ModEq (Nat.gcd h.toNat (2 ^ w)) (k * h.toNat) 0 :=
    (Nat.modEq_zero_iff_dvd).mpr ((Nat.gcd_dvd_left _ _).mul_left k)
  have hsame : Nat.ModEq (Nat.gcd h.toNat (2 ^ w))
      (m - BitVec.ofNat w k * h).toNat m.toNat := by
    have hsum := (hmultiple.symm.add_left (m - BitVec.ofNat w k * h).toNat).trans hmod
    exact hsum
  rw [← hsame]
  exact Nat.mod_le _ _

theorem exists_multiple_modEq {W : Nat} (hW : 0 < W) (m h : Nat) (hh : h < W) :
    exists k, Nat.ModEq W (m % Nat.gcd h W + k * h) m := by
  rcases Nat.lt_or_ge (Nat.gcd h W) W with hless | hall
  · rcases Nat.exists_mul_mod_eq_gcd hless with ⟨x, _, hx⟩
    refine ⟨x * (m / Nat.gcd h W), ?_⟩
    have hstep : Nat.ModEq W (h * x) (Nat.gcd h W) := by
      unfold Nat.ModEq
      rw [hx, Nat.mod_eq_of_lt hless]
    have hmultiple : Nat.ModEq W (x * (m / Nat.gcd h W) * h)
        (Nat.gcd h W * (m / Nat.gcd h W)) := by
      have hscaled := hstep.mul_right (m / Nat.gcd h W)
      rw [Nat.mul_comm h x, Nat.mul_right_comm] at hscaled
      exact hscaled
    have hsum := hmultiple.add_left (m % Nat.gcd h W)
    rw [Nat.mod_add_div] at hsum
    exact hsum
  · have hzero : h = 0 := by
      have hdvd := Nat.gcd_dvd_left h W
      rw [Nat.le_antisymm (Nat.gcd_le_right h hW) hall] at hdvd
      exact Nat.eq_zero_of_dvd_of_lt hdvd hh
    refine ⟨0, ?_⟩
    rw [hzero, Nat.gcd_zero_left, Nat.mul_zero, Nat.add_zero]
    exact Nat.mod_modEq m W

/-- The remainder by the greatest common divisor is reached. -/
theorem exists_sub_mul_eq (m h : BitVec w) : exists k, 1 ≤ k ∧ k ≤ 2 ^ w ∧
    (m - BitVec.ofNat w k * h).toNat = m.toNat % Nat.gcd h.toNat (2 ^ w) := by
  have hW : 0 < 2 ^ w := Nat.two_pow_pos w
  rcases exists_multiple_modEq hW m.toNat h.toNat h.isLt with ⟨k, hk⟩
  refine ⟨(k + (2 ^ w - 1)) % 2 ^ w + 1, Nat.succ_pos _, Nat.mod_lt _ hW, ?_⟩
  have hsame : Nat.ModEq (2 ^ w) ((k + (2 ^ w - 1)) % 2 ^ w + 1) k := by
    have hround := (Nat.mod_modEq (k + (2 ^ w - 1)) (2 ^ w)).add_right 1
    rw [Nat.add_assoc, Nat.sub_add_cancel hW] at hround
    exact hround.trans (Nat.add_modEq_right)
  have hreach := (sub_mul_modEq m h ((k + (2 ^ w - 1)) % 2 ^ w + 1)).trans
    (((hsame.mul_right h.toNat).add_left _).trans hk).symm
  refine (Nat.ModEq.add_right_cancel' _ hreach).eq_of_lt_of_lt (BitVec.isLt _) ?_
  exact Nat.lt_of_le_of_lt (Nat.mod_le _ _) m.isLt

end Residues

/-!
# The turns of the loop
-/

section Turns

variable {τ σ : Type}

/-- The loop of {lit}`clock_set_wakeup`, given up when it is not over after
{lit}`n` iterations. -/
def alarmDeltaWithin (n : Nat) (head : ClockAlarm τ) (rest : List (ClockAlarm τ))
    (delta : Word) : Result Word :=
  match n with
  | 0 => .error .hang
  | n + 1 =>
      whileLoop .hang (dueAfterNext rest) (fun d => .ok (d - head.delta)) n
        (delta - head.delta)

def insertAlarmWithin (n : Nat) (alarm : ClockAlarm τ) :
    List (ClockAlarm τ) -> Result (List (ClockAlarm τ))
  | [] => .ok [alarm]
  | head :: rest =>
      alarmDeltaWithin n head rest alarm.delta >>= fun delta =>
        let alarm := { alarm with delta := delta }
        match rest with
        | [] => .ok [head, alarm]
        | behind :: tail =>
            .ok (head :: alarm ::
              { behind with delta := behind.delta - alarm.delta } :: tail)

def clockSetWakeupWithin (n : Nat) (calls : ClockCalls τ σ) (task : τ)
    (milliseconds : Word) (c : Clock τ) (s : σ) : Result (Clock τ × σ) := do
  let (address, s) ← calls.malloc clockAlarmSize s
  if address = 0 then
    panic .alarmAlloc
  else
    let queue ← insertAlarmWithin n ⟨address, milliseconds, task⟩ c.alarmQueue
    .ok ({ c with alarmQueue := queue }, s)

theorem insertAlarm_within (alarm : ClockAlarm τ) (queue : List (ClockAlarm τ)) :
    insertAlarm alarm queue = insertAlarmWithin (wordCount + 1) alarm queue := by
  cases queue <;> rfl

/-- The loop of the queue's model has a bound that no loop that ends needs. -/
theorem clockSetWakeup_within (calls : ClockCalls τ σ) (task : τ) (ms : Word)
    (c : Clock τ) (s : σ) : clockSetWakeup calls task ms c s =
      clockSetWakeupWithin (wordCount + 1) calls task ms c s := by
  unfold clockSetWakeup clockSetWakeupWithin
  simp only [insertAlarm_within]

theorem iterate_sub (d h : Word) (k : Nat) :
    (fun x => x - h)^[k] (d - h) = d - BitVec.ofNat 16 (k + 1) * h := by
  induction k with
  | zero => rw [Function.iterate_zero_apply, Nat.zero_add, BitVec.one_mul]
  | succ k ih =>
      rw [Function.iterate_succ_apply', ih, BitVec.ofNat_add (k + 1) 1, BitVec.add_mul,
        BitVec.one_mul]
      generalize BitVec.ofNat 16 (k + 1) * h = taken
      rw [BitVec.sub_eq_iff_eq_add]
      bv_omega

/-- What is left of the new delta is not above the delta behind the head. -/
def Reaches (head behind : ClockAlarm τ) (ms : Word) (k : Nat) : Prop :=
  ms - BitVec.ofNat 16 k * head.delta ≤ behind.delta

theorem alarmDeltaWithin_iff (n : Nat) (head behind : ClockAlarm τ)
    (tail : List (ClockAlarm τ)) (ms : Word) :
    (exists d, alarmDeltaWithin n head (behind :: tail) ms = .ok d) <->
      exists k, 1 ≤ k ∧ k ≤ n ∧ Reaches head behind ms k := by
  cases n with
  | zero =>
      refine iff_of_false ?_ ?_
      · rintro ⟨d, hrun⟩
        cases hrun
      · rintro ⟨k, hfirst, hlast, _⟩
        omega
  | succ n =>
      have hexit : forall k, dueAfterNext (behind :: tail)
          ((fun x => x - head.delta)^[k] (ms - head.delta)) = false <->
          Reaches head behind ms (k + 1) := by
        intro k
        rw [iterate_sub]
        unfold dueAfterNext Reaches
        rw [decide_eq_false_iff_not, BitVec.not_lt]
      unfold alarmDeltaWithin
      rw [whileLoop_iterate]
      simp only [hexit]
      constructor
      · rintro ⟨k, hk, hreach⟩
        exact ⟨k + 1, Nat.succ_pos k, Nat.succ_le_succ hk, hreach⟩
      · rintro ⟨k, hfirst, hlast, hreach⟩
        cases k with
        | zero => cases hfirst
        | succ k => exact ⟨k, Nat.le_of_succ_le_succ hlast, hreach⟩

def EndsWithin (n : Nat) (queue : List (ClockAlarm τ)) (ms : Word) : Prop :=
  match queue with
  | head :: behind :: _ => exists k, 1 ≤ k ∧ k ≤ n ∧ Reaches head behind ms k
  | _ => True

/-- The loop comes to its end. -/
def Ends (queue : List (ClockAlarm τ)) (ms : Word) : Prop :=
  match queue with
  | head :: behind :: _ =>
      ms.toNat % Nat.gcd head.delta.toNat (2 ^ 16) ≤ behind.delta.toNat
  | _ => True

theorem endsWithin_iff_ends (queue : List (ClockAlarm τ)) (ms : Word) :
    EndsWithin (wordCount + 1) queue ms <-> Ends queue ms := by
  match queue with
  | [] => exact Iff.rfl
  | [_] => exact Iff.rfl
  | head :: behind :: tail =>
      constructor
      · rintro ⟨k, _, _, hreach⟩
        exact Nat.le_trans (mod_gcd_le ms head.delta k) hreach
      · intro hle
        rcases exists_sub_mul_eq ms head.delta with ⟨k, hfirst, hlast, heq⟩
        refine ⟨k, hfirst, Nat.le_succ_of_le hlast, ?_⟩
        unfold Reaches
        rw [BitVec.le_def, heq]
        exact hle

theorem insertAlarmWithin_behind_iff (n : Nat) (alarm head behind : ClockAlarm τ)
    (tail : List (ClockAlarm τ)) :
    (exists queue', insertAlarmWithin n alarm (head :: behind :: tail) =
        .ok queue') <->
      exists k, 1 ≤ k ∧ k ≤ n ∧ Reaches head behind alarm.delta k := by
  rw [← alarmDeltaWithin_iff n head behind tail]
  unfold insertAlarmWithin
  constructor
  · rintro ⟨queue', hrun⟩
    rcases ok_bind_iff.mp hrun with ⟨d, hd, _⟩
    exact ⟨d, hd⟩
  · rintro ⟨d, hd⟩
    dsimp only
    rw [hd]
    exact ⟨_, rfl⟩

theorem insertAlarmWithin_iff {n : Nat} (alarm : ClockAlarm τ)
    (queue : List (ClockAlarm τ)) (hn : queue ≠ [] -> 0 < n) :
    (exists queue', insertAlarmWithin n alarm queue = .ok queue') <->
      EndsWithin n queue alarm.delta := by
  match queue with
  | [] => exact iff_of_true ⟨_, rfl⟩ trivial
  | [head] =>
      refine iff_of_true ?_ trivial
      cases n with
      | zero => exact absurd (hn (List.cons_ne_nil head [])) (Nat.lt_irrefl 0)
      | succ n =>
          unfold insertAlarmWithin alarmDeltaWithin
          dsimp only
          rw [whileLoop_done n rfl]
          exact ⟨_, rfl⟩
  | head :: behind :: tail => exact insertAlarmWithin_behind_iff n alarm head behind tail

theorem clockSetWakeupWithin_iff {calls : ClockCalls τ σ} {c : Clock τ} {s s' : σ}
    {task : τ} {ms address : Word} {n : Nat}
    (hmalloc : calls.malloc clockAlarmSize s = .ok (address, s'))
    (haddress : address ≠ 0) :
    (exists c', clockSetWakeupWithin n calls task ms c s = .ok (c', s')) <->
      exists queue, insertAlarmWithin n ⟨address, ms, task⟩ c.alarmQueue =
        .ok queue := by
  unfold clockSetWakeupWithin
  rw [hmalloc, ok_bind]
  dsimp only
  rw [if_neg haddress]
  constructor
  · rintro ⟨c', hrun⟩
    rcases ok_bind_iff.mp hrun with ⟨queue, hqueue, _⟩
    exact ⟨queue, hqueue⟩
  · rintro ⟨queue, hqueue⟩
    rw [hqueue]
    exact ⟨_, rfl⟩

end Turns

/-- For every queue and every number of milliseconds, the call returns within as
many iterations as there are alarms exactly when one of that many subtractions
reaches the delta behind the head, and it returns at all exactly when the
remainder by the greatest common divisor with the size of a word does. -/
theorem clock_set_wakeup_ends_iff {τ σ : Type} {calls : ClockCalls τ σ} {c : Clock τ}
    {s s' : σ} {address : Word} (task : τ) (ms : Word)
    (hmalloc : calls.malloc clockAlarmSize s = .ok (address, s'))
    (haddress : address ≠ 0) :
    ((exists c', clockSetWakeupWithin c.alarmQueue.length calls task ms c s =
        .ok (c', s')) <-> EndsWithin c.alarmQueue.length c.alarmQueue ms) ∧
    ((exists c', clockSetWakeup calls task ms c s = .ok (c', s')) <->
        Ends c.alarmQueue ms) := by
  rw [clockSetWakeup_within, clockSetWakeupWithin_iff hmalloc haddress,
    clockSetWakeupWithin_iff hmalloc haddress]
  constructor
  · exact insertAlarmWithin_iff _ _ List.length_pos_of_ne_nil
  · rw [insertAlarmWithin_iff _ _ fun _ => Nat.succ_pos wordCount]
    exact endsWithin_iff_ends _ _

/-- The third alarm finds its place in the second iteration. -/
theorem clock_set_wakeup_ends_small :
    (exists c', clockSetWakeupWithin 2 idleCalls true 70
        ⟨[⟨4, 20, true⟩, ⟨6, 40, false⟩], 0, 0⟩ () = .ok (c', ())) ∧
      exists c', clockSetWakeup idleCalls true 70
        ⟨[⟨4, 20, true⟩, ⟨6, 40, false⟩], 0, 0⟩ () = .ok (c', ()) := by
  have hends := @clock_set_wakeup_ends_iff _ _ idleCalls
    ⟨[⟨4, 20, true⟩, ⟨6, 40, false⟩], 0, 0⟩ () _ _ true 70 rfl (by decide)
  have hreach : (70 : Word) - BitVec.ofNat 16 2 * 20 ≤ 40 := by
    decide
  have hrest : (70 : Word).toNat % Nat.gcd (20 : Word).toNat (2 ^ 16) ≤
      (40 : Word).toNat := by
    decide
  exact ⟨hends.1.mpr ⟨2, by decide, Nat.le_refl 2, hreach⟩, hends.2.mpr hrest⟩

/-- Two alarms for at once, and the third never finds its place. -/
theorem clock_set_wakeup_hangs :
    exists s : ClockRun Bool Unit,
      Reachable ClockRun.Start (ClockStep idleCalls (fun _ _ => True)) s ∧
        forall n c', clockSetWakeupWithin n idleCalls true 1 s.clock s.rest ≠
          .ok c' := by
  refine ⟨_, Reachable.step (Reachable.step (Reachable.start idleRun_start)
    (@ClockStep.setWakeup _ _ idleCalls (fun _ _ => True) _ true 0
      ⟨[⟨4, 0, true⟩], 0, 0⟩ () trivial rfl))
    (@ClockStep.setWakeup _ _ idleCalls (fun _ _ => True) _ false 0
      ⟨[⟨4, 0, true⟩, ⟨4, 0, false⟩], 0, 0⟩ () trivial rfl), ?_⟩
  rintro n ⟨c', ⟨⟩⟩ hrun
  rcases (clockSetWakeupWithin_iff rfl (by decide)).mp ⟨c', hrun⟩ with ⟨queue, hqueue⟩
  rcases (insertAlarmWithin_behind_iff n ⟨4, 1, true⟩ ⟨4, 0, true⟩ ⟨4, 0, false⟩ []).mp
    ⟨queue, hqueue⟩ with ⟨k, _, _, hreach⟩
  have hleft : (1 : Word) - BitVec.ofNat 16 k * 0#16 ≤ 0#16 := hreach
  rw [BitVec.mul_zero] at hleft
  exact absurd hleft (by decide)

end Kernel
end Rmmtos
