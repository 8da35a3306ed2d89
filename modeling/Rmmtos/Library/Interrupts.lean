import Rmmtos.Library.Loop

/-!
# Interrupted routines

A routine takes its steps one by one, each from a control point, and a handler
runs as a whole between two of them.
-/

namespace Rmmtos
namespace Library

section Interrupts

variable {ε κ σ : Type _}

/-- The first {lit}`n` steps of a routine. -/
def runSteps (step : κ -> σ -> Except ε (κ × σ)) :
    Nat -> κ × σ -> Except ε (κ × σ)
  | 0, x => .ok x
  | n + 1, x => step x.1 x.2 >>= runSteps step n

/-- The handler runs behind the first {lit}`n` steps, and {lit}`m` more steps
follow. -/
def interrupted (step : κ -> σ -> Except ε (κ × σ)) (handler : σ -> Except ε σ)
    (n m : Nat) (x : κ × σ) : Except ε (κ × σ) :=
  runSteps step n x >>= fun y => handler y.2 >>= fun s => runSteps step m (y.1, s)

variable {step : κ -> σ -> Except ε (κ × σ)} {handler : σ -> Except ε σ}

@[simp] theorem runSteps_zero (x : κ × σ) : runSteps step 0 x = .ok x := rfl

theorem runSteps_succ (n : Nat) (k : κ) (s : σ) :
    runSteps step (n + 1) (k, s) = step k s >>= runSteps step n := rfl

theorem runSteps_add (n m : Nat) (x : κ × σ) :
    runSteps step (n + m) x = runSteps step n x >>= runSteps step m := by
  induction n generalizing x with
  | zero =>
      rw [Nat.zero_add]
      rfl
  | succ n ih =>
      rw [Nat.succ_add]
      unfold runSteps
      cases step x.1 x.2 with
      | error e => rfl
      | ok y => exact ih y

theorem runSteps_end {done : κ} (hdone : forall s, step done s = .ok (done, s))
    (n : Nat) (s : σ) : runSteps step n (done, s) = .ok (done, s) := by
  induction n with
  | zero => rfl
  | succ n ih =>
      rw [runSteps_succ, hdone]
      exact ih

theorem runSteps_late {done : κ} (hdone : forall s, step done s = .ok (done, s))
    {n m : Nat} {x : κ × σ} {s : σ} (hrun : runSteps step n x = .ok (done, s))
    (hle : n ≤ m) : runSteps step m x = .ok (done, s) := by
  rcases Nat.exists_eq_add_of_le hle with ⟨d, rfl⟩
  rw [runSteps_add, hrun]
  exact runSteps_end hdone d s

theorem interrupted_ok_iff {n m : Nat} {x y : κ × σ} :
    interrupted step handler n m x = .ok y <-> exists k s s',
      runSteps step n x = .ok (k, s) ∧ handler s = .ok s' ∧
        runSteps step m (k, s') = .ok y := by
  unfold interrupted
  constructor
  · intro hrun
    rcases ok_bind_iff.mp hrun with ⟨⟨k, s⟩, hfirst, hrun⟩
    rcases ok_bind_iff.mp hrun with ⟨s', hhandler, hrest⟩
    exact ⟨k, s, s', hfirst, hhandler, hrest⟩
  · rintro ⟨k, s, s', hfirst, hhandler, hrest⟩
    rw [hfirst, ok_bind, hhandler, ok_bind]
    exact hrest

/-- A step rule: what every step keeps holds after any number of steps. -/
theorem runSteps_invariant {I : κ -> σ -> Prop}
    (hstep : forall k s, I k s -> exists k' s', step k s = .ok (k', s') ∧ I k' s')
    (n : Nat) {k : κ} {s : σ} (hs : I k s) :
    exists k' s', runSteps step n (k, s) = .ok (k', s') ∧ I k' s' := by
  induction n generalizing k s with
  | zero => exact ⟨k, s, rfl, hs⟩
  | succ n ih =>
      rcases hstep k s hs with ⟨k₁, s₁, hrun, hs₁⟩
      rw [runSteps_succ, hrun, ok_bind]
      exact ih hs₁

/-- Steps that lower a bound on what is left bring the routine to its end. -/
theorem runSteps_reaches {I : Nat -> κ -> σ -> Prop} {done : κ}
    (hstep : forall j k s, I j k s -> k ≠ done ->
      exists j' k' s', step k s = .ok (k', s') ∧ I j' k' s' ∧ j' < j)
    {j : Nat} {k : κ} {s : σ} (hs : I j k s) :
    exists n j' s', runSteps step n (k, s) = .ok (done, s') ∧ I j' done s' := by
  induction j using Nat.strong_induction_on generalizing k s with
  | _ j ih =>
      by_cases hdone : k = done
      · subst hdone
        exact ⟨0, j, s, rfl, hs⟩
      · rcases hstep j k s hs hdone with ⟨j₁, k₁, s₁, hrun, hs₁, hlt⟩
        rcases ih j₁ hlt hs₁ with ⟨n, j', s', hrest, hs'⟩
        refine ⟨n + 1, j', s', ?_, hs'⟩
        rw [runSteps_succ, hrun]
        exact hrest

end Interrupts

/-!
# Registering with a handler

A routine registers something in a queue that the handler empties.
-/

section Registration

variable {ε κ σ α ρ : Type _}

def handlerRuns (handler : σ -> Except ε σ) : Nat -> σ -> Except ε σ
  | 0, s => .ok s
  | n + 1, s => handler s >>= handlerRuns handler n

/-- How the queue in a state is read, and what has been taken out of it, by record
and by what was registered. -/
structure QueueView (σ α ρ : Type _) where
  holds : σ -> List α -> Prop
  taken : σ -> List (α × ρ)

/-- From some run of the handler on, every registration has been served exactly
once. -/
def ServedOnce (view : QueueView σ α ρ) (handler : σ -> Except ε σ)
    (registrations : List (α × ρ)) (s : σ) : Prop :=
  exists n, forall m, n ≤ m -> exists s', handlerRuns handler m s = .ok s' ∧
    (view.taken s').Perm registrations

/-- When the handler runs behind the first {lit}`n` steps, the routine comes to its
end with no record in the queue that has been taken out, and every registration is
served exactly once. -/
def RegistersSafely (view : QueueView σ α ρ) (step : κ -> σ -> Except ε (κ × σ))
    (handler : σ -> Except ε σ) (done : κ) (registrations : List (α × ρ)) (n : Nat)
    (x : κ × σ) : Prop :=
  exists m s', interrupted step handler n m x = .ok (done, s') ∧
    (exists records, view.holds s' records ∧
      forall a, a ∈ records -> a ∉ (view.taken s').map Prod.fst) ∧
    ServedOnce view handler registrations s'

variable {handler : σ -> Except ε σ}

theorem handlerRuns_succ (n : Nat) (s : σ) :
    handlerRuns handler (n + 1) s = handler s >>= handlerRuns handler n := rfl

theorem handlerRuns_add (n m : Nat) (s : σ) :
    handlerRuns handler (n + m) s = handlerRuns handler n s >>= handlerRuns handler m := by
  induction n generalizing s with
  | zero =>
      rw [Nat.zero_add]
      rfl
  | succ n ih =>
      rw [Nat.succ_add]
      unfold handlerRuns
      cases handler s with
      | error e => rfl
      | ok s' => exact ih s'

/-- A handler that has nothing to do any more does nothing. -/
theorem handlerRuns_idle {s : σ} (hidle : handler s = .ok s) (n : Nat) :
    handlerRuns handler n s = .ok s := by
  induction n with
  | zero => rfl
  | succ n ih =>
      rw [handlerRuns_succ, hidle]
      exact ih

theorem handlerRuns_invariant {I : σ -> Prop}
    (hstep : forall s s', I s -> handler s = .ok s' -> I s') {n : Nat} {s s' : σ}
    (hrun : handlerRuns handler n s = .ok s') (hs : I s) : I s' := by
  induction n generalizing s with
  | zero =>
      cases hrun
      exact hs
  | succ n ih =>
      rcases ok_bind_iff.mp hrun with ⟨s₁, hfirst, hrest⟩
      exact ih hrest (hstep s s₁ hs hfirst)

end Registration

end Library
end Rmmtos
