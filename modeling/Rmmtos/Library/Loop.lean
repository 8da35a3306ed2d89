import Mathlib.Tactic

/-!
# Loops that may stop with an error

A while loop whose body may fail is run with fuel.  An outcome other than the
error {lit}`e` for lack of fuel does not depend on the fuel, so a loop returns exactly when
some fuel lets it return, and it runs for ever exactly when every fuel runs
out.
-/

namespace Rmmtos
namespace Library

/-!
# Results

The outcome of a bind is read back into the outcomes of its two halves.
-/

theorem ok_bind_iff {x : Except ε α} {f : α -> Except ε β} {b : β} :
    (x >>= f) = .ok b <-> exists a, x = .ok a ∧ f a = .ok b := by
  cases x with
  | error e => simp [bind, Except.bind]
  | ok a => simp [bind, Except.bind]

theorem error_bind_iff {x : Except ε α} {f : α -> Except ε β} {e : ε} :
    (x >>= f) = .error e <->
      x = .error e ∨ exists a, x = .ok a ∧ f a = .error e := by
  cases x with
  | error e' => simp [bind, Except.bind]
  | ok a => simp [bind, Except.bind]

@[simp] theorem ok_bind (a : α) (f : α -> Except ε β) :
    ((.ok a : Except ε α) >>= f) = f a := rfl

@[simp] theorem error_bind (e : ε) (f : α -> Except ε β) :
    ((.error e : Except ε α) >>= f) = .error e := rfl

theorem choice_bind {c : Prop} [Decidable c] {x y : Except ε α}
    {f : α -> Except ε β} :
    (if c then x else y) >>= f = if c then x >>= f else y >>= f := by
  split <;> rfl

theorem choice_ok {c : Prop} [Decidable c] {x y : Except ε α}
    {f : α -> Except ε β} {b : β}
    (hrun : (if c then x >>= f else y >>= f) = .ok b) :
    exists a, (if c then x else y) = .ok a ∧ f a = .ok b :=
  ok_bind_iff.mp (choice_bind.trans hrun)

theorem ok_of_isSome {r : Except ε α} (h : r.toOption.isSome = true) :
    exists a, r = .ok a := by
  cases r with
  | error e => cases h
  | ok a => exact ⟨a, rfl⟩

/-!
# While loops
-/

/-- {lit}`while(c) b`, given up with the error {lit}`e` after {lit}`n` turns. -/
def whileLoop (e : ε) (c : σ -> Bool) (b : σ -> Except ε σ) :
    Nat -> σ -> Except ε σ
  | 0, s => if c s then .error e else .ok s
  | n + 1, s => if c s then b s >>= whileLoop e c b n else .ok s

section WhileLoop

variable {ε σ : Type _} {e : ε} {c : σ -> Bool} {b : σ -> Except ε σ}

theorem whileLoop_done {s : σ} (n : Nat) (h : c s = false) :
    whileLoop e c b n s = .ok s := by
  cases n <;> simp [whileLoop, h]

theorem whileLoop_turn {s t : σ} (n : Nat)
    (hcond : c s = true) (hbody : b s = .ok t) :
    whileLoop e c b (n + 1) s =
      whileLoop e c b n t := by
  simp [whileLoop, hcond, hbody]

theorem whileLoop_fail {s : σ} {f : ε} (n : Nat)
    (hcond : c s = true) (hbody : b s = .error f) :
    whileLoop e c b (n + 1) s = .error f := by
  simp [whileLoop, hcond, hbody]

/-- Any outcome but {lit}`e` is kept by more fuel. -/
theorem whileLoop_fuel_mono {r : Except ε σ} {n m : Nat} {s : σ}
    (hrun : whileLoop e c b n s = r) (hr : r ≠ .error e)
    (hle : n ≤ m) :
    whileLoop e c b m s = r := by
  induction n generalizing m s with
  | zero =>
      cases hcond : c s with
      | false =>
          rw [whileLoop_done m hcond, ← hrun, whileLoop_done 0 hcond]
      | true =>
          exact absurd (by simpa [whileLoop, hcond] using hrun.symm) hr
  | succ n ih =>
      cases m with
      | zero => omega
      | succ m =>
          cases hcond : c s with
          | false =>
              rw [whileLoop_done (m + 1) hcond, ← hrun,
                whileLoop_done (n + 1) hcond]
          | true =>
              cases hbody : b s with
              | error f =>
                  rw [whileLoop_fail m hcond hbody, ← hrun,
                    whileLoop_fail n hcond hbody]
              | ok s' =>
                  rw [whileLoop_turn n hcond hbody] at hrun
                  rw [whileLoop_turn m hcond hbody]
                  exact ih hrun (by omega)

/-- Partial correctness: an invariant of the turns holds at the exit. -/
theorem whileLoop_invariant {I : σ -> Prop} {n : Nat} {s s' : σ}
    (hstep : forall s s', I s -> c s = true -> b s = .ok s' -> I s')
    (hrun : whileLoop e c b n s = .ok s') (hs : I s) :
    I s' ∧ c s' = false := by
  induction n generalizing s with
  | zero =>
      cases hcond : c s with
      | false =>
          rw [whileLoop_done 0 hcond] at hrun
          cases hrun
          exact ⟨hs, hcond⟩
      | true => simp [whileLoop, hcond] at hrun
  | succ n ih =>
      cases hcond : c s with
      | false =>
          rw [whileLoop_done (n + 1) hcond] at hrun
          cases hrun
          exact ⟨hs, hcond⟩
      | true =>
          cases hbody : b s with
          | error f =>
              rw [whileLoop_fail n hcond hbody] at hrun
              cases hrun
          | ok s₁ =>
              rw [whileLoop_turn n hcond hbody] at hrun
              exact ih hrun (hstep s s₁ hs hcond hbody)

/-- Total correctness: turns that keep the invariant and lower the measure
bring the loop to its exit. -/
theorem whileLoop_total {I : σ -> Prop} (μ : σ -> Nat)
    (hstep : forall s, I s -> c s = true ->
      exists s', b s = .ok s' ∧ I s' ∧ μ s' < μ s)
    {n : Nat} {s : σ} (hs : I s) (hn : μ s ≤ n) :
    exists s', whileLoop e c b n s = .ok s' ∧ I s' ∧
      c s' = false := by
  induction n generalizing s with
  | zero =>
      cases hcond : c s with
      | false => exact ⟨s, whileLoop_done 0 hcond, hs, hcond⟩
      | true =>
          obtain ⟨s', _, _, hlt⟩ := hstep s hs hcond
          omega
  | succ n ih =>
      cases hcond : c s with
      | false => exact ⟨s, whileLoop_done (n + 1) hcond, hs, hcond⟩
      | true =>
          obtain ⟨s', hbody, hs', hlt⟩ := hstep s hs hcond
          obtain ⟨t, ht, hI, hexit⟩ := ih hs' (by omega)
          exact ⟨t, by rw [whileLoop_turn n hcond hbody]; exact ht, hI, hexit⟩

/-- The same of turns that may also stop with an error of a kind. -/
theorem whileLoop_outcome {I : σ -> Prop} {F : ε -> Prop} (μ : σ -> Nat)
    (hstep : forall s, I s -> c s = true ->
      (exists f, b s = .error f ∧ F f) ∨
        exists s', b s = .ok s' ∧ I s' ∧ μ s' < μ s)
    {n : Nat} {s : σ} (hs : I s) (hn : μ s < n) :
    (exists f, whileLoop e c b n s = .error f ∧ F f) ∨
      exists s', whileLoop e c b n s = .ok s' ∧ I s' ∧ c s' = false := by
  induction n generalizing s with
  | zero => omega
  | succ n ih =>
      cases hcond : c s with
      | false => exact Or.inr ⟨s, whileLoop_done (n + 1) hcond, hs, hcond⟩
      | true =>
          rcases hstep s hs hcond with ⟨f, hbody, hf⟩ | ⟨s', hbody, hs', hlt⟩
          · exact Or.inl ⟨f, whileLoop_fail n hcond hbody, hf⟩
          · rw [whileLoop_turn n hcond hbody]
            exact ih hs' (by omega)

/-- An invariant under which the condition never fails keeps the loop going. -/
theorem whileLoop_diverges {I : σ -> Prop}
    (hcond : forall s, I s -> c s = true)
    (hstep : forall s, I s -> exists s', b s = .ok s' ∧ I s')
    (n : Nat) {s : σ} (hs : I s) :
    whileLoop e c b n s = .error e := by
  induction n generalizing s with
  | zero => simp [whileLoop, hcond s hs]
  | succ n ih =>
      obtain ⟨s', hbody, hs'⟩ := hstep s hs
      rw [whileLoop_turn n (hcond s hs) hbody]
      exact ih hs'

/-- A loop whose turns never fail ends when the condition fails at one of the
states that its turns lead to. -/
theorem whileLoop_iterate {f : σ -> σ} (n : Nat) (s : σ) :
    (exists s', whileLoop e c (fun s => .ok (f s)) n s = .ok s') <->
      exists k, k ≤ n ∧ c (f^[k] s) = false := by
  induction n generalizing s with
  | zero =>
      cases hcond : c s with
      | false =>
          exact iff_of_true ⟨s, whileLoop_done 0 hcond⟩ ⟨0, Nat.le_refl 0, hcond⟩
      | true =>
          refine iff_of_false ?_ ?_
          · rintro ⟨s', hrun⟩
            unfold whileLoop at hrun
            rw [hcond, if_pos rfl] at hrun
            cases hrun
          · rintro ⟨k, hk, hexit⟩
            rw [Nat.le_zero.mp hk] at hexit
            exact Bool.false_ne_true (hexit.symm.trans hcond)
  | succ n ih =>
      cases hcond : c s with
      | false =>
          exact iff_of_true ⟨s, whileLoop_done (n + 1) hcond⟩
            ⟨0, Nat.zero_le _, hcond⟩
      | true =>
          have hturn : whileLoop e c (fun s => .ok (f s)) (n + 1) s =
              whileLoop e c (fun s => .ok (f s)) n (f s) :=
            whileLoop_turn n hcond rfl
          rw [hturn, ih]
          constructor
          · rintro ⟨k, hk, hexit⟩
            exact ⟨k + 1, Nat.succ_le_succ hk, hexit⟩
          · rintro ⟨k, hk, hexit⟩
            cases k with
            | zero => exact absurd (hexit.symm.trans hcond) Bool.false_ne_true
            | succ k => exact ⟨k, Nat.le_of_succ_le_succ hk, hexit⟩

/-- A loop that goes through a sequence of states ends at the first one of them
at which the condition fails. -/
theorem whileLoop_sequence {u : Nat -> σ} (hstep : forall j, b (u j) = .ok (u (j + 1)))
    {k n : Nat} (hgo : forall j, j < k -> c (u j) = true) (hend : c (u k) = false)
    (hn : k ≤ n) : whileLoop e c b n (u 0) = .ok (u k) := by
  induction k generalizing u n with
  | zero => exact whileLoop_done n hend
  | succ k ih =>
      cases n with
      | zero => exact absurd hn (Nat.not_succ_le_zero k)
      | succ n =>
          rw [whileLoop_turn n (hgo 0 (Nat.succ_pos k)) (hstep 0)]
          exact ih (fun j => hstep (j + 1)) (fun j hj => hgo (j + 1) (Nat.succ_lt_succ hj))
            hend (Nat.le_of_succ_le_succ hn)

/-- Two loops whose turns keep a relation end in related states. -/
theorem whileLoop_related {τ : Type _} {d : τ -> Bool} {b' : τ -> Except ε τ}
    {R : σ -> τ -> Prop} (hcond : forall s t, R s t -> c s = d t)
    (hstep : forall s t s', R s t -> c s = true -> b s = .ok s' ->
      exists t', b' t = .ok t' ∧ R s' t')
    {n : Nat} {s s' : σ} {t : τ} (hst : R s t)
    (hrun : whileLoop e c b n s = .ok s') :
    exists t', whileLoop e d b' n t = .ok t' ∧ R s' t' := by
  induction n generalizing s t with
  | zero =>
      have hd := hcond s t hst
      cases hc : c s with
      | false =>
          rw [whileLoop_done 0 hc] at hrun
          cases hrun
          exact ⟨t, whileLoop_done 0 (hd.symm.trans hc), hst⟩
      | true => simp [whileLoop, hc] at hrun
  | succ n ih =>
      have hd := hcond s t hst
      cases hc : c s with
      | false =>
          rw [whileLoop_done (n + 1) hc] at hrun
          cases hrun
          exact ⟨t, whileLoop_done (n + 1) (hd.symm.trans hc), hst⟩
      | true =>
          cases hbody : b s with
          | error f =>
              rw [whileLoop_fail n hc hbody] at hrun
              cases hrun
          | ok s₁ =>
              rw [whileLoop_turn n hc hbody] at hrun
              rcases hstep s t s₁ hst hc hbody with ⟨t₁, hbody', h₁⟩
              rcases ih h₁ hrun with ⟨t', hrun', h'⟩
              refine ⟨t', ?_, h'⟩
              rw [whileLoop_turn n (hd.symm.trans hc) hbody']
              exact hrun'

/-- A loop whose turns do what those of another one do, or stop with an error of a
kind, ends where the other one ends, or stops with such an error. -/
theorem whileLoop_follows {τ : Type _} {d : τ -> Bool} {b' : τ -> Except ε τ}
    {R : σ -> τ -> Prop} {F : ε -> Prop}
    (hcond : forall s t, R s t -> c s = d t)
    (hstep : forall s t t', R s t -> d t = true -> b' t = .ok t' ->
      (exists f, b s = .error f ∧ F f) ∨ exists s', b s = .ok s' ∧ R s' t')
    {n : Nat} {s : σ} {t t' : τ} (hst : R s t)
    (hrun : whileLoop e d b' n t = .ok t') :
    (exists f, whileLoop e c b n s = .error f ∧ F f) ∨
      exists s', whileLoop e c b n s = .ok s' ∧ R s' t' := by
  induction n generalizing s t with
  | zero =>
      have hd := hcond s t hst
      cases hc : d t with
      | false =>
          rw [whileLoop_done 0 hc] at hrun
          cases hrun
          exact Or.inr ⟨s, whileLoop_done 0 (hd.trans hc), hst⟩
      | true => simp [whileLoop, hc] at hrun
  | succ n ih =>
      have hd := hcond s t hst
      cases hc : d t with
      | false =>
          rw [whileLoop_done (n + 1) hc] at hrun
          cases hrun
          exact Or.inr ⟨s, whileLoop_done (n + 1) (hd.trans hc), hst⟩
      | true =>
          cases hbody : b' t with
          | error f =>
              rw [whileLoop_fail n hc hbody] at hrun
              cases hrun
          | ok t₁ =>
              rw [whileLoop_turn n hc hbody] at hrun
              rcases hstep s t t₁ hst hc hbody with
                ⟨f, hfail, hf⟩ | ⟨s₁, hbody', h₁⟩
              · exact Or.inl ⟨f, whileLoop_fail n (hd.trans hc) hfail, hf⟩
              · rw [whileLoop_turn n (hd.trans hc) hbody']
                exact ih h₁ hrun

/-- Two loops whose conditions agree in the states of an invariant. -/
theorem whileLoop_agree {I : σ -> Prop} {d : σ -> Bool}
    (hcond : forall s, I s -> d s = c s)
    (hstep : forall s s', I s -> c s = true -> b s = .ok s' -> I s') (n : Nat) {s : σ}
    (hs : I s) : whileLoop e d b n s = whileLoop e c b n s := by
  induction n generalizing s with
  | zero =>
      unfold whileLoop
      rw [hcond s hs]
  | succ n ih =>
      unfold whileLoop
      rw [hcond s hs]
      cases hc : c s with
      | false => rfl
      | true =>
          cases hbody : b s with
          | error f => rfl
          | ok s' => exact ih (hstep s s' hs hc hbody)

theorem whileLoop_map {τ : Type _} {d : τ -> Bool} {b' : τ -> Except ε τ}
    (g : σ -> τ) (hcond : forall s, d (g s) = c s)
    (hbody : forall s, b' (g s) = b s >>= fun s' => .ok (g s')) (n : Nat) (s : σ) :
    whileLoop e d b' n (g s) = whileLoop e c b n s >>= fun s' => .ok (g s') := by
  induction n generalizing s with
  | zero =>
      unfold whileLoop
      rw [hcond]
      split <;> rfl
  | succ n ih =>
      unfold whileLoop
      rw [hcond]
      split
      · rw [hbody]
        cases b s with
        | error f => rfl
        | ok s' => exact ih s'
      · rfl

/-- Loops that start in the states of a family go together: when the conditions
of a family agree and its turns keep an invariant or stop with one error, the
loops end in a family with the invariant or stop with one error. -/
theorem whileLoop_family {ι : Type _} {I : (ι -> σ) -> Prop}
    (hcond : forall xs, I xs ->
      (forall i, c (xs i) = true) ∨ forall i, c (xs i) = false)
    (hstep : forall xs, I xs -> (forall i, c (xs i) = true) ->
      (exists f, forall i, b (xs i) = .error f) ∨
        exists ys, (forall i, b (xs i) = .ok (ys i)) ∧ I ys)
    (n : Nat) {xs : ι -> σ} (hxs : I xs) :
    (exists f, forall i, whileLoop e c b n (xs i) = .error f) ∨
      exists ys, (forall i, whileLoop e c b n (xs i) = .ok (ys i)) ∧ I ys := by
  induction n generalizing xs with
  | zero =>
      rcases hcond xs hxs with hgoes | hstops
      · left
        exists e
        intro i
        simp [whileLoop, hgoes i]
      · exact Or.inr ⟨xs, fun i => whileLoop_done 0 (hstops i), hxs⟩
  | succ n ih =>
      rcases hcond xs hxs with hgoes | hstops
      · rcases hstep xs hxs hgoes with ⟨f, hfail⟩ | ⟨ys, hturn, hys⟩
        · exact Or.inl ⟨f, fun i => whileLoop_fail n (hgoes i) (hfail i)⟩
        · rcases ih hys with ⟨f, hfail⟩ | ⟨zs, hrun, hzs⟩
          · left
            exists f
            intro i
            rw [whileLoop_turn n (hgoes i) (hturn i)]
            exact hfail i
          · right
            refine ⟨zs, ?_, hzs⟩
            intro i
            rw [whileLoop_turn n (hgoes i) (hturn i)]
            exact hrun i
      · exact Or.inr ⟨xs, fun i => whileLoop_done (n + 1) (hstops i), hxs⟩

/-- A loop that starts in one state comes to another one, by turns that begin in
the states of a list. -/
inductive Turns (c : σ -> Bool) (b : σ -> Except ε σ) : σ -> List σ -> σ -> Prop where
  | none (s : σ) : Turns c b s [] s
  | turn {s s' t : σ} {xs : List σ} :
      c s = true -> b s = .ok s' -> Turns c b s' xs t -> Turns c b s (s :: xs) t

theorem Turns.whileLoop {s t : σ} {xs : List σ} (h : Turns c b s xs t) (n : Nat) :
    whileLoop e c b (xs.length + n) s = whileLoop e c b n t := by
  induction h with
  | none s => rw [List.length_nil, Nat.zero_add]
  | @turn s s' t xs hcond hbody _ ih =>
      rw [List.length_cons, Nat.add_right_comm, whileLoop_turn _ hcond hbody, ih]

/-- What every turn keeps, the states that the loop comes to have. -/
theorem Turns.invariant {I : σ -> Prop} {s t : σ} {xs : List σ}
    (hstep : forall s s', I s -> c s = true -> b s = .ok s' -> I s')
    (h : Turns c b s xs t) (hs : I s) : I t := by
  induction h with
  | none s => exact hs
  | @turn s s' t xs hcond hbody _ ih => exact ih (hstep s s' hs hcond hbody)

/-- What holds of the two ends of every turn, neighbouring states have. -/
theorem Turns.chain {R : σ -> σ -> Prop} {s t : σ} {xs : List σ}
    (hstep : forall s s', c s = true -> b s = .ok s' -> R s s')
    (h : Turns c b s xs t) : (xs ++ [t]).IsChain R := by
  induction h with
  | none s => exact List.IsChain.singleton s
  | @turn s s' t xs hcond hbody hturns ih =>
      have hpair := hstep s s' hcond hbody
      cases hturns with
      | none => exact List.IsChain.cons_cons hpair ih
      | turn _ _ _ => exact List.IsChain.cons_cons hpair ih

end WhileLoop

/-!
# Orbits

A sequence over a finite type in which every value determines the next one
meets what it ever meets within as many steps as the type has values.
-/

section Orbit

variable {α : Type _} {u : Nat -> α}

theorem orbit_shift (hu : forall i j, u i = u j -> u (i + 1) = u (j + 1))
    {i j : Nat} (h : u i = u j) (k : Nat) : u (i + k) = u (j + k) := by
  induction k with
  | zero => exact h
  | succ k ih => exact hu (i + k) (j + k) ih

theorem orbit_first [Fintype α]
    (hu : forall i j, u i = u j -> u (i + 1) = u (j + 1))
    {p : α -> Prop} {k : Nat} (hk : p (u k)) :
    exists i, i ≤ k ∧ i < Fintype.card α ∧ p (u i) ∧
      forall j, j < i -> ¬ p (u j) := by
  classical
  have hex : exists i, p (u i) := ⟨k, hk⟩
  have hmin : forall j, j < Nat.find hex -> ¬ p (u j) :=
    fun j hj => Nat.find_min hex hj
  refine ⟨Nat.find hex, Nat.find_min' hex hk, ?_, Nat.find_spec hex, hmin⟩
  have hne : forall i j, i < j -> j ≤ Nat.find hex -> u i ≠ u j := by
    intro i j hij hj heq
    have hback := orbit_shift hu heq (Nat.find hex - j)
    rw [Nat.add_sub_cancel' hj] at hback
    apply hmin (i + (Nat.find hex - j)) (by omega)
    rw [hback]
    exact Nat.find_spec hex
  have hinj : Function.Injective fun i : Fin (Nat.find hex + 1) => u i := by
    intro i j heq
    rcases Nat.lt_trichotomy i j with hlt | hsame | hgt
    · exact absurd heq (hne i j hlt (Nat.le_of_lt_succ j.isLt))
    · exact Fin.ext hsame
    · exact absurd heq.symm (hne j i hgt (Nat.le_of_lt_succ i.isLt))
  have hcard := Fintype.card_le_of_injective _ hinj
  rw [Fintype.card_fin] at hcard
  omega

end Orbit

/-!
# Loops over a list
-/

/-- What every turn of a loop over a list keeps, the loop keeps. -/
theorem foldlM_invariant {ε σ ι : Type _} {f : σ -> ι -> Except ε σ}
    {I : σ -> Prop} {is : List ι} {s s' : σ}
    (hstep : forall i, i ∈ is -> forall s s', I s -> f s i = .ok s' -> I s')
    (hrun : is.foldlM f s = .ok s') (hs : I s) : I s' := by
  induction is generalizing s with
  | nil =>
      cases hrun
      exact hs
  | cons i rest ih =>
      rw [List.foldlM_cons] at hrun
      rcases ok_bind_iff.mp hrun with ⟨s₁, hturn, hrest⟩
      exact ih (fun j hj => hstep j (List.mem_cons_of_mem i hj)) hrest
        (hstep i List.mem_cons_self s s₁ hs hturn)

/-!
# Errors that do not occur
-/

/-- A computation that fails, if it does, with none of certain errors. -/
def Avoids (bad : ε -> Prop) (r : Except ε α) : Prop :=
  forall e, r = .error e -> ¬ bad e

section Avoids

variable {ε σ α β ι : Type _} {bad : ε -> Prop}

theorem avoids_ok (a : α) : Avoids bad (.ok a : Except ε α) := by
  intro e he
  cases he

theorem avoids_error {e : ε} (he : ¬ bad e) :
    Avoids bad (.error e : Except ε α) := by
  intro f hf
  cases hf
  exact he

theorem avoids_bind {x : Except ε α} {f : α -> Except ε β} (hx : Avoids bad x)
    (hf : forall a, x = .ok a -> Avoids bad (f a)) : Avoids bad (x >>= f) := by
  intro e he
  rcases error_bind_iff.mp he with hxe | ⟨a, ha, hfe⟩
  · exact hx e hxe
  · exact hf a ha e hfe

theorem avoids_whileLoop {e : ε} {c : σ -> Bool} {b : σ -> Except ε σ}
    (he : ¬ bad e) (hbody : forall s, Avoids bad (b s)) (n : Nat) (s : σ) :
    Avoids bad (whileLoop e c b n s) := by
  induction n generalizing s with
  | zero =>
      unfold whileLoop
      split
      · exact avoids_error he
      · exact avoids_ok s
  | succ n ih =>
      unfold whileLoop
      split
      · exact avoids_bind (hbody s) fun s' _ => ih s'
      · exact avoids_ok s

theorem avoids_foldlM {f : σ -> ι -> Except ε σ}
    (hturn : forall s i, Avoids bad (f s i)) (is : List ι) (s : σ) :
    Avoids bad (is.foldlM f s) := by
  induction is generalizing s with
  | nil => exact avoids_ok s
  | cons i rest ih =>
      rw [List.foldlM_cons]
      exact avoids_bind (hturn s i) fun s' _ => ih s'

end Avoids

/-!
# Reachable states
-/

/-- The states a step relation reaches from its initial states. -/
inductive Reachable (start : σ -> Prop) (step : σ -> σ -> Prop) : σ -> Prop where
  | start {s : σ} : start s -> Reachable start step s
  | step {s s' : σ} : Reachable start step s -> step s s' ->
      Reachable start step s'

/-- What the initial states have and every step keeps, every reachable state
has. -/
theorem Reachable.invariant {start I : σ -> Prop} {step : σ -> σ -> Prop}
    (hstart : forall s, start s -> I s)
    (hstep : forall s s', I s -> step s s' -> I s')
    {s : σ} (hs : Reachable start step s) : I s := by
  induction hs with
  | start h => exact hstart _ h
  | step _ h ih => exact hstep _ _ ih h

/-!
# Traces
-/

/-- A run from one state to another, with what its steps show. -/
inductive Trace {σ α : Type _} (step : σ -> α -> σ -> Prop) :
    σ -> List α -> σ -> Prop where
  | none (s : σ) : Trace step s [] s
  | step {s s' t : σ} {a : α} {as : List α} : step s a s' ->
      Trace step s' as t -> Trace step s (a :: as) t

section Traces

variable {σ τ α : Type _} {step : σ -> α -> σ -> Prop}
  {step' : τ -> α -> τ -> Prop} {R : σ -> τ -> Prop}

/-- Where every step of one system is one of another system between related
states, so is every run. -/
theorem Trace.refines
    (hstep : forall s a s' t, R s t -> step s a s' ->
      exists t', step' t a t' ∧ R s' t')
    {s s' : σ} {t : τ} {as : List α} (hst : R s t) (h : Trace step s as s') :
    exists t', Trace step' t as t' ∧ R s' t' := by
  induction h generalizing t with
  | none s => exact ⟨t, .none t, hst⟩
  | @step s u s' a as hfirst _ ih =>
      rcases hstep s a u t hst hfirst with ⟨v, hv, huv⟩
      rcases ih huv with ⟨t', hrest, h'⟩
      exact ⟨t', .step hv hrest, h'⟩

end Traces

end Library
end Rmmtos
