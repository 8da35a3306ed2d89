import Rmmtos.Library.Loop

/-!
# Retries

Requests are made one after the other, and some of them fail.  A request that
fails is made again, until the budget for failures is spent.
-/

namespace Rmmtos
namespace Library

section Retries

variable {fails : Nat -> Prop} [DecidablePred fails] {budget k k' n left : Nat}

/-- {lit}`k` of the first {lit}`n` requests went well, and the rest of them have
left the budget at {lit}`left`. -/
structure Budgeted (fails : Nat -> Prop) [DecidablePred fails]
    (budget k n left : Nat) : Prop where
  requests : n = k + Nat.count fails n
  rest : left + Nat.count fails n = budget
  pos : 0 < left

/-- The budget does not reach to the {lit}`k`-th request that goes well. -/
def Spent (fails : Nat -> Prop) [DecidablePred fails] (budget k : Nat) : Prop :=
  budget ≤ Nat.count fails (k + budget - 1)

theorem budgeted_start (hbudget : 0 < budget) : Budgeted fails budget 0 0 budget :=
  ⟨(Nat.count_zero fails).symm, by rw [Nat.count_zero, Nat.add_zero], hbudget⟩

theorem Spent.mono (h : Spent fails budget k) (hle : k ≤ k') :
    Spent fails budget k' :=
  Nat.le_trans h (Nat.count_monotone fails (by omega))

theorem Budgeted.not_spent (h : Budgeted fails budget k n left) :
    ¬ Spent fails budget k := by
  have hrest := h.rest
  have hpos := h.pos
  have hrequests := h.requests
  -- Behind the requests made so far fewer than the budget's rest can follow.
  rcases Nat.le.dest (show n ≤ k + budget - 1 by omega) with ⟨later, hlater⟩
  have hcount := Nat.count_add fails n later
  have hle := Nat.count_le (p := fun i => fails (n + i)) (n := later)
  unfold Spent
  rw [← hlater, hcount]
  omega

theorem Budgeted.goesWell (h : Budgeted fails budget k n left) (hn : ¬ fails n) :
    Budgeted fails budget (k + 1) (n + 1) left := by
  have hcount : Nat.count fails (n + 1) = Nat.count fails n :=
    Nat.count_succ_eq_count_iff.mpr hn
  have hrequests := h.requests
  refine ⟨?_, ?_, h.pos⟩
  · rw [hcount]
    omega
  · rw [hcount]
    exact h.rest

theorem Budgeted.again (h : Budgeted fails budget k n left) (hn : fails n)
    (hleft : left ≠ 1) : Budgeted fails budget k (n + 1) (left - 1) := by
  have hcount : Nat.count fails (n + 1) = Nat.count fails n + 1 :=
    Nat.count_succ_eq_succ_count_iff.mpr hn
  have hrequests := h.requests
  have hrest := h.rest
  have hpos := h.pos
  refine ⟨?_, ?_, ?_⟩
  · rw [hcount]
    omega
  · rw [hcount]
    omega
  · omega

theorem Budgeted.spends (h : Budgeted fails budget k n left) (hn : fails n)
    (hleft : left = 1) : Spent fails budget (k + 1) := by
  have hcount : Nat.count fails (n + 1) = Nat.count fails n + 1 :=
    Nat.count_succ_eq_succ_count_iff.mpr hn
  have hrequests := h.requests
  have hrest := h.rest
  have hend : k + 1 + budget - 1 = n + 1 := by omega
  unfold Spent
  rw [hend, hcount]
  omega

end Retries

/-!
# Outcomes
-/

section Outcomes

variable {ε α β : Type _} {fails : Nat -> Prop} [DecidablePred fails]
  {budget k k' : Nat} {e : ε}

/-- Up to the {lit}`k`-th request that goes well, either the budget is spent and
the run stops with {lit}`e`, or it ends as {lit}`good` says. -/
def Outcome (fails : Nat -> Prop) [DecidablePred fails] (budget k : Nat) (e : ε)
    (good : Except ε α -> Prop) (x : Except ε α) : Prop :=
  Spent fails budget k ∧ x = .error e ∨ ¬ Spent fails budget k ∧ good x

def Gives (P : α -> Prop) (x : Except ε α) : Prop :=
  exists a, x = .ok a ∧ P a

theorem Outcome.bind {P : α -> Prop} {good : Except ε β -> Prop}
    {x : Except ε α} {f : α -> Except ε β}
    (hx : Outcome fails budget k e (Gives P) x) (hle : k ≤ k')
    (hf : forall a, P a -> Outcome fails budget k' e good (f a)) :
    Outcome fails budget k' e good (x >>= f) := by
  rcases hx with ⟨hspent, rfl⟩ | ⟨_, a, rfl, ha⟩
  · exact Or.inl ⟨hspent.mono hle, rfl⟩
  · exact hf a ha

theorem Outcome.mono {good good' : Except ε α -> Prop} {x : Except ε α}
    (hx : Outcome fails budget k e good x) (h : good x -> good' x) :
    Outcome fails budget k e good' x := by
  rcases hx with ⟨hspent, heq⟩ | ⟨hspent, hgood⟩
  · exact Or.inl ⟨hspent, heq⟩
  · exact Or.inr ⟨hspent, h hgood⟩

end Outcomes

end Library
end Rmmtos
