import Mathlib.Data.List.GetD
import Mathlib.Tactic

/-!
# Lines

A text is cut into lines at its separators.  A separator ends a line, and what
is behind the last one is a line when there is anything.
-/

namespace Rmmtos
namespace Library

section Lines

variable {α : Type _} [DecidableEq α] {sep c : α} {text rest : List α} {k : Nat}

def linesOf (sep : α) : List α -> List (List α)
  | [] => []
  | c :: rest =>
      if c = sep then [] :: linesOf sep rest
      else (c :: (linesOf sep rest).headD []) :: (linesOf sep rest).tail

def lineOf (sep : α) (text : List α) (k : Nat) : List α :=
  (linesOf sep text).getD k []

def lineStart (sep : α) : List α -> Nat -> Nat
  | _, 0 => 0
  | [], _ + 1 => 0
  | c :: rest, k + 1 =>
      if c = sep then lineStart sep rest k + 1 else lineStart sep rest (k + 1) + 1

def lineEnd (sep : α) (text : List α) (k : Nat) : Nat :=
  lineStart sep text k + (lineOf sep text k).length

/-!
# The first value
-/

theorem linesOf_sep (sep : α) (rest : List α) :
    linesOf sep (sep :: rest) = [] :: linesOf sep rest :=
  if_pos rfl

theorem linesOf_cons (h : c ≠ sep) :
    linesOf sep (c :: rest) =
      (c :: (linesOf sep rest).headD []) :: (linesOf sep rest).tail :=
  if_neg h

theorem lineOf_sep_succ (sep : α) (rest : List α) (k : Nat) :
    lineOf sep (sep :: rest) (k + 1) = lineOf sep rest k := by
  unfold lineOf
  rw [linesOf_sep]
  rfl

theorem lineOf_cons_zero (h : c ≠ sep) :
    lineOf sep (c :: rest) 0 = c :: lineOf sep rest 0 := by
  unfold lineOf
  rw [linesOf_cons h]
  cases linesOf sep rest with
  | nil => rfl
  | cons line lines => rfl

theorem lineOf_cons_succ (h : c ≠ sep) :
    lineOf sep (c :: rest) (k + 1) = lineOf sep rest (k + 1) := by
  unfold lineOf
  rw [linesOf_cons h]
  cases linesOf sep rest with
  | nil => rfl
  | cons line lines => rfl

theorem lineStart_zero (sep : α) (text : List α) : lineStart sep text 0 = 0 := by
  cases text with
  | nil => rfl
  | cons c rest => rfl

theorem lineStart_sep_succ (sep : α) (rest : List α) (k : Nat) :
    lineStart sep (sep :: rest) (k + 1) = lineStart sep rest k + 1 :=
  if_pos rfl

theorem lineStart_cons_succ (h : c ≠ sep) :
    lineStart sep (c :: rest) (k + 1) = lineStart sep rest (k + 1) + 1 :=
  if_neg h

theorem succ_lt_linesOf_cons (h : c ≠ sep) :
    k + 1 < (linesOf sep (c :: rest)).length <-> k + 1 < (linesOf sep rest).length := by
  rw [linesOf_cons h, List.length_cons, List.length_tail]
  omega

theorem linesOf_ne_nil (h : text ≠ []) : 0 < (linesOf sep text).length := by
  cases text with
  | nil => exact absurd rfl h
  | cons c rest =>
      unfold linesOf
      split
      · exact Nat.zero_lt_succ _
      · exact Nat.zero_lt_succ _

/-!
# The lines in the text
-/

theorem length_linesOf_le (sep : α) (text : List α) :
    (linesOf sep text).length ≤ text.count sep + 1 := by
  induction text with
  | nil => exact Nat.zero_le _
  | cons c rest ih =>
      by_cases h : c = sep
      · subst h
        rw [linesOf_sep, List.length_cons, List.count_cons_self]
        exact Nat.succ_le_succ ih
      · rw [linesOf_cons h, List.length_cons, List.length_tail, List.count_cons_of_ne h]
        omega

theorem line_split (hk : k < (linesOf sep text).length) :
    exists before behind, text = before ++ (lineOf sep text k ++ behind) ∧
      before.length = lineStart sep text k := by
  induction text generalizing k with
  | nil => exact absurd hk (Nat.not_lt_zero k)
  | cons c rest ih =>
      by_cases h : c = sep
      · subst h
        cases k with
        | zero => exact ⟨[], c :: rest, by unfold lineOf; rw [linesOf_sep]; rfl, rfl⟩
        | succ k =>
            rw [linesOf_sep, List.length_cons] at hk
            rcases ih (Nat.lt_of_succ_lt_succ hk) with ⟨before, behind, hsplit, hlen⟩
            refine ⟨c :: before, behind, ?_, ?_⟩
            · rw [lineOf_sep_succ, List.cons_append, ← hsplit]
            · rw [lineStart_sep_succ, List.length_cons, hlen]
      · cases k with
        | zero =>
            rw [lineOf_cons_zero h]
            by_cases hrest : rest = []
            · subst hrest
              exact ⟨[], [], rfl, rfl⟩
            · rcases ih (linesOf_ne_nil hrest) with ⟨before, behind, hsplit, hlen⟩
              rw [lineStart_zero] at hlen
              rw [List.eq_nil_of_length_eq_zero hlen, List.nil_append] at hsplit
              refine ⟨[], behind, ?_, rfl⟩
              rw [List.nil_append, List.cons_append, ← hsplit]
        | succ k =>
            rw [succ_lt_linesOf_cons h] at hk
            rcases ih hk with ⟨before, behind, hsplit, hlen⟩
            refine ⟨c :: before, behind, ?_, ?_⟩
            · rw [lineOf_cons_succ h, List.cons_append, ← hsplit]
            · rw [lineStart_cons_succ h, List.length_cons, hlen]

theorem sep_not_mem_lineOf (sep : α) (text : List α) (k : Nat) :
    sep ∉ lineOf sep text k := by
  induction text generalizing k with
  | nil =>
      unfold lineOf linesOf
      rw [List.getD_nil]
      exact List.not_mem_nil
  | cons c rest ih =>
      by_cases h : c = sep
      · subst h
        cases k with
        | zero =>
            unfold lineOf
            rw [linesOf_sep]
            exact List.not_mem_nil
        | succ k =>
            rw [lineOf_sep_succ]
            exact ih k
      · cases k with
        | zero =>
            rw [lineOf_cons_zero h, List.mem_cons, not_or]
            exact ⟨fun heq => h heq.symm, ih 0⟩
        | succ k =>
            rw [lineOf_cons_succ h]
            exact ih (k + 1)

theorem lineStart_succ (hk : k + 1 < (linesOf sep text).length) :
    lineStart sep text (k + 1) = lineEnd sep text k + 1 := by
  unfold lineEnd
  induction text generalizing k with
  | nil => exact absurd hk (Nat.not_lt_zero _)
  | cons c rest ih =>
      by_cases h : c = sep
      · subst h
        rw [linesOf_sep, List.length_cons] at hk
        have hk := Nat.lt_of_succ_lt_succ hk
        rw [lineStart_sep_succ]
        cases k with
        | zero =>
            rw [lineStart_zero, lineStart_zero]
            unfold lineOf
            rw [linesOf_sep]
            rfl
        | succ k =>
            rw [lineStart_sep_succ, lineOf_sep_succ, ih hk]
            omega
      · rw [succ_lt_linesOf_cons h] at hk
        rw [lineStart_cons_succ h, ih hk]
        cases k with
        | zero =>
            rw [lineStart_zero, lineStart_zero, lineOf_cons_zero h, List.length_cons]
            omega
        | succ k =>
            rw [lineStart_cons_succ h, lineOf_cons_succ h]
            omega

/-- Lines are apart, and a separator is between them. -/
theorem lineEnd_lt_lineStart {l : Nat} (hkl : k < l)
    (hl : l < (linesOf sep text).length) :
    lineEnd sep text k < lineStart sep text l := by
  induction l with
  | zero => exact absurd hkl (Nat.not_lt_zero k)
  | succ l ih =>
      rw [lineStart_succ hl]
      rcases Nat.lt_succ_iff_lt_or_eq.mp hkl with hless | rfl
      · have hbefore := ih hless (Nat.lt_of_succ_lt hl)
        unfold lineEnd at hbefore ⊢
        omega
      · exact Nat.lt_succ_self _

theorem lineEnd_le (hk : k < (linesOf sep text).length) :
    lineEnd sep text k ≤ text.length := by
  rcases line_split hk with ⟨before, behind, hsplit, hlen⟩
  have hlength := congrArg List.length hsplit
  rw [List.length_append, List.length_append, hlen] at hlength
  unfold lineEnd
  omega

theorem getD_line (hk : k < (linesOf sep text).length) (d : α) {i : Nat}
    (hi : i < (lineOf sep text k).length) :
    text.getD (lineStart sep text k + i) d = (lineOf sep text k).getD i d := by
  rcases line_split hk with ⟨before, behind, hsplit, hlen⟩
  generalize lineOf sep text k = line at hsplit hi ⊢
  rw [← hlen, hsplit, List.getD_append_right _ _ _ _ (Nat.le_add_right _ _),
    Nat.add_sub_cancel_left, List.getD_append _ _ _ _ hi]

end Lines

end Library
end Rmmtos
