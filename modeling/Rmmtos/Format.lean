import Rmmtos.Printf
import Rmmtos.Init.Command

/-!
# Formats

{lit}`vprintf` of {lit}`printf.c`.  A format is a list of pieces, each of which is
printed by one turn of the loop.  Every argument has a word on the stack, but
{lit}`va_arg` steps over a single byte of it when the argument is a {lit}`char`.  The
device does not write to the memory of the format, the arguments and their strings.
-/

namespace Rmmtos

open Library
open Init (UserMem readw HoldsString stringAt holdsString_stringAt)

/-- How a conversion calls {lit}`putuint`.  A fill character counts as a zero when the
number is read back. -/
structure NumberFormat where
  base : Nat
  totalnums : Nat
  fillchar : Byte
  two_le : 2 ≤ base
  le_sixteen : base ≤ 16
  width : totalnums ≤ 127
  fill : digitValue fillchar = 0

/-- What a turn of the loop prints. -/
inductive Piece where
  | literal (c : Byte)
  | number (f : NumberFormat)
  | string
  | char
  | nothing

/-- The cases {lit}`d`, {lit}`s`, {lit}`b`, {lit}`c`, {lit}`h`, {lit}`x`, {lit}`a` and
{lit}`%` of the switch. -/
def conversion (c : Byte) : Piece :=
  if c = 0x64 then .number ⟨10, 0, 0x20, by decide, by decide, by decide, by decide⟩
  else if c = 0x73 then .string
  else if c = 0x62 then .number ⟨2, 8, 0x30, by decide, by decide, by decide, by decide⟩
  else if c = 0x63 then .char
  else if c = 0x68 then .number ⟨16, 4, 0x20, by decide, by decide, by decide, by decide⟩
  else if c = 0x78 then .number ⟨16, 4, 0x30, by decide, by decide, by decide, by decide⟩
  else if c = 0x61 then .number ⟨16, 2, 0x30, by decide, by decide, by decide, by decide⟩
  else if c = 0x25 then .literal 0x25
  else .nothing

structure Printing (σ : Type) where
  out : σ
  fmt : Word
  list : Word

section Vprintf

variable {σ : Type} (putch : σ -> Byte -> σ) (m : UserMem)

def puts (str : Word) (s : σ) : Result σ := do
  let x ← whileLoop .hang (fun x : σ × Word => m x.2 != 0)
    (fun x => .ok (putch x.1 (m x.2), x.2 + 1)) wordCount (s, str)
  .ok x.1

def printPiece (list : Word) (s : σ) : Piece -> Result (σ × Word)
  | .literal c => .ok (putch s c, list)
  | .number f => do
      let s ← putuint putch (readw m list) (BitVec.ofNat 8 f.base)
        (BitVec.ofNat 8 f.totalnums) f.fillchar s
      .ok (s, list + 2)
  | .string => do
      let s ← puts putch m (readw m list) s
      .ok (s, list + 2)
  | .char => .ok (putch s (m list), list + 1)
  | .nothing => .ok (s, list)

def vprintfTurn (x : Printing σ) : Result (Printing σ) :=
  if m x.fmt = 0x25 then
    if m (x.fmt + 1) = 0 then .ok { x with fmt := x.fmt + 1 }
    else do
      let (out, list) ← printPiece putch m x.list x.out (conversion (m (x.fmt + 1)))
      .ok ⟨out, x.fmt + 1 + 1, list⟩
  else .ok ⟨putch x.out (m x.fmt), x.fmt + 1, x.list⟩

def vprintfGoes (x : Printing σ) : Bool :=
  m x.fmt != 0

def vprintf (fmt list : Word) (s : σ) : Result σ := do
  let x ← whileLoop .hang (vprintfGoes m) (vprintfTurn putch m) wordCount ⟨s, fmt, list⟩
  .ok x.out

end Vprintf

/-!
# The text of a format
-/

/-- The pieces of a format.  Nothing is printed for a last percent sign. -/
def pieces : List Byte -> List Piece
  | [] => []
  | [c] => if c = 0x25 then [.nothing] else [.literal c]
  | c :: k :: cs =>
      if c = 0x25 then conversion k :: pieces cs else .literal c :: pieces (k :: cs)

def Piece.text (m : UserMem) (list : Word) : Piece -> List Byte
  | .literal c => [c]
  | .number f => paddedText f.base f.totalnums f.fillchar (readw m list).toNat
  | .string => stringAt m (readw m list)
  | .char => [m list]
  | .nothing => []

def Piece.takes : Piece -> Bool
  | .number _ | .string | .char => true
  | .literal _ | .nothing => false

/-- The bytes of the arguments that {lit}`va_arg` steps over. -/
def Piece.step : Piece -> Nat
  | .number _ | .string => 2
  | .char => 1
  | .literal _ | .nothing => 0

/-- The bytes of the arguments that are there for a piece. -/
def Piece.slot (d : Piece) : Nat :=
  if d.takes then 2 else 0

def argBytes (size : Piece -> Nat) (ds : List Piece) : Nat :=
  (ds.map size).sum

/-- The text of some pieces, each with the next of the arguments, which have sizes. -/
def formatText (m : UserMem) (size : Piece -> Nat) : List Piece -> Word -> List Byte
  | [], _ => []
  | d :: ds, list => d.text m list ++ formatText m size ds (offsetFrom list (size d))

section Text

theorem pieces_literal {c : Byte} (hc : c ≠ 0x25) (cs : List Byte) :
    pieces (c :: cs) = .literal c :: pieces cs := by
  cases cs with
  | nil => exact if_neg hc
  | cons k cs => exact if_neg hc

theorem pieces_conversion (k : Byte) (cs : List Byte) :
    pieces (0x25 :: k :: cs) = conversion k :: pieces cs :=
  if_pos rfl

theorem pieces_ne_nil (c : Byte) (cs : List Byte) : pieces (c :: cs) ≠ [] := by
  by_cases hc : c = 0x25
  · subst hc
    cases cs with
    | nil => exact List.cons_ne_nil _ _
    | cons k cs =>
        rw [pieces_conversion]
        exact List.cons_ne_nil _ _
  · rw [pieces_literal hc]
    exact List.cons_ne_nil _ _

theorem length_pieces_le (cs : List Byte) : (pieces cs).length ≤ cs.length := by
  fun_induction pieces cs with
  | case1 => exact Nat.le_refl 0
  | case2 | case3 => exact Nat.le_refl 1
  | case4 k cs ih =>
      exact Nat.succ_le_succ (Nat.le_succ_of_le ih)
  | case5 c k cs hc ih => exact Nat.succ_le_succ ih

theorem argBytes_cons (size : Piece -> Nat) (d : Piece) (ds : List Piece) :
    argBytes size (d :: ds) = size d + argBytes size ds := by
  unfold argBytes
  rw [List.map_cons, List.sum_cons]

theorem argBytes_append (size : Piece -> Nat) (ds ds' : List Piece) :
    argBytes size (ds ++ ds') = argBytes size ds + argBytes size ds' := by
  unfold argBytes
  rw [List.map_append, List.sum_append]

theorem formatText_append (m : UserMem) (size : Piece -> Nat) (ds ds' : List Piece)
    (list : Word) :
    formatText m size (ds ++ ds') list = formatText m size ds list ++
      formatText m size ds' (offsetFrom list (argBytes size ds)) := by
  induction ds generalizing list with
  | nil =>
      unfold argBytes
      rw [List.map_nil, List.sum_nil, offsetFrom_none]
      rfl
  | cons d ds ih =>
      rw [List.cons_append, formatText, formatText, ih, offsetFrom_offsetFrom,
        argBytes_cons, List.append_assoc]

theorem formatText_snoc (m : UserMem) (size : Piece -> Nat) (ds : List Piece) (d : Piece)
    (list : Word) :
    formatText m size (ds ++ [d]) list = formatText m size ds list ++
      d.text m (offsetFrom list (argBytes size ds)) := by
  rw [formatText_append, formatText, formatText, List.append_nil]

end Text

/-!
# Strings
-/

section Strings

variable {m : UserMem} {p : Word} {c : Byte} {cs : List Byte}

variable {σ : Type} (putch : σ -> Byte -> σ)

theorem string_printed (h : HoldsString m p cs) {n : Nat} (hn : cs.length ≤ n) (s : σ) :
    whileLoop Stop.hang (fun x : σ × Word => m x.2 != 0)
      (fun x => .ok (putch x.1 (m x.2), x.2 + 1)) n (s, p) =
        .ok (cs.foldl putch s, offsetFrom p cs.length) := by
  induction cs generalizing p s n with
  | nil =>
      rw [List.length_nil, offsetFrom_none]
      refine whileLoop_done n ?_
      rw [h.empty]
      rfl
  | cons c cs ih =>
      cases n with
      | zero => exact absurd hn (Nat.not_succ_le_zero _)
      | succ n =>
          rcases h.first with ⟨hfirst, hne⟩
          have hgoes : (m p != 0) = true := by
            rw [hfirst]
            exact bne_iff_ne.mpr hne
          have hloop := ih h.rest (Nat.le_of_succ_le_succ hn) (putch s c)
          rw [offsetFrom_next, ← hfirst] at hloop
          rw [← hfirst]
          refine (whileLoop_turn n ?_ ?_).trans hloop
          · exact hgoes
          · rfl

theorem puts_eq {a : Word} (hzero : m a = 0) (str : Word) (s : σ) :
    puts putch m str s = .ok ((stringAt m str).foldl putch s) := by
  have h := holdsString_stringAt hzero str
  unfold puts
  rw [string_printed putch h (Nat.le_of_lt h.short), ok_bind]

end Strings

/-!
# The loop
-/

section Loop

variable {m : UserMem} {c : Byte} {cs : List Byte} {σ : Type} {putch : σ -> Byte -> σ}

theorem printPiece_eq {a : Word} (hzero : m a = 0) (list : Word) (s : σ) (d : Piece) :
    printPiece putch m list s d =
      .ok ((d.text m list).foldl putch s, offsetFrom list d.step) := by
  cases d with
  | literal c =>
      unfold Piece.step
      rw [offsetFrom_none]
      rfl
  | number f =>
      unfold printPiece
      dsimp only
      rw [putuint_eq putch f.two_le f.le_sixteen f.width, ok_bind]
      rfl
  | string =>
      unfold printPiece
      dsimp only
      rw [puts_eq putch hzero, ok_bind]
      rfl
  | char => rfl
  | nothing =>
      unfold Piece.step
      rw [offsetFrom_none]
      rfl

theorem vprintf_turn (putch : σ -> Byte -> σ) {x : Printing σ} (h : HoldsString m x.fmt (c :: cs)) :
    exists d cs' j, pieces (c :: cs) = d :: pieces cs' ∧ j + cs'.length = cs.length + 1 ∧
      HoldsString m (offsetFrom x.fmt j) cs' ∧
      vprintfTurn putch m x = .ok ⟨(d.text m x.list).foldl putch x.out,
        offsetFrom x.fmt j, offsetFrom x.list d.step⟩ := by
  rcases h.first with ⟨hfirst, hne⟩
  unfold vprintfTurn
  rw [hfirst]
  by_cases hpercent : c = 0x25
  · rw [if_pos hpercent]
    subst hpercent
    cases cs with
    | nil =>
        rw [if_pos h.rest.empty]
        refine ⟨.nothing, [], 1, rfl, rfl, h.rest, ?_⟩
        unfold Piece.step
        rw [offsetFrom_none]
        rfl
    | cons k cs =>
        have hconversion := h.rest.first
        have hzero := h.finish
        rw [hconversion.1, if_neg hconversion.2, printPiece_eq hzero, ok_bind]
        have hplace : x.fmt + 1 + 1 = offsetFrom x.fmt 2 := offsetFrom_offsetFrom x.fmt 1 1
        refine ⟨conversion k, cs, 2, pieces_conversion k cs, Nat.add_comm _ _, ?_, ?_⟩
        · rw [← hplace]
          exact h.rest.rest
        · dsimp only
          rw [hplace]
  · rw [if_neg hpercent]
    refine ⟨.literal c, cs, 1, pieces_literal hpercent cs, Nat.add_comm _ _, h.rest, ?_⟩
    unfold Piece.step
    rw [offsetFrom_none]
    rfl

structure Followed (putch : σ -> Byte -> σ) (m : UserMem) (cs : List Byte) (x : Printing σ)
    (n : Nat) (t : Printing σ) : Prop where
  count : n ≤ (pieces cs).length
  out : t.out = (formatText m Piece.step ((pieces cs).take n) x.list).foldl putch x.out
  behind : exists cs' i, HoldsString m t.fmt cs' ∧ t.fmt = offsetFrom x.fmt i ∧
    i + cs'.length = cs.length ∧ (pieces cs).drop n = pieces cs'

theorem vprintf_goes_iff {x : Printing σ} (h : HoldsString m x.fmt cs) :
    vprintfGoes m x = true <-> cs ≠ [] := by
  unfold vprintfGoes
  cases cs with
  | nil =>
      rw [h.empty]
      exact iff_of_false (by decide) fun hne => hne rfl
  | cons c cs =>
      rw [h.first.1]
      exact iff_of_true (bne_iff_ne.mpr h.first.2) (List.cons_ne_nil c cs)

theorem turns_followed {x t : Printing σ} {xs : List (Printing σ)}
    (h : Turns (vprintfGoes m) (vprintfTurn putch m) x xs t)
    (hfmt : HoldsString m x.fmt cs) : Followed putch m cs x xs.length t := by
  induction h generalizing cs with
  | none x =>
      exact ⟨Nat.zero_le _, rfl, cs, 0, hfmt, (offsetFrom_none x.fmt).symm,
        Nat.zero_add _, rfl⟩
  | @turn x x' t xs hgoes hturn _ ih =>
      cases cs with
      | nil => exact absurd rfl ((vprintf_goes_iff hfmt).mp hgoes)
      | cons c cs =>
          rcases vprintf_turn putch hfmt with
            ⟨d, cs', j, hpieces, hlength, hrest, hresult⟩
          rw [hresult] at hturn
          cases hturn
          have hlater := ih hrest
          rcases hlater.behind with ⟨cs'', i, hheld, hplace, hleft, hdrop⟩
          refine ⟨?_, ?_, cs'', j + i, hheld, ?_, ?_, ?_⟩
          · rw [hpieces]
            exact Nat.succ_le_succ hlater.count
          · rw [hlater.out, hpieces, List.length_cons, List.take_succ_cons, formatText,
              List.foldl_append]
          · rw [hplace, offsetFrom_offsetFrom]
          · rw [List.length_cons]
            omega
          · rw [hpieces, List.length_cons, List.drop_succ_cons, hdrop]

theorem exists_turns (putch : σ -> Byte -> σ) {x : Printing σ} (hfmt : HoldsString m x.fmt cs) {n : Nat}
    (hn : n ≤ (pieces cs).length) :
    exists xs t, Turns (vprintfGoes m) (vprintfTurn putch m) x xs t ∧ xs.length = n := by
  induction n generalizing x cs with
  | zero => exact ⟨[], x, .none x, rfl⟩
  | succ n ih =>
      cases cs with
      | nil => exact absurd hn (Nat.not_succ_le_zero n)
      | cons c cs =>
          have hgoes := (vprintf_goes_iff hfmt).mpr (List.cons_ne_nil c cs)
          rcases vprintf_turn putch hfmt with
            ⟨d, cs', j, hpieces, _, hrest, hresult⟩
          rw [hpieces, List.length_cons] at hn
          rcases ih (x := ⟨(d.text m x.list).foldl putch x.out, offsetFrom x.fmt j,
              offsetFrom x.list d.step⟩) hrest (Nat.le_of_succ_le_succ hn) with
            ⟨xs, t, hturns, hlength⟩
          exact ⟨x :: xs, t, .turn hgoes hresult hturns, congrArg Nat.succ hlength⟩

/-- The whole format is printed, with the arguments where {lit}`va_arg` finds them. -/
theorem vprintf_eq {fmt : Word} (hfmt : HoldsString m fmt cs) (list : Word) (s : σ) :
    vprintf putch m fmt list s =
      .ok ((formatText m Piece.step (pieces cs) list).foldl putch s) := by
  have hshort : (pieces cs).length ≤ wordCount :=
    Nat.le_of_lt (Nat.lt_of_le_of_lt (length_pieces_le cs) hfmt.short)
  rcases exists_turns putch (x := ⟨s, fmt, list⟩) hfmt (Nat.le_refl _) with
    ⟨xs, t, hturns, hlength⟩
  have hend := turns_followed hturns hfmt
  have hout := hend.out
  rw [hlength, List.take_length] at hout
  have hdone : vprintfGoes m t = false := by
    rcases hend.behind with ⟨cs', _, hheld, _, _, hdrop⟩
    rw [hlength, List.drop_length] at hdrop
    cases cs' with
    | nil =>
        unfold vprintfGoes
        rw [hheld.empty]
        rfl
    | cons c cs' => exact absurd hdrop.symm (pieces_ne_nil c cs')
  have hrun := hturns.whileLoop (e := Stop.hang) (wordCount - xs.length)
  rw [hlength, Nat.add_sub_cancel' hshort, whileLoop_done _ hdone] at hrun
  unfold vprintf
  rw [hrun, ok_bind, hout]

end Loop

end Rmmtos
