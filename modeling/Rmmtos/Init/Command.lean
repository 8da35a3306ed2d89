import Rmmtos.Memory
import Rmmtos.Init.Memory
import Mathlib.Data.List.GetD

/-!
# Commands

{lit}`runCommand` of {lit}`init/shell.c` and {lit}`init/present.c` splits a line
at its first blank, in the line's own memory.  The handles that it closes and
opens are in the heap, and the program that it runs has its own segment.
-/

namespace Rmmtos
namespace Init

open Library

/-!
# Strings
-/

def stringAt (m : UserMem) (p : Word) : List Byte :=
  ((List.range wordCount).map fun i => m (offsetFrom p i)).takeWhile (· != 0)

structure HoldsString (m : UserMem) (p : Word) (s : List Byte) : Prop where
  bytes : forall i, i < s.length -> m (offsetFrom p i) = s.getD i 0
  finish : m (offsetFrom p s.length) = 0
  nonzero : 0 ∉ s
  short : s.length < wordCount

def commandOf (s : List Byte) : List Byte :=
  s.takeWhile (· != 0x20)

def argOf (s : List Byte) : List Byte :=
  (s.dropWhile (· != 0x20)).tail

/-!
# Running a command
-/

/-- What a command makes the program do; another program is run with its
argument. -/
inductive Command where
  | exit
  | pause
  | run (command arg : List Byte)
deriving DecidableEq, Repr

/-- The loop that looks for the end of the command, which may not end. -/
def commandEnd (m : UserMem) (command : Word) : Option Nat :=
  (List.range wordCount).find? fun i =>
    m (offsetFrom command i) == 0x20 || m (offsetFrom command i) == 0

structure CutCommand where
  mem : UserMem
  command : List Byte
  arg : List Byte

/-- The memory after the byte at an index has been overwritten, and the strings
before and behind it. -/
def cutAt (m : UserMem) (command : Word) (i : Nat) : CutCommand :=
  let m' := Function.update m (offsetFrom command i) 0
  ⟨m', stringAt m' command, stringAt m' (offsetFrom command (i + 1))⟩

def cutCommand (m : UserMem) (command : Word) : Option CutCommand :=
  (commandEnd m command).map fun i =>
    if m (offsetFrom command i) = 0x20 then cutAt m command i
    else ⟨m, stringAt m command, []⟩

def exitText : List Byte := [0x65, 0x78, 0x69, 0x74]

def pauseText : List Byte := [0x70, 0x61, 0x75, 0x73, 0x65]

def shellRunCommand (m : UserMem) (command : Word) : Option (UserMem × Command) :=
  (cutCommand m command).map fun cut =>
    (cut.mem,
      if cut.command = exitText then .exit
      else if cut.command = pauseText then .pause
      else .run cut.command cut.arg)

def presentRunCommand (m : UserMem) (command : Word) : Option (UserMem × Command) :=
  (cutCommand m command).map fun cut =>
    (cut.mem, if cut.command = exitText then .exit else .run cut.command cut.arg)

section Strings

variable {m : UserMem} {p : Word} {s : List Byte}

theorem takeWhile_range {α : Type _} {f : Nat -> α} {q : α -> Bool} {n k : Nat}
    (hk : k < n) (hstop : q (f k) = false) (hgo : forall i, i < k -> q (f i) = true) :
    ((List.range n).map f).takeWhile q = (List.range k).map f := by
  have hsplit : List.range n = List.range k ++ List.range' k (n - k) := by
    rw [List.range_eq_range', List.range_eq_range',
      show n = k + (n - k) by omega, ← List.range'_append_1]
    rw [Nat.zero_add, Nat.add_sub_cancel_left]
  have hbehind : List.range' k (n - k) = k :: List.range' (k + 1) (n - k - 1) := by
    rw [show n - k = (n - k - 1) + 1 by omega, List.range'_succ]
    rfl
  rw [hsplit, hbehind, List.map_append, List.map_cons, List.takeWhile_append_of_pos,
    List.takeWhile_cons_of_neg, List.append_nil]
  · rw [hstop]
    exact Bool.false_ne_true
  · intro x hx
    rcases List.mem_map.mp hx with ⟨i, hi, rfl⟩
    exact hgo i (List.mem_range.mp hi)

theorem takeWhile_range_nil {α : Type _} {f : Nat -> α} {q : α -> Bool} {n : Nat}
    (hn : 0 < n) (h : ((List.range n).map f).takeWhile q = []) : q (f 0) = false := by
  by_contra hgo
  rw [Bool.not_eq_false] at hgo
  cases n with
  | zero => exact absurd hn (Nat.lt_irrefl 0)
  | succ n =>
      rw [List.range_succ_eq_map, List.map_cons, List.takeWhile_cons_of_pos hgo] at h
      cases h

theorem map_range_getD (s : List Byte) :
    (List.range s.length).map (fun i => s.getD i 0) = s := by
  apply List.ext_getElem
  · rw [List.length_map, List.length_range]
  · intro i hi hi'
    rw [List.getElem_map, List.getElem_range, List.getD_eq_getElem _ _ hi']

theorem getD_mem {i : Nat} (h : i < s.length) : s.getD i 0 ∈ s := by
  rw [List.getD_eq_getElem _ _ h]
  exact List.getElem_mem h

theorem HoldsString.stringAt (h : HoldsString m p s) : stringAt m p = s := by
  have hgo : forall i, i < s.length -> (m (offsetFrom p i) != 0) = true := by
    intro i hi
    rw [h.bytes i hi, bne_iff_ne]
    intro hzero
    exact h.nonzero (hzero ▸ getD_mem hi)
  have hstop : (m (offsetFrom p s.length) != 0) = false := by
    rw [h.finish]
    rfl
  unfold Init.stringAt
  rw [takeWhile_range (f := fun i => m (offsetFrom p i)) h.short hstop hgo]
  refine (List.map_congr_left fun i hi => ?_).trans (map_range_getD s)
  exact h.bytes i (List.mem_range.mp hi)

theorem HoldsString.empty (h : HoldsString m p []) : m p = 0 := by
  have hfinish := h.finish
  rw [List.length_nil, offsetFrom_none] at hfinish
  exact hfinish

theorem HoldsString.first {c : Byte} (h : HoldsString m p (c :: s)) : m p = c ∧ c ≠ 0 := by
  have hfirst := h.bytes 0 (Nat.succ_pos _)
  rw [offsetFrom_none] at hfirst
  refine ⟨hfirst, fun hc => h.nonzero ?_⟩
  rw [hc]
  exact List.mem_cons_self

theorem HoldsString.rest {c : Byte} (h : HoldsString m p (c :: s)) : HoldsString m (p + 1) s := by
  refine ⟨?_, ?_, ?_, Nat.lt_of_succ_lt h.short⟩
  · intro i hi
    rw [offsetFrom_next]
    exact h.bytes (i + 1) (Nat.succ_lt_succ hi)
  · rw [offsetFrom_next]
    exact h.finish
  · intro hzero
    exact h.nonzero (List.mem_cons_of_mem c hzero)

theorem holdsString_stringAt {a : Word} (hzero : m a = 0) (p : Word) :
    HoldsString m p (stringAt m p) := by
  classical
  have hplace : m (offsetFrom p (a - p).toNat) = 0 := by
    have hsame : offsetFrom p (a - p).toNat = a := by
      unfold offsetFrom
      bv_omega
    rw [hsame]
    exact hzero
  have hex : exists k, m (offsetFrom p k) = 0 := ⟨_, hplace⟩
  have hshort : Nat.find hex < wordCount :=
    Nat.lt_of_le_of_lt (Nat.find_min' hex hplace) (a - p).isLt
  have htext : stringAt m p = (List.range (Nat.find hex)).map fun i => m (offsetFrom p i) :=
    takeWhile_range (f := fun i => m (offsetFrom p i)) hshort
      (by rw [Nat.find_spec hex]; rfl)
      fun i hi => bne_iff_ne.mpr (Nat.find_min hex hi)
  have hlength : (stringAt m p).length = Nat.find hex := by
    rw [htext, List.length_map, List.length_range]
  refine ⟨?_, ?_, ?_, ?_⟩
  · intro i hi
    rw [hlength] at hi
    rw [htext, List.getD_eq_getElem _ _ (by rw [List.length_map, List.length_range]; exact hi),
      List.getElem_map, List.getElem_range]
  · rw [hlength]
    exact Nat.find_spec hex
  · rw [htext]
    intro hmem
    rcases List.mem_map.mp hmem with ⟨i, hi, heq⟩
    exact Nat.find_min hex (List.mem_range.mp hi) heq
  · rw [hlength]
    exact hshort

theorem holdsString_of_bytes
    (hbytes : forall i, i < s.length -> m (offsetFrom p i) = s.getD i 0)
    (hfinish : s ≠ [] -> m (offsetFrom p s.length) = 0) (hshort : s.length < wordCount)
    (hnonzero : forall i, i < s.length -> m (offsetFrom p i) ≠ 0)
    (hempty : s = [] -> m (offsetFrom p 0) = 0) : HoldsString m p s := by
  refine ⟨hbytes, ?_, ?_, hshort⟩
  · by_cases hs : s = []
    · rw [hs]
      exact hempty hs
    · exact hfinish hs
  · intro hzero
    rcases List.mem_iff_getElem.mp hzero with ⟨i, hi, heq⟩
    apply hnonzero i hi
    rw [hbytes i hi, List.getD_eq_getElem _ _ hi, heq]

theorem stringAt_eq_iff (hbytes : forall i, i < s.length -> m (offsetFrom p i) = s.getD i 0)
    (hfinish : s ≠ [] -> m (offsetFrom p s.length) = 0) (hshort : s.length < wordCount) :
    stringAt m p = s <->
      (forall i, i < s.length -> m (offsetFrom p i) ≠ 0) ∧
        (s = [] -> m (offsetFrom p 0) = 0) := by
  constructor
  · intro h
    have hnonzero : 0 ∉ s := by
      intro hzero
      rw [← h] at hzero
      have hkept := List.mem_takeWhile_imp hzero
      revert hkept
      decide
    constructor
    · intro i hi
      rw [hbytes i hi]
      intro hzero
      exact hnonzero (hzero ▸ getD_mem hi)
    · intro hs
      subst hs
      unfold stringAt at h
      have hfirst := takeWhile_range_nil (by decide : 0 < wordCount) h
      rw [bne_eq_false_iff_eq] at hfirst
      exact hfirst
  · intro h
    exact (holdsString_of_bytes hbytes hfinish hshort h.1 h.2).stringAt

/-!
# The blank
-/

theorem line_cases (s : List Byte) :
    (commandOf s = s ∧ argOf s = [] ∧ 0x20 ∉ s) ∨
      s = commandOf s ++ 0x20 :: argOf s := by
  induction s with
  | nil => exact Or.inl ⟨rfl, rfl, List.not_mem_nil⟩
  | cons c s ih =>
      by_cases hblank : c = 0x20
      · subst hblank
        exact Or.inr rfl
      · have hgo : (fun b : Byte => b != 0x20) c = true := bne_iff_ne.mpr hblank
        unfold commandOf argOf at ih ⊢
        rw [List.takeWhile_cons_of_pos (p := fun b => b != 0x20) hgo,
          List.dropWhile_cons_of_pos (p := fun b => b != 0x20) hgo]
        rcases ih with ⟨hcommand, harg, hnone⟩ | hsplit
        · rw [hcommand]
          refine Or.inl ⟨rfl, harg, ?_⟩
          rw [List.mem_cons, not_or]
          exact ⟨fun h => hblank h.symm, hnone⟩
        · exact Or.inr (congrArg (List.cons c) hsplit)

theorem blank_not_mem_commandOf (s : List Byte) : 0x20 ∉ commandOf s := by
  intro h
  have hgo := List.mem_takeWhile_imp h
  revert hgo
  decide

theorem commandOf_commandOf (s : List Byte) : commandOf (commandOf s) = commandOf s := by
  rcases line_cases (commandOf s) with ⟨hsame, _⟩ | hsplit
  · exact hsame
  · exact absurd (hsplit ▸ List.mem_append_right _ List.mem_cons_self)
      (blank_not_mem_commandOf s)

theorem argOf_commandOf (s : List Byte) : argOf (commandOf s) = [] := by
  rcases line_cases (commandOf s) with ⟨_, hnone, _⟩ | hsplit
  · exact hnone
  · exact absurd (hsplit ▸ List.mem_append_right _ List.mem_cons_self)
      (blank_not_mem_commandOf s)

section Split

variable {c a : List Byte} {x : Byte}

theorem getD_before_split (h : s = c ++ x :: a) {i : Nat} (hi : i < c.length) :
    s.getD i 0 = c.getD i 0 := by
  rw [h]
  exact List.getD_append _ _ _ _ hi

theorem getD_at_split (h : s = c ++ x :: a) : s.getD c.length 0 = x := by
  rw [h, List.getD_append_right _ _ _ _ (Nat.le_refl _), Nat.sub_self]
  rfl

theorem getD_behind_split (h : s = c ++ x :: a) (i : Nat) :
    s.getD (c.length + 1 + i) 0 = a.getD i 0 := by
  rw [h, List.getD_append_right _ _ _ _ (by omega), Nat.add_assoc,
    Nat.add_sub_cancel_left, Nat.add_comm 1 i]
  rfl

theorem length_split (h : s = c ++ x :: a) : s.length = c.length + 1 + a.length := by
  rw [h, List.length_append, List.length_cons, Nat.add_assoc, Nat.add_comm 1]

end Split

def cutMem (m : UserMem) (p : Word) (s : List Byte) : UserMem :=
  if 0x20 ∈ s then Function.update m (offsetFrom p (commandOf s).length) 0 else m

theorem offset_ne {i j : Nat} (hi : i < wordCount) (hj : j < wordCount) (h : i ≠ j) :
    offsetFrom p i ≠ offsetFrom p j :=
  fun heq => h (offsetFrom_injective hi hj heq)

theorem HoldsString.commandEnd (h : HoldsString m p s) :
    commandEnd m p = some (commandOf s).length := by
  have hbefore : forall j, j < (commandOf s).length ->
      s.getD j 0 = (commandOf s).getD j 0 := by
    intro j hj
    rcases line_cases s with ⟨hcommand, _⟩ | hsplit
    · rw [hcommand]
    · exact getD_before_split hsplit hj
  have hle : (commandOf s).length ≤ s.length := (List.takeWhile_prefix _).length_le
  unfold Init.commandEnd
  rw [List.find?_range_eq_some]
  refine ⟨?_, List.mem_range.mpr (Nat.lt_of_le_of_lt hle h.short), ?_⟩
  · rcases line_cases s with ⟨hcommand, _⟩ | hsplit
    · rw [hcommand, h.finish]
      rfl
    · have hlen := length_split hsplit
      rw [h.bytes _ (by omega), getD_at_split hsplit]
      rfl
  · intro j hj
    have hmem : s.getD j 0 ∈ commandOf s := by
      rw [hbefore j hj]
      exact getD_mem hj
    have hless : j < s.length := Nat.lt_of_lt_of_le hj hle
    rw [h.bytes j hless, Bool.not_eq_true', Bool.or_eq_false_iff, beq_eq_false_iff_ne,
      beq_eq_false_iff_ne]
    constructor
    · intro hblank
      exact blank_not_mem_commandOf s (hblank ▸ hmem)
    · intro hzero
      exact h.nonzero (hzero ▸ getD_mem hless)

theorem HoldsString.command (h : HoldsString m p s) :
    HoldsString (cutMem m p s) p (commandOf s) := by
  have hle : (commandOf s).length ≤ s.length := (List.takeWhile_prefix _).length_le
  have hshort := h.short
  have hnonzero : 0 ∉ commandOf s := fun hzero =>
    h.nonzero ((List.takeWhile_prefix _).subset hzero)
  unfold cutMem
  rcases line_cases s with ⟨hcommand, _, hnone⟩ | hsplit
  · rw [if_neg hnone, hcommand]
    exact h
  · have hblank : 0x20 ∈ s := by
      rw [hsplit]
      exact List.mem_append_right _ List.mem_cons_self
    rw [if_pos hblank]
    refine ⟨?_, Function.update_self .., hnonzero, Nat.lt_of_le_of_lt hle hshort⟩
    intro j hj
    rw [Function.update_of_ne (offset_ne (by omega) (by omega) (Nat.ne_of_lt hj)),
      h.bytes j (Nat.lt_of_lt_of_le hj hle)]
    exact getD_before_split hsplit hj

theorem HoldsString.arg (h : HoldsString m p s) (hsplit : s = commandOf s ++ 0x20 :: argOf s) :
    HoldsString (cutMem m p s) (offsetFrom p ((commandOf s).length + 1)) (argOf s) := by
  have hlen := length_split hsplit
  have hshort := h.short
  have hblank : 0x20 ∈ s := by
    rw [hsplit]
    exact List.mem_append_right _ List.mem_cons_self
  have hplace : forall i, i ≤ (argOf s).length ->
      cutMem m p s (offsetFrom (offsetFrom p ((commandOf s).length + 1)) i) =
        m (offsetFrom p ((commandOf s).length + 1 + i)) := by
    intro i hi
    unfold cutMem
    rw [if_pos hblank]
    change Function.update m _ 0 (offsetFrom p ((commandOf s).length + 1) +
      BitVec.ofNat 16 i) = _
    rw [← offsetFrom_add]
    exact Function.update_of_ne (offset_ne (by omega) (by omega) (by omega)) _ _
  refine ⟨?_, ?_, ?_, by omega⟩
  · intro i hi
    rw [hplace i (Nat.le_of_lt hi), h.bytes _ (by omega)]
    exact getD_behind_split hsplit i
  · rw [hplace _ (Nat.le_refl _), ← hlen]
    exact h.finish
  · intro hzero
    apply h.nonzero
    rw [hsplit]
    exact List.mem_append_right _ (List.mem_cons_of_mem _ hzero)

theorem cutCommand_blank {i : Nat} (hend : commandEnd m p = some i)
    (hblank : m (offsetFrom p i) = 0x20) : cutCommand m p = some (cutAt m p i) := by
  unfold cutCommand
  rw [hend, Option.map_some, if_pos hblank]

theorem cutCommand_whole {i : Nat} (hend : commandEnd m p = some i)
    (hwhole : m (offsetFrom p i) ≠ 0x20) :
    cutCommand m p = some ⟨m, stringAt m p, []⟩ := by
  unfold cutCommand
  rw [hend, Option.map_some, if_neg hwhole]

theorem HoldsString.cut (h : HoldsString m p s) :
    cutCommand m p = some ⟨cutMem m p s, commandOf s, argOf s⟩ := by
  rcases line_cases s with ⟨hcommand, harg, hnone⟩ | hsplit
  · have hwhole : m (offsetFrom p (commandOf s).length) ≠ 0x20 := by
      rw [hcommand, h.finish]
      decide
    have hmem : cutMem m p s = m := if_neg hnone
    rw [cutCommand_whole h.commandEnd hwhole, h.stringAt, hcommand, harg, hmem]
  · have hlen := length_split hsplit
    have hblank : m (offsetFrom p (commandOf s).length) = 0x20 := by
      rw [h.bytes _ (by omega)]
      exact getD_at_split hsplit
    have hmem : Function.update m (offsetFrom p (commandOf s).length) 0 =
        cutMem m p s := by
      unfold cutMem
      rw [if_pos]
      rw [hsplit]
      exact List.mem_append_right _ List.mem_cons_self
    rw [cutCommand_blank h.commandEnd hblank]
    unfold cutAt
    dsimp only
    rw [hmem, h.command.stringAt, (h.arg hsplit).stringAt]

end Strings

end Init
end Rmmtos
