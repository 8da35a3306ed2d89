import Rmmtos.Init.Command
import Rmmtos.Library.Loop

/-!
# The shell

The loop of {lit}`init/shell.c`, which reads the keys of a line into a row of
the stack and hands the row to {lit}`runCommand`.  The row is not cleared for the
next line.
-/

namespace Rmmtos
namespace Init

open Library

def rowSize : Nat := 80

structure Shell where
  mem : UserMem
  size : Word
  cont : Bool

/-- A key that has been read.  Nothing but the row is written until the next
key; a command that never returns ends the loop as well. -/
def shellKey (row : Word) (s : Shell) (c : Byte) : Shell :=
  if c = 0x0a then
    { mem := ((shellRunCommand s.mem row).map Prod.fst).getD s.mem
      size := 0
      cont := ((shellRunCommand s.mem row).map fun r => r.2 != .exit).getD false }
  else if c = 0x08 then
    let size := s.size - 1
    { s with mem := Function.update s.mem (row + size) 0, size := size }
  else
    { s with
      mem := Function.update (Function.update s.mem (row + s.size) c)
        (row + (s.size + 1)) 0
      size := s.size + 1 }

abbrev RowStore := Word × Byte

/-- The stores of a key; those of a new line are what {lit}`runCommand` does. -/
def shellStores (row : Word) (s : Shell) (c : Byte) : List RowStore :=
  if c = 0x0a then
    match commandEnd s.mem row with
    | none => []
    | some i => if s.mem (offsetFrom row i) = 0x20 then [(BitVec.ofNat 16 i, 0)] else []
  else if c = 0x08 then [(s.size - 1, 0)]
  else [(s.size, c), (s.size + 1, 0)]

theorem shellKey_stores (row : Word) (s : Shell) (c : Byte) :
    (shellKey row s c).mem =
      storeAll s.mem ((shellStores row s c).map fun st => (row + st.1, st.2)) := by
  unfold shellKey shellStores
  split
  · dsimp only
    unfold shellRunCommand
    cases hend : commandEnd s.mem row with
    | none =>
        have hnone : cutCommand s.mem row = none := by
          unfold cutCommand
          rw [hend, Option.map_none]
        rw [hnone]
        rfl
    | some i =>
        dsimp only
        by_cases hblank : s.mem (offsetFrom row i) = 0x20
        · rw [cutCommand_blank hend hblank, if_pos hblank]
          rfl
        · rw [cutCommand_whole hend hblank, if_neg hblank]
          rfl
  · split
    · rfl
    · rfl

/-!
# The line
-/

/-- The line that the keys since the prompt make. -/
def editedLine (keys : List Byte) : List Byte :=
  keys.foldl (fun line c => if c = 0x08 then line.dropLast else line ++ [c]) []

/-- The shell, the keys since the prompt, the stores to the row, and the strings
that have been handed on, each with the line that it should be. -/
structure ShellRun where
  shell : Shell
  keys : List Byte
  stores : List RowStore
  handed : List (List Byte × List Byte)

def ShellRun.key (row : Word) (s : ShellRun) (c : Byte) : ShellRun where
  shell := shellKey row s.shell c
  keys := if c = 0x0a then [] else s.keys ++ [c]
  stores := s.stores ++ shellStores row s.shell c
  handed :=
    if c = 0x0a then s.handed ++ [(stringAt s.shell.mem row, editedLine s.keys)]
    else s.handed

def ShellStart (s : ShellRun) : Prop :=
  exists m, s = ⟨⟨m, 0, true⟩, [], [], []⟩

def InRow (st : RowStore) : Prop :=
  st.1.toNat < rowSize

/-- Every line was handed on as it was edited, and nothing was written outside
the row. -/
structure ShellRun.Right (s : ShellRun) : Prop where
  handed : forall line, line ∈ s.handed -> line.1 = line.2
  stores : forall st, st ∈ s.stores -> InRow st

/-- A new line finds no zero in the line, and the row empty when the line is; a
backspace finds a character; another key finds room for two bytes. -/
def GoodKey (row : Word) (s : Shell) (c : Byte) : Prop :=
  if c = 0x0a then
    (forall i, i < s.size.toNat -> s.mem (offsetFrom row i) ≠ 0) ∧
      (s.size = 0 -> s.mem row = 0)
  else if c = 0x08 then s.size ≠ 0
  else s.size.toNat + 1 < rowSize

def GoodStep (row : Word) (s s' : ShellRun) : Prop :=
  exists c, s.shell.cont = true ∧ GoodKey row s.shell c ∧ s' = s.key row c

/-!
# Keys
-/

structure HoldsLine (row : Word) (s : Shell) (line : List Byte) : Prop where
  size : s.size.toNat = line.length
  room : line.length < rowSize
  bytes : forall i, i < line.length -> s.mem (offsetFrom row i) = line.getD i 0
  finish : line ≠ [] -> s.mem (offsetFrom row line.length) = 0

section Keys

variable {row : Word} {s : Shell} {line : List Byte} {c : Byte}

theorem row_add (row size : Word) : row + size = offsetFrom row size.toNat := by
  unfold offsetFrom
  rw [BitVec.ofNat_toNat, BitVec.setWidth_eq]

theorem HoldsLine.size_eq_zero (h : HoldsLine row s line) : s.size = 0 <-> line = [] := by
  have hsize := h.size
  constructor
  · intro hzero
    rw [hzero] at hsize
    exact List.eq_nil_of_length_eq_zero hsize.symm
  · intro hnil
    rw [hnil] at hsize
    exact BitVec.eq_of_toNat_eq hsize

theorem holdsLine_nil (row : Word) (m : UserMem) (cont : Bool) :
    HoldsLine row ⟨m, 0, cont⟩ [] :=
  ⟨rfl, by decide, nofun, fun h => absurd rfl h⟩

theorem HoldsLine.append (h : HoldsLine row s line) (hnewline : c ≠ 0x0a)
    (hback : c ≠ 0x08) (hroom : s.size.toNat + 1 < rowSize) :
    HoldsLine row (shellKey row s c) (line ++ [c]) := by
  have hsize := h.size
  unfold rowSize at hroom
  have hnext : (s.size + 1).toNat = line.length + 1 := by
    bv_omega
  have hkey : shellKey row s c = { s with
      mem := Function.update (Function.update s.mem (offsetFrom row line.length) c)
        (offsetFrom row (line.length + 1)) 0
      size := s.size + 1 } := by
    unfold shellKey
    rw [if_neg hnewline, if_neg hback, row_add, row_add, hsize, hnext]
  have hne : forall i j, i < 80 -> j < 80 -> i ≠ j -> offsetFrom row i ≠ offsetFrom row j :=
    fun i j hi hj => offset_ne (by unfold wordCount; omega) (by unfold wordCount; omega)
  rw [hkey]
  refine ⟨?_, ?_, ?_, ?_⟩
  · rw [List.length_append, List.length_singleton]
    exact hnext
  · rw [List.length_append, List.length_singleton]
    unfold rowSize
    omega
  · intro i hi
    rw [List.length_append, List.length_singleton] at hi
    dsimp only
    rw [Function.update_of_ne (hne _ _ (by omega) (by omega) (by omega))]
    rcases Nat.lt_succ_iff_lt_or_eq.mp hi with hless | rfl
    · rw [Function.update_of_ne (hne _ _ (by omega) (by omega) (by omega)),
        List.getD_append _ _ _ _ hless]
      exact h.bytes i hless
    · rw [Function.update_self, List.getD_append_right _ _ _ _ (Nat.le_refl _),
        Nat.sub_self]
      rfl
  · intro _
    rw [List.length_append, List.length_singleton]
    exact Function.update_self ..

theorem HoldsLine.dropLast (h : HoldsLine row s line) (hsome : s.size ≠ 0) :
    HoldsLine row (shellKey row s 0x08) line.dropLast := by
  have hsize := h.size
  have hroom := h.room
  unfold rowSize at hroom
  have hpos : 0 < s.size.toNat := Nat.pos_of_ne_zero fun hzero =>
    hsome (BitVec.eq_of_toNat_eq hzero)
  have hprev : (s.size - 1).toNat = line.length - 1 := by
    bv_omega
  have hkey : shellKey row s 0x08 = { s with
      mem := Function.update s.mem (offsetFrom row (line.length - 1)) 0
      size := s.size - 1 } := by
    unfold shellKey
    rw [if_neg (by decide), if_pos rfl]
    dsimp only
    rw [row_add, hprev]
  have hne : forall i, i < line.length - 1 ->
      offsetFrom row i ≠ offsetFrom row (line.length - 1) :=
    fun i hi => offset_ne (by unfold wordCount; omega) (by unfold wordCount; omega)
      (Nat.ne_of_lt hi)
  rw [hkey]
  refine ⟨?_, ?_, ?_, ?_⟩
  · rw [List.length_dropLast]
    exact hprev
  · rw [List.length_dropLast]
    unfold rowSize
    omega
  · intro i hi
    rw [List.length_dropLast] at hi
    dsimp only
    have hless : i < line.dropLast.length := by
      rw [List.length_dropLast]
      exact hi
    rw [Function.update_of_ne (hne i hi), h.bytes i (by omega),
      List.getD_eq_getElem _ _ (by omega), List.getD_eq_getElem _ _ hless,
      List.getElem_dropLast]
  · intro _
    rw [List.length_dropLast]
    exact Function.update_self ..

theorem HoldsLine.handed_iff (h : HoldsLine row s line) :
    stringAt s.mem row = line <-> GoodKey row s 0x0a := by
  have hroom := h.room
  have hfirst : offsetFrom row 0 = row := offsetFrom_none row
  unfold GoodKey
  rw [if_pos rfl, h.size, h.size_eq_zero,
    stringAt_eq_iff h.bytes h.finish (by unfold rowSize at hroom; unfold wordCount; omega),
    hfirst]

theorem HoldsLine.stores_newline (h : HoldsLine row s line) (hgood : GoodKey row s 0x0a) :
    forall st, st ∈ shellStores row s 0x0a -> InRow st := by
  have hroom := h.room
  unfold rowSize at hroom
  unfold GoodKey at hgood
  rw [if_pos rfl, h.size, h.size_eq_zero] at hgood
  have hfirst : offsetFrom row 0 = row := offsetFrom_none row
  have hholds : HoldsString s.mem row line :=
    holdsString_of_bytes h.bytes h.finish (by unfold wordCount; omega) hgood.1
      fun hnil => hfirst.symm ▸ hgood.2 hnil
  have hle : (commandOf line).length ≤ line.length := (List.takeWhile_prefix _).length_le
  intro st hst
  unfold shellStores at hst
  rw [if_pos rfl, hholds.commandEnd] at hst
  dsimp only at hst
  split at hst
  · rw [List.mem_singleton.mp hst]
    unfold InRow rowSize
    dsimp only
    rw [BitVec.toNat_ofNat]
    omega
  · cases hst

end Keys

/-!
# Runs
-/

section Runs

variable {row : Word} {s s' : ShellRun} {c : Byte}

structure ShellInv (row : Word) (s : ShellRun) : Prop where
  line : HoldsLine row s.shell (editedLine s.keys)
  right : s.Right

theorem ShellStart.inv (hs : ShellStart s) : ShellInv row s := by
  rcases hs with ⟨m, rfl⟩
  exact ⟨holdsLine_nil row m true, nofun, nofun⟩

theorem editedLine_snoc (keys : List Byte) (c : Byte) :
    editedLine (keys ++ [c]) =
      if c = 0x08 then (editedLine keys).dropLast else editedLine keys ++ [c] := by
  unfold editedLine
  rw [List.foldl_append]
  rfl

theorem shellKey_newline (row : Word) (s : Shell) :
    HoldsLine row (shellKey row s 0x0a) [] := by
  unfold shellKey
  rw [if_pos rfl]
  exact holdsLine_nil row _ _

theorem ShellInv.line_key (hs : ShellInv row s) (hgood : GoodKey row s.shell c) :
    HoldsLine row (s.key row c).shell (editedLine (s.key row c).keys) := by
  have hline := hs.line
  unfold GoodKey at hgood
  unfold ShellRun.key
  dsimp only
  by_cases hnewline : c = 0x0a
  · rw [if_pos hnewline, hnewline]
    exact shellKey_newline row s.shell
  · rw [if_neg hnewline, editedLine_snoc]
    rw [if_neg hnewline] at hgood
    by_cases hback : c = 0x08
    · rw [if_pos hback] at hgood ⊢
      rw [hback]
      exact hline.dropLast hgood
    · rw [if_neg hback] at hgood ⊢
      exact hline.append hnewline hback hgood

theorem ShellInv.stores_iff (hs : ShellInv row s) (hnewline : c ≠ 0x0a) :
    (forall st, st ∈ shellStores row s.shell c -> InRow st) <->
      GoodKey row s.shell c := by
  have hsize := hs.line.size
  have hroom := hs.line.room
  unfold rowSize at hroom
  unfold shellStores GoodKey InRow
  rw [if_neg hnewline, if_neg hnewline]
  by_cases hback : c = 0x08
  · rw [if_pos hback, if_pos hback, List.forall_mem_singleton]
    unfold rowSize
    dsimp only
    constructor
    · intro hless hzero
      rw [hzero] at hless
      revert hless
      decide
    · intro hsome
      have hpos : 0 < s.shell.size.toNat := Nat.pos_of_ne_zero fun hzero =>
        hsome (BitVec.eq_of_toNat_eq hzero)
      bv_omega
  · rw [if_neg hback, if_neg hback, List.forall_mem_cons, List.forall_mem_singleton]
    unfold rowSize
    dsimp only
    have hnext : (s.shell.size + 1).toNat = s.shell.size.toNat + 1 := by
      bv_omega
    omega

theorem key_stores (row : Word) (s : ShellRun) (c : Byte) :
    (s.key row c).stores = s.stores ++ shellStores row s.shell c :=
  rfl

theorem key_handed (row : Word) (s : ShellRun) (c : Byte) :
    (s.key row c).handed =
      if c = 0x0a then s.handed ++ [(stringAt s.shell.mem row, editedLine s.keys)]
      else s.handed :=
  rfl

theorem key_right_iff (hright : s.Right) (c : Byte) :
    (s.key row c).Right <->
      (c = 0x0a -> stringAt s.shell.mem row = editedLine s.keys) ∧
        forall st, st ∈ shellStores row s.shell c -> InRow st := by
  constructor
  · intro h
    have hhanded := h.handed
    have hstores := h.stores
    rw [key_handed] at hhanded
    rw [key_stores, List.forall_mem_append] at hstores
    refine ⟨fun hnewline => ?_, hstores.2⟩
    rw [if_pos hnewline, List.forall_mem_append, List.forall_mem_singleton] at hhanded
    dsimp only at hhanded
    exact hhanded.2
  · intro h
    constructor
    · rw [key_handed]
      split
      · next hnewline =>
          rw [List.forall_mem_append, List.forall_mem_singleton]
          dsimp only
          exact ⟨hright.handed, h.1 hnewline⟩
      · exact hright.handed
    · rw [key_stores, List.forall_mem_append]
      exact ⟨hright.stores, h.2⟩

/-- A key keeps everything right exactly when it is a good one. -/
theorem ShellInv.right_iff (hs : ShellInv row s) (c : Byte) :
    (s.key row c).Right <-> GoodKey row s.shell c := by
  rw [key_right_iff hs.right]
  by_cases hnewline : c = 0x0a
  · subst hnewline
    rw [← hs.line.handed_iff]
    constructor
    · intro h
      exact h.1 rfl
    · intro heq
      exact ⟨fun _ => heq, hs.line.stores_newline (hs.line.handed_iff.mp heq)⟩
  · rw [← hs.stores_iff hnewline]
    constructor
    · intro h
      exact h.2
    · intro hstores
      exact ⟨fun h => absurd h hnewline, hstores⟩

/-- The shell hands on every line as it was edited, and stays inside the row, as
long as the keys are good ones, and no longer. -/
theorem shell_lines_edited (hs : Reachable ShellStart (GoodStep row) s) :
    s.Right ∧ forall c, s.shell.cont = true ->
      ((s.key row c).Right <-> GoodKey row s.shell c) := by
  have hinv : ShellInv row s := by
    apply hs.invariant (I := ShellInv row) (fun s hs => hs.inv)
    intro s s' hs hstep
    rcases hstep with ⟨c, _, hgood, rfl⟩
    exact ⟨hs.line_key hgood, (hs.right_iff c).mpr hgood⟩
  exact ⟨hinv.right, fun c _ => hinv.right_iff c⟩

end Runs

def firstPrompt : ShellRun :=
  ⟨⟨fun _ => 0x41, 0, true⟩, [], [], []⟩

/-- A letter is typed. -/
theorem shell_lines_edited_letter :
    (firstPrompt.key 0xf000 0x62).Right ∧
      forall c, (firstPrompt.key 0xf000 0x62).shell.cont = true ->
        (((firstPrompt.key 0xf000 0x62).key 0xf000 c).Right <->
          GoodKey 0xf000 (firstPrompt.key 0xf000 0x62).shell c) :=
  shell_lines_edited (Reachable.step (s := firstPrompt) (Reachable.start ⟨_, rfl⟩)
    ⟨0x62, rfl, (by decide : (0 : Word).toNat + 1 < rowSize), rfl⟩)

/-- A backspace at the first prompt writes before the row. -/
theorem shell_leaves_row : exists (row : Word) (s : ShellRun),
    Reachable ShellStart (fun s s' => exists c, s.shell.cont = true ∧ s' = s.key row c) s ∧
      ¬ s.Right := by
  refine ⟨0xf000, firstPrompt.key 0xf000 0x08, ?_, ?_⟩
  · exact Reachable.step (s := firstPrompt) (Reachable.start ⟨_, rfl⟩) ⟨0x08, rfl, rfl⟩
  · intro hright
    have hplace := hright.stores (0xffff, 0) (List.mem_singleton.mpr rfl)
    revert hplace
    unfold InRow
    decide

end Init
end Rmmtos
