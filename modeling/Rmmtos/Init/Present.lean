import Rmmtos.Init.Command
import Rmmtos.Init.BlockList
import Rmmtos.Init.SegmentHelpers
import Rmmtos.Library.Lines

/-!
# The presentation

{lit}`init/present.c` reads a file into an array, puts a pointer to each line into
a table on the stack, and runs the lines as commands.
-/

namespace Rmmtos
namespace Init

open Library
open Kernel (allocateSegment)

def tableSize : Nat := 100

/-- The addresses of the array {lit}`content` and of the table {lit}`rows`.  The
stack is behind the data of the program. -/
structure PresentLayout where
  content : Word
  rows : Word
  nonnull : 0 < content.toNat
  behind : content.toNat + 512 < rows.toNat
  room : rows.toNat + 2 * tableSize ≤ wordCount

def segmentView (m : Mem) (seg : Word) : UserMem :=
  fun off => peek m seg off

def rowAt (m : UserMem) (rows i : Word) : Word :=
  readw m (rows + 2 * i)

/-- One turn of the loop over the bytes of the file. -/
def parseTurn (l : PresentLayout) (x : UserMem × Word) (j : Nat) : UserMem × Word :=
  if x.1 (offsetFrom l.content j) = 0x0a then
    let m := Function.update x.1 (offsetFrom l.content j) 0
    (writew m (l.rows + 2 * x.2) (offsetFrom l.content (j + 1)), x.2 + 1)
  else x

/-- The memory when the file has been read and the rows are set.  The call that
should clear the table clears the kernel's memory. -/
def presentRows (l : PresentLayout) (m : Mem) (seg res : Word) : UserMem :=
  let m := Init.memsetw m l.rows 0 (BitVec.ofNat 16 tableSize)
  let m := writew (segmentView m seg) l.rows l.content
  ((List.range (res &&& 0xfff).toNat).foldl (parseTurn l) (m, 1)).1

/-- The strings that a row is cut into, which are the command and its argument. -/
abbrev Visit := Word × Option (List Byte × List Byte)

/-- The memory, the number of the slide, the rows that have been run, and whether
the last of them has returned. -/
structure Present where
  mem : UserMem
  i : Word
  visits : List Visit
  running : Bool

/-- {lit}`runCommand(rows[i])`. -/
def Present.visit (l : PresentLayout) (s : Present) (i : Word) : Present where
  mem := ((presentRunCommand s.mem (rowAt s.mem l.rows i)).map Prod.fst).getD s.mem
  i := i
  visits := s.visits ++ [(i, (cutCommand s.mem (rowAt s.mem l.rows i)).map
    fun cut => (cut.command, cut.arg))]
  running := (presentRunCommand s.mem (rowAt s.mem l.rows i)).isSome

def presentLoaded (l : PresentLayout) (m : Mem) (seg res : Word) : Present :=
  ⟨presentRows l m seg res, 0, [], true⟩

/-- A key that has been read.  The key {lit}`q` ends a loop that is not left. -/
def Present.key (l : PresentLayout) (s : Present) (c : Byte) : Present :=
  if c = 0x6e then
    if rowAt s.mem l.rows (s.i + 1) ≠ 0 then s.visit l (s.i + 1) else s
  else if c = 0x70 then
    if 0 < s.i.toInt then s.visit l (s.i - 1) else s
  else s

/-!
# The table

The loop ends every line of the file with a zero, and puts the beginning of the
next one into the table.
-/

section Table

variable {l : PresentLayout} {m : UserMem}

theorem readw_congr {m m' : UserMem} {a : Word} (hlow : m' a = m a)
    (hhigh : m' (a + 1) = m (a + 1)) : readw m' a = readw m a := by
  unfold readw
  rw [hlow, hhigh]

theorem entry_toNat (rows i : Word) (h : rows.toNat + 2 * i.toNat + 1 < wordCount) :
    (rows + 2 * i).toNat = rows.toNat + 2 * i.toNat ∧
      (rows + 2 * i + 1).toNat = rows.toNat + 2 * i.toNat + 1 := by
  unfold wordCount at h
  constructor
  · bv_omega
  · bv_omega

theorem content_toNat (l : PresentLayout) {x : Nat} (hx : x ≤ 512) :
    (offsetFrom l.content x).toNat = l.content.toNat + x := by
  have hbehind := l.behind
  have hrows := l.rows.isLt
  exact offsetFrom_toNat (by unfold wordCount; omega)

structure Parsed (l : PresentLayout) (rest : List Byte) (j : Nat) (i : Word)
    (m m' : UserMem) : Prop where
  text : forall x, x < rest.length ->
    m' (offsetFrom l.content (j + x)) =
      if rest.getD x 0 = 0x0a then 0 else rest.getD x 0
  rows : forall k, k < rest.count 0x0a ->
    rowAt m' l.rows (i + BitVec.ofNat 16 k) =
      offsetFrom l.content (j + lineStart 0x0a rest (k + 1))
  before : forall a : Word, a.toNat < l.content.toNat + j -> m' a = m a
  after : forall a : Word, l.content.toNat + (j + rest.length) ≤ a.toNat ->
    a.toNat < l.rows.toNat + 2 * i.toNat -> m' a = m a

theorem Parsed.text_byte {m' : UserMem} {rest : List Byte} {c : Byte} {j : Nat} {i : Word}
    (h : Parsed l rest (j + 1) i m m') (hc : c ≠ 0x0a) (hj : j < 512)
    (hfirst : m (offsetFrom l.content j) = c) : Parsed l (c :: rest) j i m m' := by
  have hplace := content_toNat l (x := j) (by omega)
  constructor
  · intro x hx
    cases x with
    | zero =>
        rw [h.before _ (by rw [Nat.add_zero, hplace]; omega)]
        change m (offsetFrom l.content j) = if c = 0x0a then 0 else c
        rw [hfirst, if_neg hc]
    | succ x =>
        have hat := h.text x (Nat.lt_of_succ_lt_succ hx)
        rw [Nat.add_assoc, Nat.add_comm 1 x] at hat
        exact hat
  · intro k hk
    rw [List.count_cons_of_ne hc] at hk
    rw [h.rows k hk, lineStart_cons_succ hc]
    congr 1
    omega
  · intro a ha
    exact h.before a (by omega)
  · intro a hlow hhigh
    rw [List.length_cons] at hlow
    exact h.after a (by omega) hhigh

def endLine (l : PresentLayout) (m : UserMem) (j : Nat) (i : Word) : UserMem :=
  writew (Function.update m (offsetFrom l.content j) 0) (l.rows + 2 * i)
    (offsetFrom l.content (j + 1))

theorem endLine_below (m : UserMem) (j : Nat) {i a : Word} (hi : i.toNat < tableSize)
    (ha : a.toNat < l.rows.toNat + 2 * i.toNat) :
    endLine l m j i a = Function.update m (offsetFrom l.content j) 0 a := by
  have hroom := l.room
  rcases entry_toNat l.rows i (by omega) with ⟨hlow, hhigh⟩
  exact writew_other (fun heq => by rw [heq, hlow] at ha; omega)
    fun heq => by rw [heq, hhigh] at ha; omega

theorem endLine_other {j : Nat} {i a : Word} (hi : i.toNat < tableSize) (hj : j < 512)
    (ha : a.toNat < l.rows.toNat + 2 * i.toNat) (hne : a.toNat ≠ l.content.toNat + j) :
    endLine l m j i a = m a := by
  rw [endLine_below m j hi ha]
  refine Function.update_of_ne (fun heq => hne ?_) _ _
  rw [heq]
  exact content_toNat l (by omega)

theorem Parsed.newline {m' : UserMem} {rest : List Byte} {j : Nat} {i : Word}
    (h : Parsed l rest (j + 1) (i + 1) (endLine l m j i) m')
    (hfile : j + (rest.length + 1) ≤ 512) (hi : i.toNat < tableSize) :
    Parsed l (0x0a :: rest) j i m m' := by
  have hbehind := l.behind
  have hroom := l.room
  rcases entry_toNat l.rows i (by omega) with ⟨hlow, hhigh⟩
  have hnext : (i + 1).toNat = i.toNat + 1 := by
    unfold tableSize at hi
    bv_omega
  constructor
  · intro x hx
    cases x with
    | zero =>
        have hplace := content_toNat l (x := j + 0) (by omega)
        rw [h.before _ (by omega), endLine_below m j hi (by omega)]
        exact Function.update_self ..
    | succ x =>
        have hat := h.text x (Nat.lt_of_succ_lt_succ hx)
        rw [Nat.add_assoc, Nat.add_comm 1 x] at hat
        exact hat
  · intro k hk
    rw [List.count_cons_self] at hk
    cases k with
    | zero =>
        have hentry : rowAt (endLine l m j i) l.rows i = offsetFrom l.content (j + 1) :=
          readw_writew _ _ _
        rw [lineStart_sep_succ, lineStart_zero]
        refine Eq.trans ?_ hentry
        unfold rowAt
        rw [show i + BitVec.ofNat 16 0 = i from BitVec.add_zero i]
        exact readw_congr (h.after _ (by omega) (by omega)) (h.after _ (by omega) (by omega))
    | succ k =>
        have hat := h.rows k (Nat.lt_of_succ_lt_succ hk)
        rw [lineStart_sep_succ, BitVec.ofNat_add, BitVec.add_comm (BitVec.ofNat 16 k),
          ← BitVec.add_assoc]
        refine Eq.trans hat ?_
        congr 1
        omega
  · intro a ha
    rw [h.before a (by omega)]
    exact endLine_other hi (by omega) (by omega) (by omega)
  · intro a hfrom hbelow
    rw [List.length_cons] at hfrom
    rw [h.after a (by omega) (by omega)]
    exact endLine_other hi (by omega) hbelow (by omega)

theorem parse_spec (rest : List Byte) (j : Nat) (i : Word)
    (hbytes : forall x, x < rest.length ->
      m (offsetFrom l.content (j + x)) = rest.getD x 0)
    (hfile : j + rest.length ≤ 512)
    (htable : i.toNat + rest.count 0x0a ≤ tableSize) :
    Parsed l rest j i m ((List.range' j rest.length).foldl (parseTurn l) (m, i)).1 := by
  induction rest generalizing j i m with
  | nil => exact ⟨nofun, nofun, fun _ _ => rfl, fun _ _ _ => rfl⟩
  | cons c rest ih =>
      have hfirst : m (offsetFrom l.content j) = c := hbytes 0 (Nat.zero_lt_succ _)
      have hnext : forall x, x < rest.length ->
          m (offsetFrom l.content (j + 1 + x)) = rest.getD x 0 := by
        intro x hx
        rw [Nat.add_assoc, Nat.add_comm 1 x]
        exact hbytes (x + 1) (Nat.succ_lt_succ hx)
      rw [List.length_cons] at hfile ⊢
      rw [List.range'_succ, List.foldl_cons]
      by_cases hc : c = 0x0a
      · subst hc
        rw [List.count_cons_self] at htable
        have hi : i.toNat < tableSize := by omega
        have hturn : parseTurn l (m, i) j = (endLine l m j i, i + 1) := if_pos hfirst
        rw [hturn]
        refine Parsed.newline (ih (j + 1) (i + 1) ?_ (by omega) ?_) hfile hi
        · intro x hx
          have hbehind := l.behind
          have hplace := content_toNat l (x := j + 1 + x) (by omega)
          rw [endLine_other hi (by omega) (by omega) (by omega)]
          exact hnext x hx
        · unfold tableSize at htable ⊢
          bv_omega
      · rw [List.count_cons_of_ne hc] at htable
        have hturn : parseTurn l (m, i) j = (m, i) := by
          unfold parseTurn
          rw [if_neg]
          dsimp only
          rw [hfirst]
          exact hc
        rw [hturn]
        exact (ih (j + 1) i hnext (by omega) htable).text_byte hc (by omega) hfirst

structure FileLoaded (l : PresentLayout) (file : List Byte) (m : Mem) (seg : Word) :
    Prop where
  segment : TaskSegment seg
  size : file.length ≤ 512
  bytes : forall x, x < file.length ->
    peek m seg (offsetFrom l.content x) = file.getD x 0

theorem presentRows_spec {file : List Byte} {m : Mem} {seg : Word}
    (h : FileLoaded l file m seg) (hfew : file.count 0x0a < tableSize) :
    (forall x, x < file.length ->
        presentRows l m seg (BitVec.ofNat 16 file.length) (offsetFrom l.content x) =
          if file.getD x 0 = 0x0a then 0 else file.getD x 0) ∧
      (forall k, k < (linesOf 0x0a file).length ->
        rowAt (presentRows l m seg (BitVec.ofNat 16 file.length)) l.rows
            (BitVec.ofNat 16 k) =
          offsetFrom l.content (lineStart 0x0a file k)) := by
  have hbehind := l.behind
  have hroom := l.room
  have hsize := h.size
  have hlines := length_linesOf_le (0x0a : Byte) file
  have hres : (BitVec.ofNat 16 file.length &&& 0xfff : Word).toNat = file.length := by
    rw [BitVec.toNat_and, BitVec.toNat_ofNat]
    change file.length % 65536 &&& 2 ^ 12 - 1 = _
    rw [Nat.and_two_pow_sub_one_eq_mod]
    omega
  have hview : segmentView (Init.memsetw m l.rows 0 (BitVec.ofNat 16 tableSize)) seg =
      segmentView m seg :=
    funext fun off => (HelperCall.memsetw l.rows 0 _).run_task h.segment off
  let m0 := writew (segmentView m seg) l.rows l.content
  have hmem : presentRows l m seg (BitVec.ofNat 16 file.length) =
      ((List.range' 0 file.length).foldl (parseTurn l) (m0, 1)).1 := by
    unfold presentRows
    dsimp only
    rw [hview, hres, List.range_eq_range']
  have hlow : l.rows.toNat + 1 < wordCount := by
    unfold tableSize at hroom
    omega
  have hnext : (l.rows + 1).toNat = l.rows.toNat + 1 := by
    unfold wordCount at hlow
    bv_omega
  have hbytes : forall x, x < file.length ->
      m0 (offsetFrom l.content (0 + x)) = file.getD x 0 := by
    intro x hx
    have hat := content_toNat l (x := x) (by omega)
    rw [Nat.zero_add, ← h.bytes x hx]
    exact writew_other (fun heq => by rw [heq] at hat; omega)
      fun heq => by rw [heq, hnext] at hat; omega
  have htable : (1 : Word).toNat + file.count 0x0a ≤ tableSize := by
    change 1 + _ ≤ _
    omega
  rcases parse_spec file 0 1 hbytes (by omega) htable with ⟨htext, hrows, _, hafter⟩
  rw [hmem]
  constructor
  · intro x hx
    have hat := htext x hx
    rw [Nat.zero_add] at hat
    exact hat
  · intro k hk
    cases k with
    | zero =>
        have hfirst : rowAt m0 l.rows 0 = l.content :=
          (congrArg (readw m0) (BitVec.add_zero l.rows)).trans (readw_writew _ _ _)
        have hone : (1 : Word).toNat = 1 := rfl
        have hzero : l.rows + 2 * BitVec.ofNat 16 0 = l.rows := BitVec.add_zero l.rows
        rw [lineStart_zero]
        refine Eq.trans ?_ (hfirst.trans (BitVec.add_zero l.content).symm)
        unfold rowAt readw
        rw [hzero, hafter l.rows (by omega) (by omega),
          hafter (l.rows + 1) (by omega) (by omega)]
        exact congrArg (readw m0) (BitVec.add_zero l.rows).symm
    | succ k =>
        have hat := hrows k (by omega)
        rw [Nat.zero_add] at hat
        rw [Nat.add_comm k 1, BitVec.ofNat_add, Nat.add_comm 1 k]
        exact hat

end Table

/-!
# Slides

A slide is a line of the file.  A visit overwrites the first blank of its line,
so that the line has no argument when it is visited again.
-/

abbrev slide (file : List Byte) (k : Nat) : List Byte :=
  lineOf 0x0a file k

abbrev slideCount (file : List Byte) : Nat :=
  (linesOf 0x0a file).length

def Present.visited (s : Present) (k : Nat) : Bool :=
  s.visits.any fun v => v.1.toNat == k

def Present.current (s : Present) (file : List Byte) (k : Nat) : List Byte :=
  if s.visited k then commandOf (slide file k) else slide file k

def Present.cut (l : PresentLayout) (file : List Byte) (s : Present) (k : Nat) :
    Present where
  mem := cutMem s.mem (offsetFrom l.content (lineStart 0x0a file k)) (s.current file k)
  i := BitVec.ofNat 16 k
  visits := s.visits ++ [(BitVec.ofNat 16 k,
    some (commandOf (slide file k), argOf (s.current file k)))]
  running := true

/-- A visit runs the complete line: the slide has a line, which has no zero and is
followed by one, and which has no argument when it has been visited. -/
structure GoodVisit (l : PresentLayout) (file : List Byte) (s : Present) (k : Nat) :
    Prop where
  line : k < slideCount file
  text : 0 ∉ slide file k
  finish : s.mem (offsetFrom l.content (lineEnd 0x0a file k)) = 0
  again : s.visited k = true -> argOf (slide file k) = []

structure GoodTurn (l : PresentLayout) (file : List Byte) (s : Present) (c : Byte) :
    Prop where
  next : c = 0x6e -> rowAt s.mem l.rows (s.i + 1) ≠ 0 ->
    GoodVisit l file s (s.i.toNat + 1)
  back : c = 0x70 -> 0 < s.i.toInt -> GoodVisit l file s (s.i.toNat - 1)

/-- Every visit ran the command of its line with the complete argument, and the
number of the slide is that of a line. -/
structure Present.Right (file : List Byte) (s : Present) : Prop where
  visits : forall v, v ∈ s.visits -> v.1.toNat < slideCount file ∧
    v.2 = some (commandOf (slide file v.1.toNat), argOf (slide file v.1.toNat))
  slide : s.i.toNat < slideCount file

def PresentStart (l : PresentLayout) (file : List Byte) (s : Present) : Prop :=
  exists m seg, FileLoaded l file m seg ∧
    s = (presentLoaded l m seg (BitVec.ofNat 16 file.length)).visit l 0

/-- The file has a line and not too many of them, and its first line is run
completely. -/
def GoodStart (l : PresentLayout) (file : List Byte) (s : Present) : Prop :=
  exists m seg, FileLoaded l file m seg ∧ file.count 0x0a < tableSize ∧
    GoodVisit l file (presentLoaded l m seg (BitVec.ofNat 16 file.length)) 0 ∧
    s = (presentLoaded l m seg (BitVec.ofNat 16 file.length)).visit l 0

def GoodTurnStep (l : PresentLayout) (file : List Byte) (s s' : Present) : Prop :=
  exists c, s.running = true ∧ GoodTurn l file s c ∧ s' = s.key l c

/-- The table points to the lines, and each line is there as far as it has not
been cut off. -/
structure Slides (l : PresentLayout) (file : List Byte) (s : Present) : Prop where
  size : file.length ≤ 512
  few : file.count 0x0a < tableSize
  rows : forall k, k < slideCount file ->
    rowAt s.mem l.rows (BitVec.ofNat 16 k) = offsetFrom l.content (lineStart 0x0a file k)
  text : forall k, k < slideCount file -> 0 ∉ slide file k ->
    s.mem (offsetFrom l.content (lineEnd 0x0a file k)) = 0 ->
      HoldsString s.mem (offsetFrom l.content (lineStart 0x0a file k)) (s.current file k)

section Slides

variable {l : PresentLayout} {file : List Byte} {s : Present} {k : Nat}

theorem length_current_le (s : Present) (file : List Byte) (k : Nat) :
    (s.current file k).length ≤ (slide file k).length := by
  unfold Present.current
  split
  · exact (List.takeWhile_prefix _).length_le
  · exact Nat.le_refl _

theorem commandOf_current (s : Present) (file : List Byte) (k : Nat) :
    commandOf (s.current file k) = commandOf (slide file k) := by
  unfold Present.current
  split
  · exact commandOf_commandOf _
  · rfl

theorem Slides.count_le (hs : Slides l file s) : slideCount file ≤ tableSize := by
  have hlines := length_linesOf_le (0x0a : Byte) file
  have hfew := hs.few
  unfold slideCount
  omega

theorem slides_loaded {m : Mem} {seg : Word} (h : FileLoaded l file m seg)
    (hfew : file.count 0x0a < tableSize) :
    Slides l file (presentLoaded l m seg (BitVec.ofNat 16 file.length)) := by
  rcases presentRows_spec h hfew with ⟨htext, hrows⟩
  refine ⟨h.size, hfew, hrows, ?_⟩
  intro k hk hnonzero hfinish
  have hend : lineStart 0x0a file k + (slide file k).length ≤ file.length :=
    lineEnd_le hk
  have hsize := h.size
  change HoldsString _ _ (slide file k)
  refine ⟨?_, ?_, hnonzero, by unfold wordCount; omega⟩
  · intro i hi
    have hchar : file.getD (lineStart 0x0a file k + i) 0 = (slide file k).getD i 0 :=
      getD_line hk 0 hi
    have hno : (slide file k).getD i 0 ≠ 0x0a := by
      intro heq
      have hmem := getD_mem hi
      rw [heq] at hmem
      exact sep_not_mem_lineOf 0x0a file k hmem
    rw [offsetFrom_offsetFrom]
    refine (htext _ (by omega)).trans ?_
    rw [hchar, if_neg hno]
  · rw [offsetFrom_offsetFrom]
    exact hfinish

theorem HoldsString.congr {m m' : UserMem} {p : Word} {text : List Byte}
    (h : HoldsString m p text)
    (hsame : forall i, i ≤ text.length -> m' (offsetFrom p i) = m (offsetFrom p i)) :
    HoldsString m' p text := by
  refine ⟨?_, ?_, h.nonzero, h.short⟩
  · intro i hi
    rw [hsame i (Nat.le_of_lt hi)]
    exact h.bytes i hi
  · rw [hsame _ (Nat.le_refl _)]
    exact h.finish

theorem cutMem_other {m : UserMem} {p a : Word} {text : List Byte}
    (h : forall i, i < text.length -> a ≠ offsetFrom p i) : cutMem m p text a = m a := by
  unfold cutMem
  split
  · next hblank =>
      rcases line_cases text with ⟨_, _, hnone⟩ | hsplit
      · exact absurd hblank hnone
      · have hlen := length_split hsplit
        exact Function.update_of_ne (h _ (by omega)) _ _
  · rfl

theorem Slides.visit_eq (hs : Slides l file s) (hk : k < slideCount file)
    (htext : 0 ∉ slide file k)
    (hfinish : s.mem (offsetFrom l.content (lineEnd 0x0a file k)) = 0) :
    s.visit l (BitVec.ofNat 16 k) = s.cut l file k := by
  have hcut := (hs.text k hk htext hfinish).cut
  unfold Present.visit presentRunCommand
  rw [hs.rows k hk, hcut, commandOf_current]
  rfl

theorem Slides.number_toNat (hs : Slides l file s) (hk : k < slideCount file) :
    (BitVec.ofNat 16 k : Word).toNat = k := by
  have hcount := hs.count_le
  unfold tableSize at hcount
  rw [BitVec.toNat_ofNat]
  omega

theorem visited_cut (l : PresentLayout) (file : List Byte) (s : Present) (k j : Nat) :
    (s.cut l file k).visited j =
      (s.visited j || (BitVec.ofNat 16 k : Word).toNat == j) := by
  unfold Present.visited Present.cut
  rw [List.any_append, List.any_cons, List.any_nil, Bool.or_false]

theorem Slides.cut_mem_other (hs : Slides l file s) (hk : k < slideCount file) {a : Word}
    (ha : forall i, i < (slide file k).length ->
      a.toNat ≠ l.content.toNat + (lineStart 0x0a file k + i)) :
    (s.cut l file k).mem a = s.mem a := by
  have hsize := hs.size
  have hshorter := length_current_le s file k
  have hend : lineStart 0x0a file k + (slide file k).length ≤ file.length :=
    lineEnd_le hk
  apply cutMem_other
  intro i hi heq
  apply ha i (by omega)
  rw [heq, offsetFrom_offsetFrom, content_toNat l (by omega)]

theorem Slides.cut_mem_line (hs : Slides l file s) (hk : k < slideCount file) {j x : Nat}
    (hj : j < slideCount file) (hlow : lineStart 0x0a file j ≤ x)
    (hhigh : x ≤ lineEnd 0x0a file j) (hother : j = k -> x = lineEnd 0x0a file j) :
    (s.cut l file k).mem (offsetFrom l.content x) = s.mem (offsetFrom l.content x) := by
  have hsize := hs.size
  have hbound : lineEnd 0x0a file j ≤ file.length := lineEnd_le hj
  have hkend : lineEnd 0x0a file k = lineStart 0x0a file k + (slide file k).length := rfl
  apply hs.cut_mem_other hk
  intro i hi
  rw [content_toNat l (by omega)]
  rcases Nat.lt_trichotomy j k with hless | hsame | hmore
  · have hapart : lineEnd 0x0a file j < lineStart 0x0a file k :=
      lineEnd_lt_lineStart hless hk
    omega
  · have hlast := hother hsame
    rw [hsame] at hlast
    omega
  · have hapart : lineEnd 0x0a file k < lineStart 0x0a file j :=
      lineEnd_lt_lineStart hmore hj
    omega

theorem Slides.visit (hs : Slides l file s) (hgood : GoodVisit l file s k) :
    Slides l file (s.visit l (BitVec.ofNat 16 k)) := by
  have hk := hgood.line
  have hsize := hs.size
  have hbehind := l.behind
  have hroom := l.room
  have hcount := hs.count_le
  have hnumber := hs.number_toNat hk
  have hend : lineStart 0x0a file k + (slide file k).length ≤ file.length :=
    lineEnd_le hk
  rw [hs.visit_eq hk hgood.text hgood.finish]
  refine ⟨hs.size, hs.few, ?_, ?_⟩
  · intro j hj
    have hjnumber := hs.number_toNat hj
    rcases entry_toNat l.rows (BitVec.ofNat 16 j)
      (by rw [hjnumber]; unfold tableSize at hroom hcount; omega) with ⟨hlow, hhigh⟩
    rw [hjnumber] at hlow hhigh
    refine (readw_congr ?_ ?_).trans (hs.rows j hj)
    · exact hs.cut_mem_other hk fun i hi => by omega
    · exact hs.cut_mem_other hk fun i hi => by omega
  · intro j hj hnonzero hfinish
    by_cases hsame : j = k
    · subst hsame
      have hnow : (s.cut l file j).current file j = commandOf (s.current file j) := by
        rw [commandOf_current]
        unfold Present.current
        rw [visited_cut, hnumber, beq_self_eq_true, Bool.or_true, if_pos rfl]
      rw [hnow]
      exact (hs.text j hj hgood.text hgood.finish).command
    · have hbefore : (s.cut l file k).current file j = s.current file j := by
        unfold Present.current
        rw [visited_cut, hnumber, beq_eq_false_iff_ne.mpr fun heq => hsame heq.symm,
          Bool.or_false]
      have hplace : lineEnd 0x0a file j =
          lineStart 0x0a file j + (slide file j).length := rfl
      rw [hbefore]
      rw [hs.cut_mem_line hk hj (by omega) (Nat.le_refl _) fun _ => rfl] at hfinish
      refine (hs.text j hj hnonzero hfinish).congr fun i hi => ?_
      have hless := length_current_le s file j
      rw [offsetFrom_offsetFrom]
      exact hs.cut_mem_line hk hj (Nat.le_add_right _ _) (by omega)
        fun heq => absurd heq hsame

theorem Slides.right_visit (hs : Slides l file s) (hgood : GoodVisit l file s k)
    (hvisits : forall v, v ∈ s.visits -> v.1.toNat < slideCount file ∧
      v.2 = some (commandOf (slide file v.1.toNat), argOf (slide file v.1.toNat))) :
    (s.visit l (BitVec.ofNat 16 k)).Right file := by
  have hk := hgood.line
  have hnumber := hs.number_toNat hk
  have harg : argOf (s.current file k) = argOf (slide file k) := by
    unfold Present.current
    split
    · next hvisited => rw [argOf_commandOf, hgood.again hvisited]
    · rfl
  rw [hs.visit_eq hk hgood.text hgood.finish]
  constructor
  · unfold Present.cut
    rw [List.forall_mem_append, List.forall_mem_singleton]
    refine ⟨hvisits, ?_⟩
    dsimp only
    rw [hnumber, harg]
    exact ⟨hk, rfl⟩
  · unfold Present.cut
    dsimp only
    rw [hnumber]
    exact hk

/-- A line with an argument is not run completely when it is visited again. -/
theorem Slides.not_right_again (hs : Slides l file s) (hk : k < slideCount file)
    (htext : 0 ∉ slide file k)
    (hfinish : s.mem (offsetFrom l.content (lineEnd 0x0a file k)) = 0)
    (hvisited : s.visited k = true) (harg : argOf (slide file k) ≠ []) :
    ¬ (s.visit l (BitVec.ofNat 16 k)).Right file := by
  intro hright
  have hlast := hright.visits
  rw [hs.visit_eq hk htext hfinish] at hlast
  unfold Present.cut Present.current at hlast
  rw [if_pos hvisited, argOf_commandOf, List.forall_mem_append,
    List.forall_mem_singleton] at hlast
  dsimp only at hlast
  rw [hs.number_toNat hk, Option.some.injEq, Prod.mk.injEq] at hlast
  exact harg hlast.2.2.2.symm

/-- A good key keeps everything right. -/
theorem Slides.key (hs : Slides l file s) (hright : s.Right file) {c : Byte}
    (hgood : GoodTurn l file s c) :
    Slides l file (s.key l c) ∧ (s.key l c).Right file := by
  have hslide := hright.slide
  have hcount := hs.count_le
  unfold tableSize at hcount
  have hvisit : forall j, GoodVisit l file s j ->
      Slides l file (s.visit l (BitVec.ofNat 16 j)) ∧
        (s.visit l (BitVec.ofNat 16 j)).Right file :=
    fun j hj => ⟨hs.visit hj, hs.right_visit hj hright.visits⟩
  unfold Present.key
  split
  · next hn =>
      split
      · next hrow =>
          have hnext : s.i + 1 = BitVec.ofNat 16 (s.i.toNat + 1) := by
            bv_omega
          rw [hnext]
          exact hvisit _ (hgood.next hn hrow)
      · exact ⟨hs, hright⟩
  · split
    · next hp =>
        split
        · next hpos =>
            have hback : s.i - 1 = BitVec.ofNat 16 (s.i.toNat - 1) := by
              rw [BitVec.toInt_eq_toNat_of_lt (by omega)] at hpos
              bv_omega
            rw [hback]
            exact hvisit _ (hgood.back hp hpos)
        · exact ⟨hs, hright⟩
    · exact ⟨hs, hright⟩

/-- As long as every visit is a good one, each of them runs the command of its line
with the complete argument, and the number of the slide is that of a line. -/
theorem presentation_runs_lines
    (hs : Reachable (GoodStart l file) (GoodTurnStep l file) s) : s.Right file := by
  have hinv : Slides l file s ∧ s.Right file := by
    apply hs.invariant (I := fun s => Slides l file s ∧ s.Right file)
    · intro s hs
      rcases hs with ⟨m, seg, hloaded, hfew, hgood, rfl⟩
      have hslides := slides_loaded hloaded hfew
      exact ⟨hslides.visit hgood, hslides.right_visit hgood nofun⟩
    · intro s s' hs hstep
      rcases hstep with ⟨c, _, hgood, rfl⟩
      exact hs.1.key hs.2 hgood
  exact hinv.2

end Slides

/-!
# A file of two lines
-/

def twoLines : List Byte := [0x61, 0x20, 0x62, 0x0a, 0x63, 0x0a]

def twoLinesLayout : PresentLayout where
  content := 0x2000
  rows := 0xf000
  nonnull := by decide
  behind := by decide
  room := by decide

def twoLinesMem : Mem :=
  fun x => if 0x12500 ≤ x then twoLines.getD (x - 0x12500) 0 else 0

def twoLinesLoaded : Present :=
  presentLoaded twoLinesLayout twoLinesMem 0x1050 (BitVec.ofNat 16 twoLines.length)

theorem twoLines_loaded : FileLoaded twoLinesLayout twoLines twoLinesMem 0x1050 := by
  refine ⟨⟨by decide, 0, rfl⟩, by decide, ?_⟩
  intro x hx
  change x < 6 at hx
  interval_cases x <;> rfl

theorem twoLines_finish {k : Nat} (hk : k < 2) :
    twoLinesLoaded.mem (offsetFrom twoLinesLayout.content (lineEnd 0x0a twoLines k)) =
      0 := by
  have hzero : lineEnd 0x0a twoLines k < twoLines.length ∧
      twoLines.getD (lineEnd 0x0a twoLines k) 0 = 0x0a := by
    interval_cases k
    · decide
    · decide
  unfold twoLinesLoaded presentLoaded
  dsimp only
  rw [(presentRows_spec twoLines_loaded (by decide)).1 _ hzero.1, if_pos hzero.2]

theorem twoLines_first : GoodVisit twoLinesLayout twoLines twoLinesLoaded 0 :=
  ⟨by decide, by decide, twoLines_finish (by decide), nofun⟩

theorem twoLines_slides : Slides twoLinesLayout twoLines twoLinesLoaded :=
  slides_loaded twoLines_loaded (by decide)

def firstSlide : Present :=
  twoLinesLoaded.cut twoLinesLayout twoLines 0

theorem firstSlide_eq : twoLinesLoaded.visit twoLinesLayout 0 = firstSlide :=
  twoLines_slides.visit_eq (by decide) (by decide) (twoLines_finish (by decide))

theorem firstSlide_slides : Slides twoLinesLayout twoLines firstSlide :=
  firstSlide_eq ▸ twoLines_slides.visit twoLines_first

theorem firstSlide_finish {k : Nat} (hk : k < 2) :
    firstSlide.mem (offsetFrom twoLinesLayout.content (lineEnd 0x0a twoLines k)) = 0 :=
  (twoLines_slides.cut_mem_line (by decide) (j := k) hk (Nat.le_add_right _ _)
    (Nat.le_refl _) fun _ => rfl).trans (twoLines_finish hk)

theorem firstSlide_second : GoodVisit twoLinesLayout twoLines firstSlide 1 := by
  refine ⟨by decide, by decide, firstSlide_finish (by decide), ?_⟩
  intro hvisited
  unfold firstSlide at hvisited
  rw [visited_cut] at hvisited
  cases hvisited

def secondSlide : Present :=
  firstSlide.cut twoLinesLayout twoLines 1

theorem firstSlide_next : firstSlide.key twoLinesLayout 0x6e = secondSlide := by
  have hrow : rowAt firstSlide.mem twoLinesLayout.rows (firstSlide.i + 1) ≠ 0 := by
    refine (congrArg (· ≠ 0) (firstSlide_slides.rows 1 (by decide))).mpr ?_
    decide
  unfold Present.key
  rw [if_pos rfl, if_pos hrow]
  exact firstSlide_slides.visit_eq firstSlide_second.line firstSlide_second.text
    firstSlide_second.finish

theorem presentation_runs_two_lines :
    secondSlide.visits = [(0, some ([0x61], [0x62])), (1, some ([0x63], []))] ∧
      secondSlide.Right twoLines := by
  have hstart : GoodStart twoLinesLayout twoLines firstSlide :=
    ⟨twoLinesMem, 0x1050, twoLines_loaded, by decide, twoLines_first,
      firstSlide_eq.symm⟩
  have hturn : GoodTurn twoLinesLayout twoLines firstSlide 0x6e :=
    ⟨fun _ _ => firstSlide_second, fun h => absurd h (by decide)⟩
  exact ⟨by decide +kernel, presentation_runs_lines (.step (.start hstart)
    ⟨0x6e, rfl, hturn, firstSlide_next.symm⟩)⟩

/-- Forward to the second slide and back to the first one, which has lost its
argument. -/
theorem presentation_loses_argument : exists (l : PresentLayout) (file : List Byte)
    (s : Present),
    Reachable (PresentStart l file) (fun s s' => exists c, (c = 0x6e ∨ c = 0x70) ∧
      s.running = true ∧ s' = s.key l c) s ∧ ¬ s.Right file := by
  have hslides : Slides twoLinesLayout twoLines secondSlide := by
    have hvisit : firstSlide.visit twoLinesLayout 1 = secondSlide :=
      firstSlide_slides.visit_eq firstSlide_second.line firstSlide_second.text
        firstSlide_second.finish
    exact hvisit ▸ firstSlide_slides.visit firstSlide_second
  have hfinish : secondSlide.mem
      (offsetFrom twoLinesLayout.content (lineEnd 0x0a twoLines 0)) = 0 :=
    (firstSlide_slides.cut_mem_line (by decide) (j := 0) (by decide)
      (Nat.le_add_right _ _) (Nat.le_refl _) fun _ => rfl).trans
      (firstSlide_finish (by decide))
  have hvisited : secondSlide.visited 0 = true := by
    unfold secondSlide firstSlide
    rw [visited_cut, visited_cut]
    rfl
  have hback : secondSlide.key twoLinesLayout 0x70 =
      secondSlide.visit twoLinesLayout 0 := by
    have hfirst : secondSlide.i - 1 = 0 := by decide
    unfold Present.key
    rw [if_neg (by decide), if_pos rfl, if_pos (by decide), hfirst]
  refine ⟨twoLinesLayout, twoLines, secondSlide.visit twoLinesLayout 0, ?_,
    hslides.not_right_again (by decide) (by decide) hfinish hvisited (by decide)⟩
  have hstart : Reachable (PresentStart twoLinesLayout twoLines) (fun s s' => exists c,
      (c = 0x6e ∨ c = 0x70) ∧ s.running = true ∧ s' = s.key twoLinesLayout c)
      firstSlide :=
    Reachable.start ⟨twoLinesMem, 0x1050, twoLines_loaded, firstSlide_eq.symm⟩
  have hsecond := Reachable.step hstart ⟨0x6e, Or.inl rfl, rfl, firstSlide_next.symm⟩
  exact Reachable.step hsecond ⟨0x70, Or.inr rfl, rfl, hback.symm⟩

end Init
end Rmmtos
