import Rmmtos.Memory
import Rmmtos.Kernel.HeapInvariant

/-!
# The screen

The text screen of {lit}`char/screen.c`.  It is a window of 25 lines on a page
that has as many lines as are written.
-/

namespace Rmmtos
namespace Kernel

open Library

def screenSegment : Word := 0xb800

def screenWidth : Word := 80

def screenHeight : Word := 25

/-- The static {lit}`attr`, which no function changes. -/
def screenAttr : Byte := 0xf0

/-- The memory, the static data of the driver and the cursor of the video
controller. -/
structure Screen where
  mem : Mem
  col : Word
  row : Word
  cursor : Word

/-- The position that the controller's registers 14 and 15 are given. -/
def setCursor (s : Screen) : Screen :=
  { s with cursor := s.row * screenWidth + s.col }

/-- The last line is filled by words, not by bytes, so that the line behind the
page is filled as well. -/
def scrollMem (m : Mem) : Mem :=
  let r := screenWidth * 2
  let empty := (0x20 : Word) ||| screenAttr.setWidth 16 <<< 8
  let m := farmemcpy m 0 r (r * (screenHeight - 1)) screenSegment screenSegment
  farmemsetw m (r * (screenHeight - 1)) empty r screenSegment

def scroll (s : Screen) : Screen :=
  { s with mem := scrollMem s.mem }

def newline (s : Screen) : Screen :=
  let s := if s.row = screenHeight - 1 then scroll s
    else { s with row := s.row + 1 }
  { s with col := 0 }

def tab (s : Screen) : Screen :=
  let s := { s with col := (s.col + 8) &&& ~~~7 }
  if s.col = screenWidth then newline s else s

def cellIndex (s : Screen) : Word :=
  (s.row * screenWidth + s.col) * 2

def backspace (s : Screen) : Screen :=
  let s := if 0 < s.col then { s with col := s.col - 1 } else s
  { s with mem := poke s.mem screenSegment (cellIndex s) 0x20 }

def screenPutch (s : Screen) (c : Byte) : Screen :=
  setCursor <|
    if c = 0x0a then newline s
    else if c = 0x09 then tab s
    else if c = 0x08 then backspace s
    else
      let s := { s with
        mem := poke s.mem screenSegment (cellIndex s) c
        col := s.col + 1 }
      if s.col = screenWidth then newline s else s

def clearScreen (s : Screen) : Screen :=
  { s with
    mem := writeRun (fun i => linear screenSegment (offsetFrom 0 i))
      (fun i => if i % 2 = 0 then 0x20 else screenAttr)
      (screenWidth * screenHeight * 2).toNat s.mem }

def screenInit (s : Screen) : Screen :=
  setCursor (clearScreen s)

/-- The state of {lit}`screen_write` after some bytes of its buffer. -/
def screenTurns (s : Screen) (buffer : Word) (n : Nat) : Screen :=
  (List.range n).foldl
    (fun s i => screenPutch s (peek s.mem kernelSegment (offsetFrom buffer i))) s

def screenWrite (s : Screen) (buffer size : Word) : Word × Screen :=
  (size, screenTurns s buffer size.toNat)

/-!
# The page

A terminal that never scrolls, because it has a line for every number.
-/

structure Paper where
  cell : Nat -> Nat -> Byte
  line : Nat
  col : Nat

def Paper.blank : Paper where
  cell := fun _ _ => 0x20
  line := 0
  col := 0

def Paper.set (p : Paper) (c : Byte) : Paper :=
  { p with cell := fun l k => if l = p.line ∧ k = p.col then c else p.cell l k }

def Paper.newline (p : Paper) : Paper :=
  { p with line := p.line + 1, col := 0 }

def Paper.wrap (p : Paper) : Paper :=
  if p.col = 80 then p.newline else p

def Paper.putch (p : Paper) (c : Byte) : Paper :=
  if c = 0x0a then p.newline
  else if c = 0x09 then { p with col := (p.col / 8 + 1) * 8 }.wrap
  else if c = 0x08 then { p with col := p.col - 1 }.set 0x20
  else { p.set c with col := p.col + 1 }.wrap

def paperOf (bytes : List Byte) : Paper :=
  bytes.foldl Paper.putch Paper.blank

/-!
# The window
-/

def screenCell (m : Mem) (r c : Nat) : Byte :=
  peek m screenSegment (BitVec.ofNat 16 ((r * 80 + c) * 2))

/-- The lines of the screen are the last lines of the page, and nothing is
written below the cursor yet. -/
structure Window (s : Screen) (p : Paper) : Prop where
  row : s.row.toNat = min p.line 24
  cells : forall r c, r < 25 -> c < 80 ->
    screenCell s.mem r c = p.cell (r + (p.line - 24)) c
  blank : forall l c, p.line < l -> p.cell l c = 0x20

/-- The cursors are in the same column as well. -/
structure Shows (s : Screen) (p : Paper) : Prop where
  window : Window s p
  col : s.col.toNat = p.col
  col_lt : p.col < 80

section Memory

variable {m : Mem} {r c : Nat}

theorem cell_inj {r' c' : Nat} (hr : r < 25) (hc : c < 80) (hr' : r' < 25)
    (hc' : c' < 80)
    (h : BitVec.ofNat 16 ((r * 80 + c) * 2) =
      BitVec.ofNat 16 ((r' * 80 + c') * 2)) : r = r' ∧ c = c' := by
  have hnat := congrArg BitVec.toNat h
  rw [BitVec.toNat_ofNat, BitVec.toNat_ofNat, Nat.mod_eq_of_lt (by omega),
    Nat.mod_eq_of_lt (by omega)] at hnat
  omega

theorem cellIndex_eq (s : Screen) :
    cellIndex s = BitVec.ofNat 16 ((s.row.toNat * 80 + s.col.toNat) * 2) := by
  unfold cellIndex screenWidth
  bv_omega

theorem screenCell_poke (v : Byte) {r' c' : Nat} (hr : r < 25) (hc : c < 80)
    (hr' : r' < 25) (hc' : c' < 80) :
    screenCell (poke m screenSegment (BitVec.ofNat 16 ((r * 80 + c) * 2)) v)
        r' c' = if r' = r ∧ c' = c then v else screenCell m r' c' := by
  unfold screenCell peek
  split
  · next h =>
      rw [h.1, h.2]
      exact poke_at _ _ _ _
  · next h =>
      refine poke_other fun heq => h ?_
      exact cell_inj hr' hc' hr hc (linear_injective heq)

theorem offsetFrom_ofNat (base : Word) (n : Nat) :
    offsetFrom base n = BitVec.ofNat 16 (base.toNat + n) := by
  unfold offsetFrom
  rw [BitVec.ofNat_add, BitVec.ofNat_toNat, BitVec.setWidth_eq]

theorem screenCell_scroll (hr : r < 25) (hc : c < 80) :
    screenCell (scrollMem m) r c =
      if r < 24 then screenCell m (r + 1) c else 0x20 := by
  unfold screenCell peek scrollMem
  split
  · next hless =>
      rw [farmemsetw_other]
      · have hdest : BitVec.ofNat 16 ((r * 80 + c) * 2) =
            offsetFrom 0 ((r * 80 + c) * 2) := by
          rw [offsetFrom_ofNat]
          exact congrArg _ (Nat.zero_add _).symm
        have hsrc : BitVec.ofNat 16 (((r + 1) * 80 + c) * 2) =
            offsetFrom (screenWidth * 2) ((r * 80 + c) * 2) := by
          rw [offsetFrom_ofNat]
          congr 1
          change _ = 160 + _
          omega
        rw [hdest, hsrc]
        exact farmemcpy_down m (by decide) (by decide)
          (by change _ < 3840; omega)
      · intro i hi heq
        change i < 320 at hi
        have hsame := linear_injective heq
        rw [offsetFrom_ofNat] at hsame
        have hnat := congrArg BitVec.toNat hsame
        rw [BitVec.toNat_ofNat, BitVec.toNat_ofNat] at hnat
        change _ = (3840 + i) % _ at hnat
        omega
  · next hlast =>
      have hdest : BitVec.ofNat 16 ((r * 80 + c) * 2) =
          offsetFrom (screenWidth * 2 * (screenHeight - 1)) (c * 2) := by
        rw [offsetFrom_ofNat]
        congr 1
        change _ = 3840 + _
        omega
      rw [hdest, farmemsetw_at _ (by decide) (by change _ < 320; omega)]
      unfold wordByte
      rw [if_pos (Nat.mul_mod_left c 2)]
      decide

end Memory

/-!
# One byte

Both terminals write a cell and go to a new line in the same way.
-/

section Steps

variable {s : Screen} {p : Paper}

theorem Window.row_lt (h : Window s p) : s.row.toNat < 25 := by
  have hrow := h.row
  omega

theorem Window.set (h : Window s p) (hcol : s.col.toNat = p.col)
    (hlt : p.col < 80) (v : Byte) :
    Window { s with mem := poke s.mem screenSegment (cellIndex s) v }
      (p.set v) := by
  have hrow := h.row
  refine ⟨hrow, ?_, ?_⟩
  · intro r c hr hc
    dsimp only
    rw [cellIndex_eq, screenCell_poke v h.row_lt (by omega) hr hc,
      h.cells r c hr hc]
    unfold Paper.set
    refine if_congr ?_ rfl rfl
    dsimp only
    rw [hcol]
    exact and_congr_left fun _ => by omega
  · intro l c hl
    unfold Paper.set at hl ⊢
    dsimp only at hl ⊢
    rw [if_neg fun heq => Nat.ne_of_gt hl heq.1]
    exact h.blank l c hl

theorem Window.newline (h : Window s p) : Shows (newline s) p.newline := by
  have hrow := h.row
  unfold Kernel.newline Paper.newline
  refine ⟨⟨?_, ?_, ?_⟩, rfl, Nat.zero_lt_succ 79⟩
  · dsimp only
    split
    · next hend =>
        have hend := congrArg BitVec.toNat hend
        change s.row.toNat = 24 at hend
        change s.row.toNat = _
        omega
    · next hmore =>
        have hmore : s.row.toNat ≠ 24 := fun hend =>
          hmore (BitVec.eq_of_toNat_eq hend)
        change (s.row + 1).toNat = _
        rw [BitVec.toNat_add_of_lt (by change s.row.toNat + 1 < _; omega)]
        change s.row.toNat + 1 = _
        omega
  · intro r c hr hc
    dsimp only
    split
    · next hend =>
        have hend := congrArg BitVec.toNat hend
        change s.row.toNat = 24 at hend
        change screenCell (scrollMem s.mem) r c = _
        rw [screenCell_scroll hr hc]
        split
        · rw [h.cells (r + 1) c (by omega) hc]
          congr 1
          omega
        · exact (h.blank _ c (by omega)).symm
    · next hmore =>
        have hmore : s.row.toNat ≠ 24 := fun hend =>
          hmore (BitVec.eq_of_toNat_eq hend)
        change screenCell s.mem r c = _
        rw [h.cells r c hr hc]
        congr 1
        omega
  · intro l c hl
    exact h.blank l c (Nat.lt_of_succ_lt hl)

theorem Window.wrap (h : Window s p) (hcol : s.col.toNat = p.col)
    (hle : p.col ≤ 80) :
    Shows (if s.col = screenWidth then Kernel.newline s else s) p.wrap := by
  unfold Paper.wrap
  by_cases hend : p.col = 80
  · have hlast : s.col = screenWidth := BitVec.eq_of_toNat_eq (hcol.trans hend)
    rw [if_pos hend, if_pos hlast]
    exact h.newline
  · have hmore : s.col ≠ screenWidth := by
      intro heq
      rw [heq] at hcol
      exact hend hcol.symm
    rw [if_neg hend, if_neg hmore]
    exact ⟨h, hcol, Nat.lt_of_le_of_ne hle hend⟩

theorem Shows.tab (h : Shows s p) :
    Shows (tab s) { p with col := (p.col / 8 + 1) * 8 }.wrap := by
  have hlt := h.col_lt
  have hcol := h.col
  have hmoved : ((s.col + 8) &&& ~~~7 : Word).toNat = (p.col / 8 + 1) * 8 := by
    rw [nextByte_toNat (by omega), hcol, Nat.succ_mul]
  have hwindow : Window { s with col := (s.col + 8) &&& ~~~7 }
      { p with col := (p.col / 8 + 1) * 8 } :=
    ⟨h.window.row, h.window.cells, h.window.blank⟩
  exact hwindow.wrap hmoved (by dsimp only; omega)

theorem Shows.backspace (h : Shows s p) :
    Shows (backspace s) ({ p with col := p.col - 1 }.set 0x20) := by
  have hlt := h.col_lt
  have hcol := h.col
  have hback : (if 0 < s.col then { s with col := s.col - 1 } else s) =
      { s with col := BitVec.ofNat 16 (p.col - 1) } := by
    split
    · next hpos =>
        have hone : s.col - 1 = BitVec.ofNat 16 (p.col - 1) := by
          bv_omega
        rw [hone]
    · next hzero =>
        have hzero : s.col = BitVec.ofNat 16 (p.col - 1) := by
          bv_omega
        rw [← hzero]
  unfold Kernel.backspace
  dsimp only
  rw [hback]
  have hmoved : (BitVec.ofNat 16 (p.col - 1)).toNat = p.col - 1 := by
    rw [BitVec.toNat_ofNat, Nat.mod_eq_of_lt (by omega)]
  have hwindow : Window { s with col := BitVec.ofNat 16 (p.col - 1) }
      { p with col := p.col - 1 } :=
    ⟨h.window.row, h.window.cells, h.window.blank⟩
  have hless : p.col - 1 < 80 := by omega
  exact ⟨hwindow.set hmoved hless 0x20, hmoved, hless⟩

theorem Shows.character (h : Shows s p) (c : Byte) :
    Shows (if s.col + 1 = screenWidth then
        Kernel.newline { s with
          mem := poke s.mem screenSegment (cellIndex s) c
          col := s.col + 1 }
      else { s with
        mem := poke s.mem screenSegment (cellIndex s) c
        col := s.col + 1 })
      { p.set c with col := p.col + 1 }.wrap := by
  have hlt := h.col_lt
  have hcol := h.col
  have hmoved : (s.col + 1).toNat = p.col + 1 := by
    bv_omega
  have hset := h.window.set hcol hlt c
  have hwindow : Window { s with
      mem := poke s.mem screenSegment (cellIndex s) c
      col := s.col + 1 } { p.set c with col := p.col + 1 } :=
    ⟨hset.row, hset.cells, hset.blank⟩
  exact hwindow.wrap hmoved hlt

theorem Shows.putch (h : Shows s p) (c : Byte) :
    Shows (screenPutch s c) (p.putch c) := by
  have hcursor : forall {t : Screen} {q : Paper}, Shows t q ->
      Shows (setCursor t) q :=
    fun ht => ⟨⟨ht.window.row, ht.window.cells, ht.window.blank⟩, ht.col,
      ht.col_lt⟩
  unfold screenPutch Paper.putch
  apply hcursor
  split
  · exact h.window.newline
  · split
    · exact h.tab
    · split
      · exact h.backspace
      · exact h.character c

end Steps

/-!
# The buffer

The bytes that are written lie in the segment of the kernel, which the screen
does not touch.
-/

section Buffer

variable {s : Screen}

theorem kernel_apart_screen : SegmentsApart kernelSegment screenSegment := by
  intro off off' h
  have hoff := off.isLt
  have hoff' := off'.isLt
  unfold linear kernelSegment screenSegment at h
  change (80 * 16 + off.toNat) % _ = (47104 * 16 + off'.toNat) % _ at h
  omega

theorem peek_poke_screen (m : Mem) (off off' : Word) (v : Byte) :
    peek (poke m screenSegment off' v) kernelSegment off =
      peek m kernelSegment off :=
  poke_other (kernel_apart_screen off off')

theorem peek_scroll (m : Mem) (off : Word) :
    peek (scrollMem m) kernelSegment off = peek m kernelSegment off := by
  unfold peek scrollMem
  rw [farmemsetw_other fun i _ => kernel_apart_screen off _,
    farmemcpy_other fun i _ => kernel_apart_screen off _]

theorem peek_newline (s : Screen) (off : Word) :
    peek (newline s).mem kernelSegment off = peek s.mem kernelSegment off := by
  unfold newline
  dsimp only
  split
  · exact peek_scroll s.mem off
  · rfl

theorem peek_putch (s : Screen) (c : Byte) (off : Word) :
    peek (screenPutch s c).mem kernelSegment off =
      peek s.mem kernelSegment off := by
  unfold screenPutch setCursor
  dsimp only
  split
  · exact peek_newline s off
  · split
    · unfold tab
      dsimp only
      split
      · exact peek_newline _ off
      · rfl
    · split
      · unfold backspace
        dsimp only
        split <;> exact peek_poke_screen s.mem off _ _
      · split
        · rw [peek_newline]
          exact peek_poke_screen s.mem off _ c
        · exact peek_poke_screen s.mem off _ c

theorem screenTurns_succ (s : Screen) (buffer : Word) (n : Nat) :
    screenTurns s buffer (n + 1) = screenPutch (screenTurns s buffer n)
      (peek (screenTurns s buffer n).mem kernelSegment (offsetFrom buffer n)) := by
  unfold screenTurns
  rw [List.range_succ, List.foldl_append]
  rfl

theorem peek_screenTurns (s : Screen) (buffer : Word) (n : Nat) (off : Word) :
    peek (screenTurns s buffer n).mem kernelSegment off =
      peek s.mem kernelSegment off := by
  induction n with
  | zero => rfl
  | succ n ih => rw [screenTurns_succ, peek_putch, ih]

theorem Shows.turns {written : List Byte} (h : Shows s (paperOf written))
    (buffer : Word) (n : Nat) :
    Shows (screenTurns s buffer n)
      (paperOf (written ++ bytesAt s.mem buffer n)) := by
  induction n with
  | zero =>
      unfold bytesAt
      rw [List.range_zero, List.map_nil, List.append_nil]
      exact h
  | succ n ih =>
      rw [screenTurns_succ, peek_screenTurns, bytesAt_succ, ← List.append_assoc]
      unfold paperOf at ih ⊢
      rw [List.foldl_append]
      exact ih.putch _

end Buffer

/-!
# Runs
-/

structure ScreenRun where
  screen : Screen
  written : List Byte

/-- The visible page is the same in two memories. -/
def SamePage (m m' : Mem) : Prop :=
  forall off : Word, off < screenWidth * screenHeight * 2 ->
    peek m' screenSegment off = peek m screenSegment off

def ScreenStart (s : ScreenRun) : Prop :=
  exists m, s = ⟨screenInit ⟨m, 0, 0, 0⟩, []⟩

/-- A buffer is written after anything else has happened to the memory behind
the page. -/
def ScreenStep (s s' : ScreenRun) : Prop :=
  exists m buffer size, SamePage s.screen.mem m ∧
    s' = ⟨(screenWrite { s.screen with mem := m } buffer size).2,
      s.written ++ bytesAt m buffer size.toNat⟩

section Runs

variable {s : ScreenRun}

theorem cellOffset_lt {r c : Nat} (hr : r < 25) (hc : c < 80) :
    (BitVec.ofNat 16 ((r * 80 + c) * 2) : Word) <
      screenWidth * screenHeight * 2 := by
  rw [BitVec.lt_def, BitVec.toNat_ofNat, Nat.mod_eq_of_lt (by omega)]
  change _ < 4000
  omega

theorem Shows.samePage {p : Paper} {m : Mem} (h : Shows s.screen p)
    (hm : SamePage s.screen.mem m) : Shows { s.screen with mem := m } p := by
  refine ⟨⟨h.window.row, ?_, h.window.blank⟩, h.col, h.col_lt⟩
  intro r c hr hc
  rw [← h.window.cells r c hr hc]
  exact hm _ (cellOffset_lt hr hc)

theorem ScreenStart.shows (hs : ScreenStart s) :
    Shows s.screen (paperOf s.written) := by
  rcases hs with ⟨m, rfl⟩
  refine ⟨⟨rfl, ?_, fun _ _ _ => rfl⟩, rfl, Nat.zero_lt_succ 79⟩
  intro r c hr hc
  have hoff : BitVec.ofNat 16 ((r * 80 + c) * 2) =
      offsetFrom 0 ((r * 80 + c) * 2) := by
    rw [offsetFrom_ofNat]
    exact congrArg _ (Nat.zero_add _).symm
  unfold screenCell peek
  rw [hoff]
  refine (writeRun_at (fun i j hi hj h => ?_) ?_).trans ?_
  · change i < 4000 at hi
    change j < 4000 at hj
    exact offsetFrom_injective (by unfold wordCount; omega)
      (by unfold wordCount; omega) (linear_injective h)
  · change _ < 4000
    omega
  · exact if_pos (Nat.mul_mod_left _ 2)

theorem shows_of_reachable (hs : Reachable ScreenStart ScreenStep s) :
    Shows s.screen (paperOf s.written) := by
  apply hs.invariant (I := fun s => Shows s.screen (paperOf s.written))
    (fun s hs => hs.shows)
  intro s s' hs hstep
  rcases hstep with ⟨m, buffer, size, hm, rfl⟩
  exact (hs.samePage hm).turns buffer size.toNat

/-- After every byte of every write the cursor is on the screen, and the screen
shows the last lines of the page. -/
theorem screen_shows_window (hs : Reachable ScreenStart ScreenStep s) {m : Mem}
    (hm : SamePage s.screen.mem m) (buffer : Word) (n : Nat) :
    Shows (screenTurns { s.screen with mem := m } buffer n)
        (paperOf (s.written ++ bytesAt m buffer n)) ∧
      (screenTurns { s.screen with mem := m } buffer n).col < screenWidth ∧
      (screenTurns { s.screen with mem := m } buffer n).row < screenHeight := by
  have hturns := ((shows_of_reachable hs).samePage hm).turns buffer n
  refine ⟨hturns, ?_, hturns.window.row_lt⟩
  rw [BitVec.lt_def, hturns.col]
  exact hturns.col_lt

end Runs

def clearedScreen : ScreenRun :=
  ⟨screenInit ⟨fun _ => 0x41, 0, 0, 0⟩, []⟩

theorem screen_shows_window_cleared :
    Shows (screenTurns clearedScreen.screen 0x9000 3)
        (paperOf ([] ++ bytesAt clearedScreen.screen.mem 0x9000 3)) ∧
      (screenTurns clearedScreen.screen 0x9000 3).col < screenWidth ∧
      (screenTurns clearedScreen.screen 0x9000 3).row < screenHeight :=
  screen_shows_window (s := clearedScreen) (Reachable.start ⟨_, rfl⟩)
    (fun _ _ => rfl) 0x9000 3

end Kernel
end Rmmtos
