import Rmmtos.Char.Screen

/-!
# The stores to the screen

Every store to the video memory is recorded with its offset.  The stores of a
write make up what it does to the memory.  They stay on the page until the
window has to move, since the last line is then filled by words.
-/

namespace Rmmtos
namespace Kernel

open Library

abbrev VideoStore := Word × Byte

def runVideo (m : Mem) (stores : List VideoStore) : Mem :=
  storeAll m (stores.map fun st => (linear screenSegment st.1, st.2))

def scrollStores (m : Mem) : List VideoStore :=
  let r := screenWidth * 2
  let empty := (0x20 : Word) ||| screenAttr.setWidth 16 <<< 8
  writeStores (offsetFrom 0)
      (copiedValue (fun i => linear screenSegment (offsetFrom 0 i))
        (fun i => linear screenSegment (offsetFrom r i)) m)
      (r * (screenHeight - 1)).toNat ++
    writeStores (offsetFrom (r * (screenHeight - 1))) (wordByte empty)
      (2 * r.toNat)

def newlineStores (s : Screen) : List VideoStore :=
  if s.row = screenHeight - 1 then scrollStores s.mem else []

def tabStores (s : Screen) : List VideoStore :=
  let s := { s with col := (s.col + 8) &&& ~~~7 }
  if s.col = screenWidth then newlineStores s else []

def backspaceStores (s : Screen) : List VideoStore :=
  let s := if 0 < s.col then { s with col := s.col - 1 } else s
  [(cellIndex s, 0x20)]

def putchStores (s : Screen) (c : Byte) : List VideoStore :=
  if c = 0x0a then newlineStores s
  else if c = 0x09 then tabStores s
  else if c = 0x08 then backspaceStores s
  else
    let s' := { s with
      mem := poke s.mem screenSegment (cellIndex s) c
      col := s.col + 1 }
    (cellIndex s, c) :: if s'.col = screenWidth then newlineStores s' else []

/-- The stores of {lit}`screen_write` for some bytes of its buffer. -/
def turnStores (s : Screen) (buffer : Word) (n : Nat) : List VideoStore :=
  (List.range n).flatMap fun i =>
    putchStores (screenTurns s buffer i)
      (peek (screenTurns s buffer i).mem kernelSegment (offsetFrom buffer i))

def OnPage (st : VideoStore) : Prop :=
  st.1 < screenWidth * screenHeight * 2

/-!
# The stores make up the memory
-/

section Memory

variable {s : Screen}

theorem runVideo_append (m : Mem) (xs ys : List VideoStore) :
    runVideo m (xs ++ ys) = runVideo (runVideo m xs) ys := by
  unfold runVideo
  rw [List.map_append, storeAll_append]

theorem runVideo_writeStores (m : Mem) (dest : Nat -> Word) (v : Nat -> Byte)
    (n : Nat) :
    runVideo m (writeStores dest v n) =
      storeAll m (writeStores (fun i => linear screenSegment (dest i)) v n) := by
  unfold runVideo writeStores
  rw [List.map_map]
  rfl

theorem scrollMem_stores (m : Mem) :
    scrollMem m = runVideo m (scrollStores m) := by
  unfold scrollStores
  dsimp only
  rw [runVideo_append, runVideo_writeStores m, storeAll_copyStores,
    runVideo_writeStores, storeAll_writeStores]
  rfl

theorem newline_stores (s : Screen) :
    (newline s).mem = runVideo s.mem (newlineStores s) := by
  unfold newline newlineStores
  dsimp only
  split
  · exact scrollMem_stores s.mem
  · rfl

theorem screenPutch_stores (s : Screen) (c : Byte) :
    (screenPutch s c).mem = runVideo s.mem (putchStores s c) := by
  unfold screenPutch putchStores setCursor
  dsimp only
  split
  · exact newline_stores s
  · split
    · unfold tab tabStores
      dsimp only
      split
      · exact newline_stores _
      · rfl
    · split
      · unfold backspace backspaceStores
        dsimp only
        split <;> rfl
      · split
        · exact newline_stores _
        · rfl

theorem turnStores_succ (s : Screen) (buffer : Word) (n : Nat) :
    turnStores s buffer (n + 1) = turnStores s buffer n ++
      putchStores (screenTurns s buffer n)
        (peek s.mem kernelSegment (offsetFrom buffer n)) := by
  unfold turnStores
  rw [List.range_succ, List.flatMap_append, List.flatMap_singleton,
    peek_screenTurns]

theorem screenTurns_stores (s : Screen) (buffer : Word) (n : Nat) :
    (screenTurns s buffer n).mem = runVideo s.mem (turnStores s buffer n) := by
  induction n with
  | zero => rfl
  | succ n ih =>
      rw [screenTurns_succ, peek_screenTurns, screenPutch_stores, ih,
        turnStores_succ, runVideo_append]

end Memory

/-!
# The stores on the page
-/

section Page

variable {s : Screen} {p : Paper}

theorem cellIndex_onPage (hrow : s.row.toNat < 25) (hcol : s.col.toNat < 80)
    (c : Byte) : OnPage (cellIndex s, c) := by
  unfold OnPage
  rw [cellIndex_eq]
  exact cellOffset_lt hrow hcol

/-- The line behind the page is filled as well. -/
theorem scroll_not_onPage (m : Mem) :
    ¬ forall st, st ∈ scrollStores m -> OnPage st := by
  intro hall
  let empty := (0x20 : Word) ||| screenAttr.setWidth 16 <<< 8
  have hmem : (offsetFrom (screenWidth * 2 * (screenHeight - 1)) 160,
      wordByte empty 160) ∈ scrollStores m := by
    apply List.mem_append_right
    exact List.mem_map.mpr ⟨160, List.mem_range.mpr (by decide), rfl⟩
  have hpage := hall _ hmem
  revert hpage
  unfold OnPage
  decide

theorem Window.newline_onPage_iff (h : Window s p) :
    (forall st, st ∈ newlineStores s -> OnPage st) <-> p.line < 24 := by
  have hrow := h.row
  unfold newlineStores
  split
  · next hend =>
      have hend := congrArg BitVec.toNat hend
      change s.row.toNat = 24 at hend
      constructor
      · intro hall
        exact absurd hall (scroll_not_onPage s.mem)
      · intro hless
        omega
  · next hmore =>
      have hmore : s.row.toNat ≠ 24 := fun hend =>
        hmore (BitVec.eq_of_toNat_eq hend)
      constructor
      · intro _
        omega
      · intro _ st hst
        cases hst

theorem Window.wrap_onPage_iff (h : Window s p) (hcol : s.col.toNat = p.col) :
    (forall st, st ∈ (if s.col = screenWidth then newlineStores s else []) ->
      OnPage st) <-> p.wrap.line ≤ max p.line 24 := by
  unfold Paper.wrap
  by_cases hend : p.col = 80
  · have hlast : s.col = screenWidth := BitVec.eq_of_toNat_eq (hcol.trans hend)
    rw [if_pos hend, if_pos hlast, h.newline_onPage_iff]
    unfold Paper.newline
    dsimp only
    omega
  · have hmore : s.col ≠ screenWidth := by
      intro heq
      rw [heq] at hcol
      exact hend hcol.symm
    rw [if_neg hend, if_neg hmore]
    constructor
    · intro _
      exact Nat.le_max_left _ _
    · intro _ st hst
      cases hst

/-- One byte stays on the page when it does not begin a line behind the last
one. -/
theorem Shows.putch_onPage_iff (h : Shows s p) (c : Byte) :
    (forall st, st ∈ putchStores s c -> OnPage st) <->
      (p.putch c).line ≤ max p.line 24 := by
  have hlt := h.col_lt
  have hcol := h.col
  have hrow := h.window.row_lt
  unfold putchStores Paper.putch
  split
  · rw [h.window.newline_onPage_iff]
    unfold Paper.newline
    dsimp only
    omega
  · split
    · have hmoved : ((s.col + 8) &&& ~~~7 : Word).toNat = (p.col / 8 + 1) * 8 := by
        rw [nextByte_toNat (by omega), hcol, Nat.succ_mul]
      have hwindow : Window { s with col := (s.col + 8) &&& ~~~7 }
          { p with col := (p.col / 8 + 1) * 8 } :=
        ⟨h.window.row, h.window.cells, h.window.blank⟩
      exact hwindow.wrap_onPage_iff hmoved
    · split
      · have hback : forall st, st ∈ backspaceStores s -> OnPage st := by
          intro st hst
          unfold backspaceStores at hst
          rw [List.mem_singleton.mp hst]
          split
          · next hpos =>
              have hless : (s.col - 1).toNat < 80 := by
                bv_omega
              exact cellIndex_onPage (s := { s with col := s.col - 1 }) hrow hless _
          · exact cellIndex_onPage hrow (hcol ▸ hlt) _
        exact ⟨fun _ => Nat.le_max_left _ _, fun _ => hback⟩
      · have hmoved : (s.col + 1).toNat = p.col + 1 := by
          bv_omega
        have hset := h.window.set hcol hlt c
        have hwindow : Window { s with
            mem := poke s.mem screenSegment (cellIndex s) c
            col := s.col + 1 } { p.set c with col := p.col + 1 } :=
          ⟨hset.row, hset.cells, hset.blank⟩
        rw [List.forall_mem_cons]
        constructor
        · intro hall
          exact (hwindow.wrap_onPage_iff hmoved).mp hall.2
        · intro hline
          exact ⟨cellIndex_onPage hrow (hcol ▸ hlt) c,
            (hwindow.wrap_onPage_iff hmoved).mpr hline⟩

theorem Paper.line_le_wrap (p : Paper) : p.line ≤ p.wrap.line := by
  unfold Paper.wrap
  split
  · exact Nat.le_succ p.line
  · exact Nat.le_refl p.line

theorem Paper.line_le_putch (p : Paper) (c : Byte) :
    p.line ≤ (p.putch c).line := by
  unfold Paper.putch
  split
  · exact Nat.le_succ p.line
  · split
    · exact Paper.line_le_wrap { p with col := (p.col / 8 + 1) * 8 }
    · split
      · exact Nat.le_refl p.line
      · exact Paper.line_le_wrap { p.set c with col := p.col + 1 }

theorem Paper.line_le_foldl (p : Paper) (bytes : List Byte) :
    p.line ≤ (bytes.foldl Paper.putch p).line := by
  induction bytes generalizing p with
  | nil => exact Nat.le_refl p.line
  | cons c rest ih => exact Nat.le_trans (p.line_le_putch c) (ih (p.putch c))

theorem Shows.turns_onPage_iff {written : List Byte}
    (h : Shows s (paperOf written)) (buffer : Word) (n : Nat) :
    (forall st, st ∈ turnStores s buffer n -> OnPage st) <->
      (paperOf (written ++ bytesAt s.mem buffer n)).line ≤
        max (paperOf written).line 24 := by
  induction n with
  | zero =>
      unfold turnStores bytesAt
      rw [List.range_zero, List.map_nil, List.append_nil]
      exact ⟨fun _ => Nat.le_max_left _ _, fun _ st hst => by cases hst⟩
  | succ n ih =>
      let c := peek s.mem kernelSegment (offsetFrom buffer n)
      let q := paperOf (written ++ bytesAt s.mem buffer n)
      have hbytes : paperOf (written ++ bytesAt s.mem buffer (n + 1)) =
          q.putch c := by
        unfold q paperOf
        rw [bytesAt_succ, ← List.append_assoc, List.foldl_append]
        rfl
      have hstep := (h.turns buffer n).putch_onPage_iff c
      have hbefore : (paperOf written).line ≤ q.line := by
        unfold q
        unfold paperOf
        rw [List.foldl_append]
        exact Paper.line_le_foldl _ _
      have hmore := q.line_le_putch c
      change _ <-> q.line ≤ _ at ih
      change _ <-> (q.putch c).line ≤ max q.line 24 at hstep
      rw [turnStores_succ, List.forall_mem_append, ih, hstep, hbytes]
      omega

/-- A write stores to the page only, exactly when it does not move the window:
it begins no line behind the twenty-fifth one. -/
theorem screen_stores_onPage_iff {s : ScreenRun}
    (hs : Reachable ScreenStart ScreenStep s) {m : Mem}
    (hm : SamePage s.screen.mem m) (buffer size : Word) :
    (forall st, st ∈ turnStores { s.screen with mem := m } buffer size.toNat ->
        OnPage st) <->
      (paperOf (s.written ++ bytesAt m buffer size.toNat)).line ≤
        max (paperOf s.written).line 24 :=
  ((shows_of_reachable hs).samePage hm).turns_onPage_iff buffer size.toNat

end Page

/-- A write of two characters to a cleared screen. -/
theorem screen_stores_onPage_cleared :
    (forall st, st ∈ turnStores clearedScreen.screen 0x9000 (2 : Word).toNat ->
        OnPage st) <->
      (paperOf ([] ++ bytesAt clearedScreen.screen.mem 0x9000 (2 : Word).toNat)).line ≤
        max (paperOf []).line 24 :=
  screen_stores_onPage_iff (s := clearedScreen) (Reachable.start ⟨_, rfl⟩)
    (fun _ _ => rfl) 0x9000 2

/-- Twenty-five new lines on a cleared screen: the last one moves the window,
and the line behind the page is written. -/
theorem scroll_leaves_page :
    exists (s : ScreenRun) (m : Mem) (buffer size : Word),
      Reachable ScreenStart ScreenStep s ∧ SamePage s.screen.mem m ∧
        ¬ forall st, st ∈ turnStores { s.screen with mem := m } buffer size.toNat ->
          OnPage st := by
  let m : Mem := fun x => if x < 0xb8000 then 0x0a else clearedScreen.screen.mem x
  have hm : SamePage clearedScreen.screen.mem m := by
    intro off _
    have hoff := off.isLt
    have hplace : ¬ linear screenSegment off < 0xb8000 := by
      unfold linear screenSegment
      change ¬ (47104 * 16 + off.toNat) % _ < _
      omega
    exact if_neg hplace
  have hs : Reachable ScreenStart ScreenStep clearedScreen := Reachable.start ⟨_, rfl⟩
  refine ⟨clearedScreen, m, 0x9000, 25, hs, hm, ?_⟩
  have hshows := (shows_of_reachable hs).samePage hm
  rw [hshows.turns_onPage_iff]
  have hbytes : bytesAt m 0x9000 (25 : Word).toNat = List.replicate 25 0x0a := by
    decide
  change ¬ (paperOf ([] ++ bytesAt m 0x9000 (25 : Word).toNat)).line ≤ _
  rw [hbytes]
  decide

end Kernel
end Rmmtos
