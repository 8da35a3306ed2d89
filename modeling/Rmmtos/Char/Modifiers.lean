import Rmmtos.Char.Keyb

/-!
# The modifiers of the keyboard

What the shift keys, caps lock and the right alt key should be follows from the
bytes that the keyboard has sent.  The handler never recognises the byte that
comes before the code of an extended key, and it ignores every byte while its
buffer is full.
-/

namespace Rmmtos
namespace Kernel

open Library

/-!
# Key events
-/

/-- A byte of the keyboard: its code, whether the key goes down, and whether the
byte before it announces an extended key. -/
structure KeyEvent where
  code : Byte
  make : Bool
  extended : Bool
deriving DecidableEq, Repr

/-- The event of a byte after others, the latest one first. -/
def keyEvent (scancode : Byte) (history : List Byte) : KeyEvent where
  code := scancode &&& 0x7f
  make := scancode &&& 0x80 == 0
  extended := history.head? == some 0xe0

def keyEvents : List Byte -> List KeyEvent
  | [] => []
  | scancode :: history => keyEvent scancode history :: keyEvents history

/-- Whether the latest event of a kind is a make. -/
def latestMake (p : KeyEvent -> Bool) : List KeyEvent -> Bool
  | [] => false
  | e :: events => if p e then e.make else latestMake p events

/-- Whether the number of events of a kind is odd. -/
def oddMany (p : KeyEvent -> Bool) (events : List KeyEvent) : Bool :=
  events.countP p % 2 == 1

def KeyEvent.isPlain (code : Byte) (e : KeyEvent) : Bool :=
  e.code == code && !e.extended

def KeyEvent.isExtended (code : Byte) (e : KeyEvent) : Bool :=
  e.code == code && e.extended

def KeyEvent.isMake (code : Byte) (e : KeyEvent) : Bool :=
  e.code == code && e.make

structure Modifiers (s : Keyb) (events : List KeyEvent) : Prop where
  shiftL : s.shiftL = latestMake (KeyEvent.isPlain 0x2a) events
  shiftR : s.shiftR = latestMake (KeyEvent.isPlain 0x36) events
  caps : s.caps = oddMany (KeyEvent.isMake 0x3a) events
  altgr : s.altgr = latestMake (KeyEvent.isExtended 0x38) events

theorem oddMany_cons (p : KeyEvent -> Bool) (e : KeyEvent) (events : List KeyEvent) :
    oddMany p (e :: events) =
      if p e then !oddMany p events else oddMany p events := by
  unfold oddMany
  rw [List.countP_cons]
  cases p e with
  | false => rfl
  | true =>
      rw [if_pos rfl, if_pos rfl, Bool.eq_iff_iff]
      simp only [beq_iff_eq, Bool.not_eq_true', beq_eq_false_iff_ne]
      omega

/-!
# The handler
-/

def Keyb.Full (s : Keyb) : Prop :=
  bufSize ≤ s.bufferUsed

instance (s : Keyb) : Decidable s.Full :=
  inferInstanceAs (Decidable (bufSize ≤ s.bufferUsed))

/-- The event leaves each modifier as it should be: a modifier that the handler
does not set, or should not set, has its value already. -/
structure Tracked (s : Keyb) (e : KeyEvent) : Prop where
  shiftL : e.code = 0x2a -> (s.Full <-> e.extended = false) -> s.shiftL = e.make
  shiftR : e.code = 0x36 -> (s.Full <-> e.extended = false) -> s.shiftR = e.make
  caps : e.code = 0x3a -> s.Full -> e.make = false
  altgr : e.code = 0x38 -> e.extended = true -> s.altgr = e.make

section Handler

variable {s : Keyb} {scancode : Byte}

/-- A code that has lost its top bit is not the one of the announcing byte. -/
theorem code_ne_e0 (scancode : Byte) : scancode &&& 0x7f ≠ 0xe0 := by
  intro h
  have hbit := congrArg (fun b : Byte => b.getLsbD 7) h
  rw [BitVec.getLsbD_and] at hbit
  revert hbit
  cases scancode.getLsbD 7 with
  | false => decide
  | true => decide

theorem keybFunc_full (h : s.Full) : keybFunc s scancode = s :=
  if_pos h

theorem keybFunc_modifiers (scancode : Byte) (hesc : s.isEsc = false)
    (hroom : ¬ s.Full) :
    (keybFunc s scancode).isEsc = false ∧
      (keybFunc s scancode).shiftL =
        (if scancode &&& 0x7f = 0x2a then scancode &&& 0x80 == 0 else s.shiftL) ∧
      (keybFunc s scancode).shiftR =
        (if scancode &&& 0x7f = 0x36 then scancode &&& 0x80 == 0 else s.shiftR) ∧
      (keybFunc s scancode).caps =
        (if scancode &&& 0x7f = 0x3a ∧ (scancode &&& 0x80 == 0) = true then !s.caps
          else s.caps) ∧
      (keybFunc s scancode).altgr = s.altgr := by
  have hcode := code_ne_e0 scancode
  have hspace : ¬ bufSize ≤ s.bufferUsed := hroom
  have hplain : ¬ s.isEsc = true := Bool.eq_false_iff.mp hesc
  unfold keybFunc
  simp only [if_neg hspace, if_neg hplain]
  generalize scancode &&& 0x7f = code at hcode ⊢
  generalize (scancode &&& 0x80 == 0) = make
  split
  · next h =>
      subst h
      exact ⟨hesc, rfl, rfl, rfl, rfl⟩
  · split
    · next h =>
        subst h
        exact ⟨hesc, rfl, rfl, rfl, rfl⟩
    · split
      · next h =>
          subst h
          cases make with
          | true => exact ⟨hesc, rfl, rfl, rfl, rfl⟩
          | false => exact ⟨hesc, rfl, rfl, rfl, rfl⟩
      · next hcaps =>
          have hnot : ¬ (code = 0x3a ∧ make = true) := fun h => hcaps h.1
          rw [if_neg hnot]
          split
          · exact ⟨hesc, rfl, rfl, rfl, rfl⟩
          · exact ⟨hesc, rfl, rfl, rfl, rfl⟩

/-- The byte that announces an extended key puts nothing in the buffer. -/
theorem keybFunc_e0 (s : Keyb) :
    (keybFunc s 0xe0).bufferUsed = s.bufferUsed ∧
      (keybFunc s 0xe0).keybBuf = s.keybBuf := by
  rcases keybFunc_cases s 0xe0 with ⟨_, hused, hbuf⟩ | ⟨c, hone, _⟩
  · exact ⟨hused, hbuf⟩
  · unfold Keyb.accepts at hone
    rw [if_neg fun h => absurd h.2.2.1 (by decide)] at hone
    cases hone

theorem shift_iff (full : Prop) [Decidable full] {events : List KeyEvent}
    (e : KeyEvent) {code : Byte} {key : Bool}
    (hkey : key = latestMake (KeyEvent.isPlain code) events) :
    (if ¬ full ∧ e.code = code then e.make else key) =
        latestMake (KeyEvent.isPlain code) (e :: events) <->
      (e.code = code -> (full <-> e.extended = false) -> key = e.make) := by
  rw [latestMake, ← hkey, KeyEvent.isPlain]
  by_cases hcode : e.code = code
  · by_cases hfull : full
    · cases e.extended with
      | true => simp [hcode, hfull]
      | false => simp [hcode, hfull]
    · cases e.extended with
      | true => simp [hcode, hfull, eq_comm]
      | false => simp [hcode, hfull]
  · simp [hcode]

theorem keybFunc_event (hesc : s.isEsc = false) (history : List Byte) {e : KeyEvent}
    (he : e = keyEvent scancode history) :
    (keybFunc s scancode).isEsc = false ∧
      (keybFunc s scancode).shiftL =
        (if ¬ s.Full ∧ e.code = 0x2a then e.make else s.shiftL) ∧
      (keybFunc s scancode).shiftR =
        (if ¬ s.Full ∧ e.code = 0x36 then e.make else s.shiftR) ∧
      (keybFunc s scancode).caps =
        (if ¬ s.Full ∧ e.isMake 0x3a then !s.caps else s.caps) ∧
      (keybFunc s scancode).altgr = s.altgr := by
  subst he
  unfold KeyEvent.isMake keyEvent
  by_cases hfull : s.Full
  · rw [keybFunc_full hfull]
    simp [hfull, hesc]
  · have hmodifiers := keybFunc_modifiers scancode hesc hfull
    simpa [hfull] using hmodifiers

theorem modifiers_key_iff {history : List Byte} (hesc : s.isEsc = false)
    (hs : Modifiers s (keyEvents history)) (scancode : Byte) :
    Modifiers (keybFunc s scancode) (keyEvents (scancode :: history)) <->
      Tracked s (keyEvent scancode history) := by
  rcases keybFunc_event hesc history rfl with ⟨_, hshiftL, hshiftR, hcaps, haltgr⟩
  have hleft := shift_iff s.Full (keyEvent scancode history) hs.shiftL
  have hright := shift_iff s.Full (keyEvent scancode history) hs.shiftR
  rw [← hshiftL] at hleft
  rw [← hshiftR] at hright
  have hlock : (keybFunc s scancode).caps =
      oddMany (KeyEvent.isMake 0x3a) (keyEvents (scancode :: history)) <->
        ((keyEvent scancode history).code = 0x3a -> s.Full ->
          (keyEvent scancode history).make = false) := by
    rw [hcaps, keyEvents, oddMany_cons, ← hs.caps]
    unfold KeyEvent.isMake
    generalize keyEvent scancode history = e
    by_cases hfull : s.Full
    · by_cases hcode : e.code = 0x3a
      · cases e.make with
        | true => simp [hfull, hcode]
        | false => simp [hfull, hcode]
      · rw [beq_eq_false_iff_ne.mpr hcode, Bool.false_and]
        refine iff_of_true ?_ fun heq => absurd heq hcode
        rw [if_neg fun h => Bool.false_ne_true h.2, if_neg Bool.false_ne_true]
    · simp [hfull]
  have halt : (keybFunc s scancode).altgr =
      latestMake (KeyEvent.isExtended 0x38) (keyEvents (scancode :: history)) <->
        ((keyEvent scancode history).code = 0x38 ->
          (keyEvent scancode history).extended = true ->
            s.altgr = (keyEvent scancode history).make) := by
    rw [haltgr, keyEvents, latestMake, ← hs.altgr, KeyEvent.isExtended]
    generalize keyEvent scancode history = e
    by_cases hcode : e.code = 0x38
    · cases e.extended with
      | true => simp [hcode]
      | false => simp
    · rw [beq_eq_false_iff_ne.mpr hcode, Bool.false_and]
      exact iff_of_true rfl fun heq => absurd heq hcode
  constructor
  · intro h
    exact ⟨hleft.mp h.shiftL, hright.mp h.shiftR, hlock.mp h.caps, halt.mp h.altgr⟩
  · intro h
    exact ⟨hleft.mpr h.shiftL, hright.mpr h.shiftR, hlock.mpr h.caps, halt.mpr h.altgr⟩

end Handler

/-!
# Runs
-/

structure KeyHistory where
  keyb : Keyb
  bytes : List Byte

/-- A read may find anything in the buffer that it fills. -/
inductive HistoryStep : KeyHistory -> KeybOp -> KeyHistory -> Prop where
  | key (s : KeyHistory) (scancode : Byte) :
      HistoryStep s (.key scancode) ⟨keybFunc s.keyb scancode, scancode :: s.bytes⟩
  | read (s : KeyHistory) (buffer : Nat -> Byte) (size : Word) :
      HistoryStep s (.read size)
        { s with keyb := (keybRead s.keyb buffer size).keyb }

def HistoryStart (s : KeyHistory) : Prop :=
  s = ⟨Keyb.boot, []⟩

/-- The modifiers are what the bytes that have been sent make them. -/
def KeyHistory.Right (s : KeyHistory) : Prop :=
  Modifiers s.keyb (keyEvents s.bytes)

/-- A byte is tracked; a read always is. -/
def TrackedOp (s : KeyHistory) : KeybOp -> Prop
  | .key scancode => Tracked s.keyb (keyEvent scancode s.bytes)
  | .read _ => True

def TrackedStep (s s' : KeyHistory) : Prop :=
  exists op, TrackedOp s op ∧ HistoryStep s op s'

section Runs

variable {s s' : KeyHistory} {op : KeybOp}

theorem HistoryStart.right (hs : HistoryStart s) :
    s.keyb.isEsc = false ∧ s.Right := by
  subst hs
  exact ⟨rfl, rfl, rfl, rfl, rfl⟩

/-- No byte is taken for the announcing one. -/
theorem HistoryStep.isEsc (hesc : s.keyb.isEsc = false) (hstep : HistoryStep s op s') :
    s'.keyb.isEsc = false := by
  cases hstep with
  | key scancode => exact (keybFunc_event hesc s.bytes rfl).1
  | read buffer size => exact hesc

theorem HistoryStep.right_iff (hesc : s.keyb.isEsc = false) (hs : s.Right)
    (hstep : HistoryStep s op s') : s'.Right <-> TrackedOp s op := by
  cases hstep with
  | key scancode => exact modifiers_key_iff hesc hs scancode
  | read buffer size =>
      exact iff_of_true ⟨hs.shiftL, hs.shiftR, hs.caps, hs.altgr⟩ trivial

/-- The modifiers are right as long as every byte is tracked, and no longer.  The
byte that announces an extended key never puts anything in the buffer. -/
theorem modifiers_tracked (hs : Reachable HistoryStart TrackedStep s) :
    s.Right ∧ forall op s', HistoryStep s op s' ->
      (s'.Right <-> TrackedOp s op) ∧
        (op = .key 0xe0 -> s'.keyb.pending = s.keyb.pending) := by
  have hinv : s.keyb.isEsc = false ∧ s.Right := by
    apply hs.invariant (I := fun s => s.keyb.isEsc = false ∧ s.Right)
      (fun s hs => hs.right)
    intro s s' hs hstep
    rcases hstep with ⟨op, htracked, hstep⟩
    exact ⟨hstep.isEsc hs.1, (hstep.right_iff hs.1 hs.2).mpr htracked⟩
  refine ⟨hinv.2, fun op s' hstep => ⟨hstep.right_iff hinv.1 hinv.2, ?_⟩⟩
  intro hop
  subst hop
  cases hstep with
  | key scancode =>
      rcases keybFunc_e0 s.keyb with ⟨hused, hbuf⟩
      unfold Keyb.pending
      dsimp only
      rw [hused, hbuf]

end Runs

def noBytes : KeyHistory :=
  ⟨Keyb.boot, []⟩

def shiftDown : KeyHistory :=
  ⟨keybFunc Keyb.boot 0x2a, [0x2a]⟩

theorem shiftDown_reachable : Reachable HistoryStart TrackedStep shiftDown := by
  have htracked : Tracked Keyb.boot (keyEvent 0x2a []) := by
    constructor
    · intro _ hfull
      exact absurd (hfull.mpr rfl) (by decide)
    · intro hcode
      exact absurd hcode (by decide)
    · intro hcode
      exact absurd hcode (by decide)
    · intro hcode
      exact absurd hcode (by decide)
  exact Reachable.step (s := noBytes) (Reachable.start rfl)
    ⟨.key 0x2a, htracked, HistoryStep.key noBytes 0x2a⟩

theorem modifiers_tracked_shift : shiftDown.Right ∧
    forall op s', HistoryStep shiftDown op s' ->
      (s'.Right <-> TrackedOp shiftDown op) ∧
        (op = .key 0xe0 -> s'.keyb.pending = shiftDown.keyb.pending) :=
  modifiers_tracked shiftDown_reachable

/-- The right alt key goes down, and the handler does not see it. -/
theorem modifiers_lose_altgr : exists s,
    Reachable HistoryStart (fun s s' => exists op, HistoryStep s op s') s ∧
      ¬ s.Right := by
  let announced : KeyHistory := ⟨keybFunc noBytes.keyb 0xe0, 0xe0 :: noBytes.bytes⟩
  refine ⟨⟨keybFunc announced.keyb 0x38, 0x38 :: announced.bytes⟩, ?_, ?_⟩
  · have hfirst : Reachable HistoryStart (fun s s' => exists op, HistoryStep s op s')
        announced :=
      Reachable.step (s := noBytes) (Reachable.start rfl)
        ⟨.key 0xe0, HistoryStep.key noBytes 0xe0⟩
    exact Reachable.step hfirst ⟨.key 0x38, HistoryStep.key announced 0x38⟩
  · intro hright
    have haltgr := hright.altgr
    revert haltgr
    decide

end Kernel
end Rmmtos
