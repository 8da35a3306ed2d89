import Rmmtos.Machine

/-!
# The keyboard

The interrupt handler of {lit}`char/keyb.c` and its buffer.  Each key that has
a character puts it behind the others, and a read takes characters from the
front and moves the rest.
-/

namespace Rmmtos
namespace Kernel

open Library

/-!
# Key maps
-/

def keymapNormal : List Byte :=
  [0x00, 0x1b, 0x31, 0x32, 0x33, 0x34, 0x35, 0x36,
    0x37, 0x38, 0x39, 0x30, 0x2d, 0x3d, 0x08, 0x09,
    0x71, 0x77, 0x65, 0x72, 0x74, 0x79, 0x75, 0x69,
    0x6f, 0x70, 0x5b, 0x5d, 0x0a, 0x00, 0x61, 0x73,
    0x64, 0x66, 0x67, 0x68, 0x6a, 0x6b, 0x6c, 0x3b,
    0x27, 0x60, 0x00, 0x5c, 0x7a, 0x78, 0x63, 0x76,
    0x62, 0x6e, 0x6d, 0x2c, 0x2e, 0x2f, 0x00, 0x2a,
    0x00, 0x20, 0x00, 0x00, 0x00, 0x00, 0x00, 0x00,
    0x00, 0x00, 0x00, 0x00, 0x00, 0x00, 0x00, 0x00,
    0x00, 0x00, 0x00, 0x00, 0x00, 0x00, 0x00, 0x37,
    0x38, 0x39, 0x2d, 0x34, 0x35, 0x36, 0x2b, 0x31,
    0x32, 0x33, 0x30, 0x2c, 0x00, 0x00, 0x00, 0x00,
    0x00, 0x00, 0x00, 0x00, 0x00, 0x00, 0x00, 0x00,
    0x00, 0x00, 0x00, 0x00, 0x00, 0x00, 0x00, 0x00,
    0x00, 0x00, 0x00, 0x00, 0x00, 0x00, 0x00, 0x00,
    0x00, 0x00, 0x00, 0x00, 0x00, 0x00, 0x00, 0x00]

def keymapShift : List Byte :=
  [0x00, 0x1b, 0x21, 0x22, 0x23, 0x00, 0x25, 0x26,
    0x2f, 0x28, 0x29, 0x5f, 0x2d, 0x2b, 0x08, 0x09,
    0x51, 0x57, 0x45, 0x52, 0x54, 0x59, 0x55, 0x49,
    0x4f, 0x50, 0x7b, 0x7d, 0x0a, 0x00, 0x41, 0x53,
    0x44, 0x46, 0x47, 0x48, 0x4a, 0x4b, 0x4c, 0x3a,
    0x22, 0x7e, 0x00, 0x7c, 0x5a, 0x58, 0x43, 0x56,
    0x42, 0x4e, 0x4d, 0x3c, 0x3e, 0x3f, 0x00, 0x00,
    0x00, 0x20, 0x00, 0x00, 0x00, 0x00, 0x00, 0x00,
    0x00, 0x00, 0x00, 0x00, 0x00, 0x00, 0x00, 0x00,
    0x00, 0x00, 0x00, 0x00, 0x00, 0x00, 0x00, 0x00,
    0x00, 0x00, 0x00, 0x00, 0x00, 0x00, 0x00, 0x00,
    0x00, 0x00, 0x00, 0x00, 0x00, 0x00, 0x00, 0x00,
    0x00, 0x00, 0x00, 0x00, 0x00, 0x00, 0x00, 0x00,
    0x00, 0x00, 0x00, 0x00, 0x00, 0x00, 0x00, 0x00,
    0x00, 0x00, 0x00, 0x00, 0x00, 0x00, 0x00, 0x00,
    0x00, 0x00, 0x00, 0x00, 0x00, 0x00, 0x00, 0x00]

def keymapCapslock : List Byte :=
  [0x00, 0x1b, 0x31, 0x32, 0x33, 0x34, 0x35, 0x36,
    0x37, 0x38, 0x39, 0x30, 0x2d, 0x3d, 0x08, 0x09,
    0x51, 0x57, 0x45, 0x52, 0x54, 0x59, 0x55, 0x49,
    0x4f, 0x50, 0x5b, 0x5d, 0x0a, 0x00, 0x41, 0x53,
    0x44, 0x46, 0x47, 0x48, 0x4a, 0x4b, 0x4c, 0x3b,
    0x27, 0x60, 0x00, 0x5c, 0x5a, 0x58, 0x43, 0x56,
    0x42, 0x4e, 0x4d, 0x2c, 0x2e, 0x2f, 0x00, 0x2a,
    0x00, 0x20, 0x00, 0x00, 0x00, 0x00, 0x00, 0x00,
    0x00, 0x00, 0x00, 0x00, 0x00, 0x00, 0x00, 0x00,
    0x00, 0x00, 0x00, 0x00, 0x00, 0x00, 0x00, 0x37,
    0x38, 0x39, 0x2d, 0x34, 0x35, 0x36, 0x2b, 0x31,
    0x32, 0x33, 0x30, 0x2c, 0x00, 0x00, 0x00, 0x00,
    0x00, 0x00, 0x00, 0x00, 0x00, 0x00, 0x00, 0x00,
    0x00, 0x00, 0x00, 0x00, 0x00, 0x00, 0x00, 0x00,
    0x00, 0x00, 0x00, 0x00, 0x00, 0x00, 0x00, 0x00,
    0x00, 0x00, 0x00, 0x00, 0x00, 0x00, 0x00, 0x00]

def keymapShiftCapslock : List Byte :=
  [0x00, 0x1b, 0x31, 0x32, 0x33, 0x34, 0x35, 0x36,
    0x37, 0x38, 0x39, 0x30, 0x2d, 0x3d, 0x08, 0x09,
    0x71, 0x77, 0x65, 0x72, 0x74, 0x79, 0x75, 0x69,
    0x6f, 0x70, 0x5b, 0x5d, 0x0a, 0x00, 0x61, 0x73,
    0x64, 0x66, 0x67, 0x68, 0x6a, 0x6b, 0x6c, 0x3b,
    0x27, 0x60, 0x00, 0x5c, 0x7a, 0x78, 0x63, 0x76,
    0x62, 0x6e, 0x6d, 0x2c, 0x2e, 0x2f, 0x00, 0x2a,
    0x00, 0x20, 0x00, 0x00, 0x00, 0x00, 0x00, 0x00,
    0x00, 0x00, 0x00, 0x00, 0x00, 0x00, 0x00, 0x00,
    0x00, 0x00, 0x00, 0x00, 0x00, 0x00, 0x00, 0x37,
    0x38, 0x39, 0x2d, 0x34, 0x35, 0x36, 0x2b, 0x31,
    0x32, 0x33, 0x30, 0x2c, 0x00, 0x00, 0x00, 0x00,
    0x00, 0x00, 0x00, 0x00, 0x00, 0x00, 0x00, 0x00,
    0x00, 0x00, 0x00, 0x00, 0x00, 0x00, 0x00, 0x00,
    0x00, 0x00, 0x00, 0x00, 0x00, 0x00, 0x00, 0x00,
    0x00, 0x00, 0x00, 0x00, 0x00, 0x00, 0x00, 0x00]

def keymapAltgr : List Byte :=
  [0x00, 0x00, 0x00, 0x20, 0x20, 0x20, 0x00, 0x36,
    0x37, 0x38, 0x39, 0x30, 0x2d, 0x3d, 0x08, 0x09,
    0x71, 0x77, 0x65, 0x72, 0x74, 0x79, 0x75, 0x69,
    0x6f, 0x70, 0x5b, 0x5d, 0x0a, 0x00, 0x61, 0x73,
    0x64, 0x66, 0x67, 0x68, 0x6a, 0x6b, 0x6c, 0x3b,
    0x27, 0x60, 0x00, 0x5c, 0x7a, 0x78, 0x63, 0x76,
    0x62, 0x6e, 0x6d, 0x2c, 0x2e, 0x2f, 0x00, 0x2a,
    0x00, 0x20, 0x00, 0x00, 0x00, 0x00, 0x00, 0x00,
    0x00, 0x00, 0x00, 0x00, 0x00, 0x00, 0x00, 0x00,
    0x00, 0x00, 0x00, 0x00, 0x00, 0x00, 0x00, 0x37,
    0x38, 0x39, 0x2d, 0x34, 0x35, 0x36, 0x2b, 0x31,
    0x32, 0x33, 0x30, 0x2c, 0x00, 0x00, 0x00, 0x00,
    0x00, 0x00, 0x00, 0x00, 0x00, 0x00, 0x00, 0x00,
    0x00, 0x00, 0x00, 0x00, 0x00, 0x00, 0x00, 0x00,
    0x00, 0x00, 0x00, 0x00, 0x00, 0x00, 0x00, 0x00,
    0x00, 0x00, 0x00, 0x00, 0x00, 0x00, 0x00, 0x00]

/-!
# The handler
-/

def bufSize : Word := 8

structure Keyb where
  bufferUsed : Word
  keybBuf : Nat -> Byte
  isEsc : Bool
  shiftL : Bool
  shiftR : Bool
  altgr : Bool
  caps : Bool

def Keyb.boot : Keyb where
  bufferUsed := 0
  keybBuf := fun _ => 0
  isEsc := false
  shiftL := false
  shiftR := false
  altgr := false
  caps := false

/-- The key map that the modifiers select. -/
def Keyb.keymap (s : Keyb) : List Byte :=
  if s.altgr then keymapAltgr
  else if s.shiftL || s.shiftR then
    if s.caps then keymapShiftCapslock else keymapShift
  else if s.caps then keymapCapslock
  else keymapNormal

/-- The key codes that have no character of their own. -/
def modifierCodes : List Byte := [0x2a, 0x36, 0x3a, 0xe0]

/-- A code has lost its top bit before it is compared with {lit}`0xe0`. -/
def keybFunc (s : Keyb) (scancode : Byte) : Keyb :=
  let make := scancode &&& 0x80 == 0
  if bufSize ≤ s.bufferUsed then s
  else
    let c := scancode &&& 0x7f
    if s.isEsc then
      if c = 0x38 then { s with altgr := make } else s
    else if c = 0x2a then { s with shiftL := make }
    else if c = 0x36 then { s with shiftR := make }
    else if c = 0x3a then
      if make then { s with caps := !s.caps } else s
    else if c = 0xe0 then { s with isEsc := make }
    else if make then
      { s with
        keybBuf := Function.update s.keybBuf s.bufferUsed.toNat
          (s.keymap.getD c.toNat 0)
        bufferUsed := s.bufferUsed + 1 }
    else s

structure KeybReadResult where
  size : Word
  buffer : Nat -> Byte
  keyb : Keyb

/-- The size that is moved is that of the free part of the buffer, not that of
the rest. -/
def keybRead (s : Keyb) (buffer : Nat -> Byte) (size : Word) :
    KeybReadResult :=
  let size := if s.bufferUsed < size then s.bufferUsed else size
  { size := size
    buffer := writeRun (fun i => i) s.keybBuf size.toNat buffer
    keyb := { s with
      keybBuf := copyRun (fun i => i) (fun i => size.toNat + i)
        (bufSize - s.bufferUsed).toNat s.keybBuf
      bufferUsed := s.bufferUsed - size } }

/-!
# The queue
-/

def Keyb.pending (s : Keyb) : List Byte :=
  (List.range s.bufferUsed.toNat).map s.keybBuf

def KeybReadResult.bytes (r : KeybReadResult) : List Byte :=
  (List.range r.size.toNat).map r.buffer

/-- The character that the handler accepts, if it accepts one. -/
def Keyb.accepts (s : Keyb) (scancode : Byte) : List Byte :=
  if s.bufferUsed < bufSize ∧ s.isEsc = false ∧ scancode &&& 0x80 = 0 ∧
      scancode &&& 0x7f ∉ modifierCodes then
    [s.keymap.getD (scancode &&& 0x7f).toNat 0]
  else []

/-- The keyboard, the characters that its handler has accepted and those that
reads have returned. -/
structure KeybRun where
  keyb : Keyb
  accepted : List Byte
  returned : List Byte

inductive KeybOp where
  | key (scancode : Byte)
  | read (size : Word)

/-- A read may find anything in the buffer that it fills. -/
inductive KeybStep : KeybRun -> KeybOp -> KeybRun -> Prop where
  | key (s : KeybRun) (scancode : Byte) :
      KeybStep s (.key scancode)
        { s with
          keyb := keybFunc s.keyb scancode
          accepted := s.accepted ++ s.keyb.accepts scancode }
  | read (s : KeybRun) (buffer : Nat -> Byte) (size : Word) :
      KeybStep s (.read size)
        { s with
          keyb := (keybRead s.keyb buffer size).keyb
          returned := s.returned ++ (keybRead s.keyb buffer size).bytes }

def KeybStart (s : KeybRun) : Prop :=
  s.keyb = Keyb.boot ∧ s.accepted = [] ∧ s.returned = []

/-- Nothing is lost, repeated or reordered. -/
def Fifo (s : KeybRun) : Prop :=
  s.returned ++ s.keyb.pending = s.accepted

/-- Every character that stays in the buffer is moved to its new place, or is
already there. -/
def MovesRest (s : Keyb) : KeybOp -> Prop
  | .key _ => True
  | .read size => forall i, (bufSize - s.bufferUsed).toNat ≤ i ->
      i + min size.toNat s.bufferUsed.toNat < s.bufferUsed.toNat ->
        s.keybBuf i = s.keybBuf (i + min size.toNat s.bufferUsed.toNat)

theorem movesRest_read {s : Keyb} {size : Word} :
    MovesRest s (.read size) <->
      forall i, (bufSize - s.bufferUsed).toNat ≤ i ->
        i + min size.toNat s.bufferUsed.toNat < s.bufferUsed.toNat ->
          s.keybBuf i = s.keybBuf (i + min size.toNat s.bufferUsed.toNat) :=
  Iff.rfl

def FifoStep (s s' : KeybRun) : Prop :=
  exists op, MovesRest s.keyb op ∧ KeybStep s op s'

/-!
# What the operations do
-/

section Steps

variable {s : Keyb} {scancode : Byte}

theorem keybFunc_cases (s : Keyb) (scancode : Byte) :
    (s.accepts scancode = [] ∧
        (keybFunc s scancode).bufferUsed = s.bufferUsed ∧
        (keybFunc s scancode).keybBuf = s.keybBuf) ∨
      exists c, s.accepts scancode = [c] ∧ s.bufferUsed < bufSize ∧
        (keybFunc s scancode).bufferUsed = s.bufferUsed + 1 ∧
        (keybFunc s scancode).keybBuf =
          Function.update s.keybBuf s.bufferUsed.toNat c := by
  unfold Keyb.accepts
  by_cases haccept : s.bufferUsed < bufSize ∧ s.isEsc = false ∧
      scancode &&& 0x80 = 0 ∧ scancode &&& 0x7f ∉ modifierCodes
  · right
    rcases haccept with ⟨hroom, hesc, hmake, hcode⟩
    refine ⟨_, if_pos ⟨hroom, hesc, hmake, hcode⟩, hroom, ?_⟩
    have hmake' : (scancode &&& 0x80 == 0) = true := beq_iff_eq.mpr hmake
    simp only [modifierCodes, List.mem_cons, List.not_mem_nil, or_false,
      not_or] at hcode
    rcases hcode with ⟨hshiftL, hshiftR, hcaps, hprefix⟩
    unfold keybFunc
    dsimp only
    rw [if_neg (BitVec.not_le.mpr hroom), hesc, if_neg Bool.false_ne_true,
      if_neg hshiftL, if_neg hshiftR, if_neg hcaps, if_neg hprefix, if_pos hmake']
    exact ⟨rfl, rfl⟩
  · left
    refine ⟨if_neg haccept, ?_⟩
    unfold keybFunc
    dsimp only
    split
    · exact ⟨rfl, rfl⟩
    · next hroom =>
        split
        · split <;> exact ⟨rfl, rfl⟩
        · next hesc =>
            split
            · exact ⟨rfl, rfl⟩
            · next hshiftL =>
                split
                · exact ⟨rfl, rfl⟩
                · next hshiftR =>
                    split
                    · split <;> exact ⟨rfl, rfl⟩
                    · next hcaps =>
                        split
                        · exact ⟨rfl, rfl⟩
                        · next hprefix =>
                            split
                            · next hmake =>
                                apply absurd _ haccept
                                refine ⟨BitVec.not_le.mp hroom,
                                  Bool.eq_false_iff.mpr hesc,
                                  beq_iff_eq.mp hmake, ?_⟩
                                simp only [modifierCodes, List.mem_cons,
                                  List.not_mem_nil, or_false, not_or]
                                exact ⟨hshiftL, hshiftR, hcaps, hprefix⟩
                            · exact ⟨rfl, rfl⟩

theorem keybFunc_pending (hused : s.bufferUsed ≤ bufSize) (scancode : Byte) :
    (keybFunc s scancode).bufferUsed ≤ bufSize ∧
      (keybFunc s scancode).pending = s.pending ++ s.accepts scancode := by
  unfold Keyb.pending
  rcases keybFunc_cases s scancode with
    ⟨hnone, hsame, hbuf⟩ | ⟨c, hone, hroom, hmore, hbuf⟩
  · rw [hnone, hsame, hbuf, List.append_nil]
    exact ⟨hused, rfl⟩
  · have hnext : (s.bufferUsed + 1).toNat = s.bufferUsed.toNat + 1 := by
      unfold bufSize at hroom
      bv_omega
    rw [hone, hmore, hbuf, hnext, List.range_succ, List.map_append]
    refine ⟨?_, congrArg₂ _ ?_ ?_⟩
    · rw [BitVec.le_def, hnext]
      exact hroom
    · refine List.map_congr_left fun i hi => ?_
      exact Function.update_of_ne (Nat.ne_of_lt (List.mem_range.mp hi)) _ _
    · rw [List.map_singleton, Function.update_self]

theorem keybRead_size (s : Keyb) (buffer : Nat -> Byte) (size : Word) :
    (keybRead s buffer size).size.toNat =
      min size.toNat s.bufferUsed.toNat := by
  unfold keybRead
  dsimp only
  split
  · next hless => exact (Nat.min_eq_right (Nat.le_of_lt hless)).symm
  · next hmore => exact (Nat.min_eq_left (BitVec.not_lt.mp hmore)).symm

theorem keybRead_eq (s : Keyb) (buffer : Nat -> Byte) (size : Word) :
    (keybRead s buffer size).buffer = writeRun (fun i => i) s.keybBuf
        (keybRead s buffer size).size.toNat buffer ∧
      (keybRead s buffer size).keyb.keybBuf = copyRun (fun i => i)
        (fun i => (keybRead s buffer size).size.toNat + i)
        (bufSize - s.bufferUsed).toNat s.keybBuf ∧
      (keybRead s buffer size).keyb.bufferUsed =
        s.bufferUsed - (keybRead s buffer size).size :=
  ⟨rfl, rfl, rfl⟩

theorem shifted {keybBuf : Nat -> Byte} {k n i : Nat} :
    copyRun (fun i => i) (fun i => k + i) n keybBuf i =
      if i < n then keybBuf (k + i) else keybBuf i := by
  split
  · next hi =>
      rw [copyRun_eq_writeRun (fun i j hj _ => by omega)]
      exact @writeRun_at Nat Byte _ (fun i => i) _ _ _ (fun i j _ _ h => h) _ hi
  · next hi => exact copyRun_other fun j hj => by omega

theorem keybRead_pending (hused : s.bufferUsed ≤ bufSize)
    (buffer : Nat -> Byte) (size : Word) :
    (keybRead s buffer size).keyb.bufferUsed ≤ bufSize ∧
      (keybRead s buffer size).bytes =
        s.pending.take (keybRead s buffer size).size.toNat ∧
      ((keybRead s buffer size).keyb.pending =
          s.pending.drop (keybRead s buffer size).size.toNat <->
        MovesRest s (.read size)) := by
  have hsize := keybRead_size s buffer size
  rcases keybRead_eq s buffer size with ⟨hbytes, hbuf, ht⟩
  unfold KeybReadResult.bytes
  generalize keybRead s buffer size = r at *
  rcases r with ⟨n, bytes, t⟩
  dsimp only at *
  have hle : n.toNat ≤ s.bufferUsed.toNat := by
    rw [hsize]
    exact Nat.min_le_right _ _
  have hsmall : s.bufferUsed.toNat ≤ 8 := hused
  have hrest : t.bufferUsed.toNat = s.bufferUsed.toNat - n.toNat := by
    rw [ht, BitVec.toNat_sub_of_le hle]
  have hfree : (bufSize - s.bufferUsed).toNat = 8 - s.bufferUsed.toNat :=
    BitVec.toNat_sub_of_le hused
  refine ⟨?_, ?_, ?_⟩
  · rw [BitVec.le_def, hrest]
    exact Nat.le_trans (Nat.sub_le _ _) hused
  · unfold Keyb.pending
    rw [← List.map_take, List.take_range, Nat.min_eq_left hle]
    refine List.map_congr_left fun i hi => ?_
    rw [hbytes]
    exact @writeRun_at Nat Byte _ (fun i => i) _ _ _ (fun i j _ _ h => h) _
      (List.mem_range.mp hi)
  · have hdrop : s.pending.drop n.toNat =
        (List.range t.bufferUsed.toNat).map fun i => s.keybBuf (n.toNat + i) := by
      unfold Keyb.pending
      rw [hrest]
      apply List.ext_getElem
      · simp
      · intro i hi hi'
        simp
    rw [hdrop, movesRest_read, ← hsize]
    unfold Keyb.pending
    rw [List.map_inj_left, hbuf, hrest]
    constructor
    · intro h i hi hi'
      have hmoved := h i (List.mem_range.mpr (by omega))
      rw [shifted, if_neg (Nat.not_lt.mpr hi), Nat.add_comm] at hmoved
      exact hmoved
    · intro h i hi
      rw [shifted]
      split
      · rfl
      · next hbehind =>
          have hless := List.mem_range.mp hi
          rw [Nat.add_comm]
          exact h i (Nat.not_lt.mp hbehind) (by omega)

end Steps

/-!
# Runs
-/

structure KeybInv (s : KeybRun) : Prop where
  used : s.keyb.bufferUsed ≤ bufSize
  fifo : Fifo s

theorem KeybStart.inv {s : KeybRun} (hs : KeybStart s) : KeybInv s := by
  rcases hs with ⟨hkeyb, haccepted, hreturned⟩
  refine ⟨?_, ?_⟩
  · rw [hkeyb]
    decide
  · unfold Fifo
    rw [hkeyb, haccepted, hreturned]
    rfl

/-- A step keeps the queue exactly when it moves the whole rest. -/
theorem KeybInv.step {s s' : KeybRun} {op : KeybOp} (hs : KeybInv s)
    (hstep : KeybStep s op s') :
    s'.keyb.bufferUsed ≤ bufSize ∧ (Fifo s' <-> MovesRest s.keyb op) := by
  have hfifo := hs.fifo
  unfold Fifo at hfifo
  cases hstep with
  | key scancode =>
      rcases keybFunc_pending hs.used scancode with ⟨hused, hpending⟩
      refine ⟨hused, iff_of_true ?_ trivial⟩
      unfold Fifo
      dsimp only
      rw [hpending, ← List.append_assoc, hfifo]
  | read buffer size =>
      rcases keybRead_pending hs.used buffer size with ⟨hused, hbytes, hmoves⟩
      refine ⟨hused, ?_⟩
      rw [← hmoves]
      unfold Fifo
      dsimp only
      rw [hbytes, ← hfifo, List.append_assoc, List.append_cancel_left_eq]
      constructor
      · intro h
        exact List.append_cancel_left (h.trans (List.take_append_drop _ _).symm)
      · intro h
        rw [h, List.take_append_drop]

/-- The keyboard is a queue as long as every read moves the whole rest, and no
longer. -/
theorem keyboard_fifo {s : KeybRun} (hs : Reachable KeybStart FifoStep s) :
    Fifo s ∧ forall op s', KeybStep s op s' ->
      (Fifo s' <-> MovesRest s.keyb op) := by
  have hinv : KeybInv s := by
    apply hs.invariant (fun s hs => hs.inv)
    intro s s' hs hstep
    rcases hstep with ⟨op, hmoves, hstep⟩
    rcases hs.step hstep with ⟨hused, hiff⟩
    exact ⟨hused, hiff.mpr hmoves⟩
  exact ⟨hinv.fifo, fun op s' hstep => (hinv.step hstep).2⟩

/-!
# A full buffer
-/

def pressKey (s : KeybRun) (scancode : Byte) : KeybRun :=
  { s with
    keyb := keybFunc s.keyb scancode
    accepted := s.accepted ++ s.keyb.accepts scancode }

def readKeys (s : KeybRun) (size : Word) : KeybRun :=
  let r := keybRead s.keyb (fun _ => 0) size
  { s with keyb := r.keyb, returned := s.returned ++ r.bytes }

def noKeys : KeybRun :=
  ⟨Keyb.boot, [], []⟩

theorem noKeys_start : KeybStart noKeys :=
  ⟨rfl, rfl, rfl⟩

def digitKeys : List Byte := [0x02, 0x03, 0x04, 0x05, 0x06, 0x07, 0x08, 0x09]

def eightKeys : KeybRun :=
  digitKeys.foldl pressKey noKeys

theorem reachable_pressKeys (step : KeybRun -> KeybRun -> Prop)
    (hstep : forall s scancode, step s (pressKey s scancode)) {s : KeybRun}
    (keys : List Byte) (hs : Reachable KeybStart step s) :
    Reachable KeybStart step (keys.foldl pressKey s) := by
  induction keys generalizing s with
  | nil => exact hs
  | cons key rest ih => exact ih (Reachable.step hs (hstep s key))

theorem eightKeys_reachable : Reachable KeybStart FifoStep eightKeys :=
  reachable_pressKeys FifoStep
    (fun s scancode => ⟨.key scancode, trivial, KeybStep.key s scancode⟩)
    digitKeys (Reachable.start noKeys_start)

theorem keyboard_fifo_eight_keys : Fifo eightKeys ∧ forall op s',
    KeybStep eightKeys op s' ->
      (Fifo s' <-> MovesRest eightKeys.keyb op) :=
  keyboard_fifo eightKeys_reachable

/-- A read of one character out of eight repeats it and loses the last one. -/
theorem keyboard_repeats_key : exists s,
    Reachable KeybStart (fun s s' => exists op, KeybStep s op s') s ∧ ¬ Fifo s := by
  refine ⟨readKeys eightKeys 1, ?_, ?_⟩
  · have hkeys : Reachable KeybStart (fun s s' => exists op, KeybStep s op s')
        eightKeys :=
      reachable_pressKeys _
        (fun s scancode => ⟨.key scancode, KeybStep.key s scancode⟩)
        digitKeys (Reachable.start noKeys_start)
    exact Reachable.step hkeys ⟨.read 1, KeybStep.read _ _ _⟩
  · unfold Fifo
    decide +kernel

end Kernel
end Rmmtos
