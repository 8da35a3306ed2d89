import Rmmtos.Library.Carries
import Rmmtos.Machine

/-!
# Long division

{lit}`ldivmod` and {lit}`ludivmod` of the compiler's run-time library.  The
dividend and the rest are in {lit}`BX:AX`, the divisor and the quotient in
{lit}`DI:CX`.
-/

namespace Rmmtos
namespace Bcc

open Library

/-!
# The code
-/

structure LongRegs where
  ax : Word
  bx : Word
  cx : Word
  dx : Word
  si : Word
  di : Word
deriving DecidableEq, Repr

/-- {lit}`loop1`, with the carry that it ends with: double the number in
{lit}`SI:DX` as long as it is not above the rest. -/
def loop1 : Nat -> LongRegs -> Result (LongRegs × Bool)
  | 0, _ => .error .hang
  | n + 1, s =>
      let w := rclPair s.si s.dx false
      let s := { s with si := w.1.1, dx := w.1.2 }
      if w.2 then .ok (s, true)
      else if s.si < s.bx then loop1 n s
      else if s.bx < s.si then .ok (s, false)
      else if s.dx ≤ s.ax then loop1 n s
      else .ok (s, false)

/-- {lit}`loop1_exit`: take the last doubling back. -/
def loop1Exit (x : LongRegs × Bool) : LongRegs :=
  let w := (rcrPair x.1.si x.1.dx x.2).1
  { x.1 with si := w.1, dx := w.2 }

def fitsIn (s : LongRegs) : Bool :=
  decide (s.si < s.bx ∨ s.si = s.bx ∧ s.dx ≤ s.ax)

/-- The turn of {lit}`loop2` up to {lit}`loop2_test`: the next bit of the quotient. -/
def loop2Bit (s : LongRegs) : LongRegs :=
  let q := (rclPair s.di s.cx false).1
  let s := { s with di := q.1, cx := q.2 }
  if fitsIn s then
    let q := addPair s.di s.cx 0 1
    let r := subPair s.bx s.ax s.si s.dx
    { s with di := q.1, cx := q.2, bx := r.1, ax := r.2 }
  else s

def loop2 (b16 b0 : Word) : Nat -> LongRegs -> Result LongRegs
  | 0, _ => .error .hang
  | n + 1, s =>
      let s := loop2Bit s
      let w := (rcrPair s.si s.dx false).1
      let s := { s with si := w.1, dx := w.2 }
      if b16 < s.si then loop2 b16 b0 n s
      else if s.si < b16 then .ok s
      else if b0 ≤ s.dx then loop2 b16 b0 n s
      else .ok s

/-- {lit}`divlarge`, with the sign bytes back in {lit}`DX`.  A number of 32 bits is
doubled and halved at most as often. -/
def divlarge (s : LongRegs) : Result LongRegs :=
  let t := { s with si := s.di, dx := s.cx, cx := 0, di := 0 }
  if fitsIn t then
    loop1 32 t >>= fun x =>
    loop2 s.di s.cx 32 (loop1Exit x) >>= fun t =>
    .ok { t with dx := s.dx }
  else .ok { t with dx := s.dx }

/-- A division that the processor can do, with its exchanges of registers. -/
def divsmall (s : LongRegs) : LongRegs :=
  let dividend := (s.bx ++ s.ax).toNat
  { s with
    cx := BitVec.ofNat 16 (dividend / s.cx.toNat)
    ax := BitVec.ofNat 16 (dividend % s.cx.toNat)
    bx := s.di }

def negr (s : LongRegs) : LongRegs :=
  let r := negPair s.bx s.ax
  { s with bx := r.1, ax := r.2 }

def negq (s : LongRegs) : LongRegs :=
  let q := negPair s.di s.cx
  { s with di := q.1, cx := q.2 }

def roundDown (b16 b0 : Word) (s : LongRegs) : LongRegs :=
  let r := subPair s.bx s.ax b16 b0
  { s with bx := r.1, ax := r.2, cx := ~~~s.cx, di := ~~~s.di }

/-- {lit}`zdivu1`: the sign of the divisor is in {lit}`DH`, that of the dividend in
{lit}`DL`. -/
def zdivu1 (b16 b0 : Word) (s : LongRegs) : LongRegs :=
  if s.dx.msb then
    if (s.dx.extractLsb' 0 8).msb then negr s
    else if s.ax ||| s.bx = 0 then negq s
    else roundDown b16 b0 s
  else if (s.dx.extractLsb' 0 8).msb then
    if s.ax ||| s.bx = 0 then negq s
    else negr (roundDown b16 b0 s)
  else s

/-- {lit}`got_signs`: the stack pointer and {lit}`SI` come back from the stack. -/
def gotSigns (s : LongRegs) : Result LongRegs :=
  if s.di = 0 ∧ s.cx = 0 then
    .ok (if (s.dx.extractLsb' 0 8).msb then negr s else s)
  else if s.di = 0 ∧ s.bx < s.cx then .ok (zdivu1 s.di s.cx (divsmall s))
  else
    divlarge s >>= fun t =>
    .ok { zdivu1 s.di s.cx t with si := s.si }

def ludivmod (s : LongRegs) : Result LongRegs :=
  gotSigns { s with dx := 0 }

def ldivmod (s : LongRegs) : Result LongRegs :=
  let s := { s with dx := s.di.extractLsb' 8 8 ++ s.bx.extractLsb' 8 8 }
  let s := if s.di.msb then negq s else s
  let s := if s.bx.msb then negr s else s
  gotSigns s

/-!
# Numbers in the registers
-/

namespace LongRegs

/-- The dividend, and later the rest. -/
def rest (s : LongRegs) : BitVec 32 := s.bx ++ s.ax

/-- The divisor, and later the quotient. -/
def quotient (s : LongRegs) : BitVec 32 := s.di ++ s.cx

def scaled (s : LongRegs) : BitVec 32 := s.si ++ s.dx

end LongRegs

section Numbers

variable {s : LongRegs} {n : Nat}

theorem fitsIn_iff (s : LongRegs) :
    fitsIn s = true <-> s.scaled.toNat ≤ s.rest.toNat := by
  have hlt : s.rest < s.scaled <-> s.bx < s.si ∨ s.bx = s.si ∧ s.ax < s.dx :=
    append_lt_iff s.bx s.ax s.si s.dx
  rw [← Nat.not_lt]
  change _ <-> ¬ s.rest < s.scaled
  rw [hlt]
  unfold fitsIn
  rw [decide_eq_true_iff]
  constructor
  · rintro (h | ⟨h, h'⟩) (h₁ | ⟨h₁, h₂⟩) <;> bv_omega
  · intro h
    bv_omega

theorem rcr_rcl {hi lo : Word} {c : Bool} (hc : (rclPair hi lo false).2 = c) :
    pairValue (rcrPair (rclPair hi lo false).1.1 (rclPair hi lo false).1.2 c).1 =
      hi ++ lo := by
  have hleft := rclPair_value hi lo false
  have hright := rcrPair_value (rclPair hi lo false).1.1 (rclPair hi lo false).1.2 c
  have hcarry := Bool.toNat_le
    (rcrPair (rclPair hi lo false).1.1 (rclPair hi lo false).1.2 c).2
  rw [hc] at hleft
  apply BitVec.eq_of_toNat_eq
  change (pairValue (rclPair hi lo false).1).toNat + _ = _ + 0 at hleft
  change _ = (pairValue (rclPair hi lo false).1).toNat + _ at hright
  omega

theorem jumps {α : Type} (hi hi' lo lo' : Word) (x y : α) :
    (if hi < hi' then x else if hi' < hi then y else if lo ≤ lo' then x else y) =
      if decide (hi < hi' ∨ hi = hi' ∧ lo ≤ lo') then x else y := by
  by_cases hlt : hi < hi'
  · rw [if_pos hlt, if_pos (decide_eq_true (Or.inl hlt))]
  · rw [if_neg hlt]
    by_cases hgt : hi' < hi
    · have hnot : ¬ (hi < hi' ∨ hi = hi' ∧ lo ≤ lo') := by
        bv_omega
      rw [if_pos hgt, decide_eq_false hnot, if_neg Bool.false_ne_true]
    · rw [if_neg hgt]
      have hsame : hi = hi' := by
        bv_omega
      by_cases hle : lo ≤ lo'
      · rw [if_pos hle, if_pos (decide_eq_true (Or.inr ⟨hsame, hle⟩))]
      · have hnot : ¬ (hi < hi' ∨ hi = hi' ∧ lo ≤ lo') := by
          rintro (h | ⟨_, h⟩)
          · exact hlt h
          · exact hle h
        rw [if_neg hle, decide_eq_false hnot, if_neg Bool.false_ne_true]

def doubled (s : LongRegs) : LongRegs :=
  { s with
    si := (rclPair s.si s.dx false).1.1
    dx := (rclPair s.si s.dx false).1.2 }

theorem loop1_succ (n : Nat) (s : LongRegs) : loop1 (n + 1) s =
    if (rclPair s.si s.dx false).2 then .ok (doubled s, true)
    else if fitsIn (doubled s) then loop1 n (doubled s)
    else .ok (doubled s, false) := by
  unfold fitsIn
  rw [← jumps]
  rfl

theorem doubled_scaled (s : LongRegs) :
    (doubled s).scaled.toNat + 2 ^ 32 * (rclPair s.si s.dx false).2.toNat =
      2 * s.scaled.toNat :=
  rclPair_value s.si s.dx false

theorem loop1Exit_doubled {c : Bool} (hc : (rclPair s.si s.dx false).2 = c) :
    (loop1Exit (doubled s, c)).scaled = s.scaled :=
  rcr_rcl hc

/-- What the first loop leaves: the greatest multiple of the divisor by a power of
two that is not above the rest. -/
structure Scaled (s t : LongRegs) (k : Nat) : Prop where
  rest : t.rest = s.rest
  quotient : t.quotient = s.quotient
  scaled : t.scaled.toNat = s.scaled.toNat * 2 ^ k
  le : t.scaled.toNat ≤ t.rest.toNat
  lt : t.rest.toNat < 2 * t.scaled.toNat

theorem loop1_scaled (hle : s.scaled.toNat ≤ s.rest.toNat)
    (hfuel : s.rest.toNat < s.scaled.toNat * 2 ^ n) :
    exists x k, loop1 n s = .ok x ∧ k < n ∧ Scaled s (loop1Exit x) k := by
  induction n generalizing s with
  | zero => omega
  | succ n ih =>
      have hdoubled := doubled_scaled s
      have hrest := s.rest.isLt
      rw [loop1_succ]
      cases hc : (rclPair s.si s.dx false).2 with
      | true =>
          rw [hc] at hdoubled
          change _ + 2 ^ 32 * 1 = _ at hdoubled
          have hexit := congrArg BitVec.toNat (loop1Exit_doubled hc)
          have hsame : (loop1Exit (doubled s, true)).rest = s.rest := rfl
          refine ⟨_, 0, if_pos rfl, Nat.succ_pos n, hsame, rfl, ?_, ?_, ?_⟩
          · rw [hexit, Nat.pow_zero, Nat.mul_one]
          · rw [hexit, hsame]
            exact hle
          · rw [hexit, hsame]
            omega
      | false =>
          rw [hc] at hdoubled
          change _ + 2 ^ 32 * 0 = _ at hdoubled
          rw [if_neg Bool.false_ne_true]
          have hkeep : (doubled s).rest = s.rest := rfl
          by_cases hfits : fitsIn (doubled s) = true
          · rw [if_pos hfits]
            have hle' := (fitsIn_iff _).mp hfits
            have hfuel' : (doubled s).rest.toNat < (doubled s).scaled.toNat * 2 ^ n := by
              rw [hkeep]
              rw [Nat.pow_succ'] at hfuel
              have hmul : (doubled s).scaled.toNat * 2 ^ n =
                  s.scaled.toNat * (2 * 2 ^ n) := by
                rw [← Nat.mul_assoc, Nat.mul_comm _ 2, ← hdoubled]
                rfl
              omega
            rcases ih hle' hfuel' with ⟨x, k, hx, hk, hscaled⟩
            refine ⟨x, k + 1, hx, Nat.succ_lt_succ hk, hscaled.rest, hscaled.quotient, ?_,
              hscaled.le, hscaled.lt⟩
            rw [hscaled.scaled, Nat.pow_succ', ← Nat.mul_assoc, Nat.mul_comm _ 2,
              ← hdoubled]
            rfl
          · rw [if_neg hfits]
            have hexit := congrArg BitVec.toNat (loop1Exit_doubled hc)
            have hsame : (loop1Exit (doubled s, false)).rest = s.rest := rfl
            have habove := mt (fitsIn_iff _).mpr hfits
            rw [hkeep] at habove
            refine ⟨_, 0, rfl, Nat.succ_pos n, hsame, rfl, ?_, ?_, ?_⟩
            · rw [hexit, Nat.pow_zero, Nat.mul_one]
            · rw [hexit, hsame]
              exact hle
            · rw [hexit, hsame]
              omega

/-!
# The bits of the quotient
-/

theorem loop2Bit_spec (hlt : s.rest.toNat < 2 * s.scaled.toNat)
    (hsmall : 2 * s.quotient.toNat + 1 < 2 ^ 32) :
    (loop2Bit s).scaled = s.scaled ∧
      (loop2Bit s).rest.toNat < s.scaled.toNat ∧
      exists bit, (loop2Bit s).quotient.toNat = 2 * s.quotient.toNat + bit ∧
        s.rest.toNat = (loop2Bit s).rest.toNat + bit * s.scaled.toNat := by
  have hshift : (pairValue (rclPair s.di s.cx false).1).toNat =
      2 * s.quotient.toNat := by
    have hvalue := rclPair_value s.di s.cx false
    change _ + 2 ^ 32 * _ = 2 * s.quotient.toNat + 0 at hvalue
    cases hc : (rclPair s.di s.cx false).2 with
    | false =>
        rw [hc] at hvalue
        exact hvalue
    | true =>
        rw [hc] at hvalue
        change _ + 2 ^ 32 * 1 = _ at hvalue
        omega
  unfold loop2Bit
  dsimp only
  split
  · next hfits =>
      have hle := (fitsIn_iff _).mp hfits
      change s.scaled.toNat ≤ s.rest.toNat at hle
      have hrest : (pairValue (subPair s.bx s.ax s.si s.dx)).toNat =
          s.rest.toNat - s.scaled.toNat := by
        have hvalue : pairValue (subPair s.bx s.ax s.si s.dx) = s.rest - s.scaled :=
          subPair_value (by decide) _ _ _ _
        rw [hvalue]
        exact BitVec.toNat_sub_of_le hle
      have hquotient : (pairValue (addPair (rclPair s.di s.cx false).1.1
          (rclPair s.di s.cx false).1.2 0 1)).toNat = 2 * s.quotient.toNat + 1 := by
        rw [addPair_value (by decide), BitVec.toNat_add]
        change ((pairValue (rclPair s.di s.cx false).1).toNat + 1) % 2 ^ 32 = _
        rw [hshift]
        exact Nat.mod_eq_of_lt hsmall
      refine ⟨rfl, ?_, 1, hquotient, ?_⟩
      · change (pairValue (subPair s.bx s.ax s.si s.dx)).toNat < _
        omega
      · change _ = (pairValue (subPair s.bx s.ax s.si s.dx)).toNat + _
        omega
  · next hfits =>
      have habove := mt (fitsIn_iff _).mpr hfits
      change ¬ s.scaled.toNat ≤ s.rest.toNat at habove
      refine ⟨rfl, Nat.lt_of_not_le habove, 0, hshift, ?_⟩
      rw [Nat.zero_mul]
      rfl

def halved (s : LongRegs) : LongRegs :=
  { s with
    si := (rcrPair s.si s.dx false).1.1
    dx := (rcrPair s.si s.dx false).1.2 }

theorem halved_scaled (s : LongRegs) :
    (halved s).scaled.toNat = s.scaled.toNat / 2 := by
  have hvalue := rcrPair_value s.si s.dx false
  have hcarry := Bool.toNat_le (rcrPair s.si s.dx false).2
  change 2 * (halved s).scaled.toNat + _ = s.scaled.toNat + 0 at hvalue
  omega

theorem loop2_succ (b16 b0 : Word) (n : Nat) (s : LongRegs) :
    loop2 b16 b0 (n + 1) s =
      (let t := halved (loop2Bit s)
      if decide (b16 < t.si ∨ b16 = t.si ∧ b0 ≤ t.dx) then loop2 b16 b0 n t
      else .ok t) := by
  dsimp only
  rw [← jumps]
  rfl

theorem loop2_goes (b16 b0 : Word) (s : LongRegs) :
    decide (b16 < s.si ∨ b16 = s.si ∧ b0 ≤ s.dx) = true <->
      (b16 ++ b0).toNat ≤ s.scaled.toNat := by
  have hfits := fitsIn_iff ⟨s.dx, s.si, 0, b0, b16, 0⟩
  exact hfits

/-- From a multiple of the divisor by a power of two, the loop makes the rest of the
quotient. -/
theorem loop2_divides {b16 b0 : Word} {k : Nat} (hb : 0 < (b16 ++ b0).toNat)
    (hscaled : s.scaled.toNat = (b16 ++ b0).toNat * 2 ^ k)
    (hlt : s.rest.toNat < 2 * s.scaled.toNat)
    (hsmall : s.quotient.toNat * 2 ^ (k + 1) + s.rest.toNat / (b16 ++ b0).toNat < 2 ^ 32)
    (hfuel : k < n) :
    exists t, loop2 b16 b0 n s = .ok t ∧
      t.quotient.toNat =
        s.quotient.toNat * 2 ^ (k + 1) + s.rest.toNat / (b16 ++ b0).toNat ∧
      t.rest.toNat = s.rest.toNat % (b16 ++ b0).toNat := by
  induction n generalizing s k with
  | zero => exact absurd hfuel (Nat.not_lt_zero k)
  | succ n ih =>
      have hgoes := loop2_goes b16 b0 (halved (loop2Bit s))
      rw [halved_scaled] at hgoes
      rw [loop2_succ]
      dsimp only
      generalize (b16 ++ b0).toNat = b at *
      have hq : 2 * s.quotient.toNat ≤ s.quotient.toNat * 2 ^ (k + 1) := by
        rw [Nat.pow_succ, ← Nat.mul_assoc, Nat.mul_comm]
        exact Nat.mul_le_mul_right 2 (Nat.le_mul_of_pos_right _ (Nat.two_pow_pos k))
      have hroom : 2 * s.quotient.toNat < 2 ^ 32 :=
        Nat.lt_of_le_of_lt (Nat.le_trans hq (Nat.le_add_right _ _)) hsmall
      rcases loop2Bit_spec hlt (by omega) with ⟨hsame, hless, bit, hquotient, hrest⟩
      have hpart : s.rest.toNat / b = (loop2Bit s).rest.toNat / b + bit * 2 ^ k := by
        rw [hrest, hscaled, Nat.mul_left_comm, Nat.add_mul_div_left _ _ hb]
      have hmod : s.rest.toNat % b = (loop2Bit s).rest.toNat % b := by
        rw [hrest, hscaled, Nat.mul_left_comm, Nat.add_mul_mod_self_left]
      rw [hsame, hscaled] at hgoes
      rw [hscaled] at hless
      cases k with
      | zero =>
          have hstop := mt hgoes.mp (by omega)
          rw [Nat.pow_zero, Nat.mul_one] at hless
          rw [if_neg hstop]
          refine ⟨_, rfl, ?_, ?_⟩
          · rw [hpart, Nat.div_eq_of_lt hless]
            change (loop2Bit s).quotient.toNat = _
            omega
          · rw [hmod, Nat.mod_eq_of_lt hless]
            rfl
      | succ k =>
          have hhalf : b * 2 ^ (k + 1) / 2 = b * 2 ^ k := by
            rw [Nat.pow_succ, ← Nat.mul_assoc, Nat.mul_div_cancel _ Nat.two_pos]
          rw [hhalf] at hgoes
          rw [if_pos (hgoes.mpr (Nat.le_mul_of_pos_right b (Nat.two_pow_pos k)))]
          have hsum : (2 * s.quotient.toNat + bit) * 2 ^ (k + 1) +
              (loop2Bit s).rest.toNat / b =
                s.quotient.toNat * 2 ^ (k + 1 + 1) + s.rest.toNat / b := by
            rw [hpart, Nat.add_mul, Nat.pow_succ 2 (k + 1)]
            ring
          have hnext : (halved (loop2Bit s)).quotient.toNat =
              2 * s.quotient.toNat + bit := hquotient
          have hscaled' : (halved (loop2Bit s)).scaled.toNat = b * 2 ^ k := by
            rw [halved_scaled, hsame, hscaled, hhalf]
          have hless' : (halved (loop2Bit s)).rest.toNat <
              2 * (halved (loop2Bit s)).scaled.toNat := by
            rw [hscaled']
            rw [Nat.pow_succ, ← Nat.mul_assoc, Nat.mul_comm _ 2] at hless
            exact hless
          rcases ih hscaled' hless' (by
            rw [hnext]
            exact hsum ▸ hsmall) (Nat.lt_of_succ_lt_succ hfuel) with ⟨t, ht, htq, htr⟩
          refine ⟨t, ht, ?_, ?_⟩
          · rw [htq, hnext]
            exact hsum
          · rw [htr, hmod]
            rfl

/-!
# Unsigned division
-/

theorem divlarge_divides (hb : 0 < s.quotient.toNat) :
    exists t, divlarge s = .ok t ∧ t.dx = s.dx ∧
      t.quotient.toNat = s.rest.toNat / s.quotient.toNat ∧
      t.rest.toNat = s.rest.toNat % s.quotient.toNat := by
  let start : LongRegs := { s with si := s.di, dx := s.cx, cx := 0, di := 0 }
  have hscaled : start.scaled = s.quotient := rfl
  have hquotient : start.quotient.toNat = 0 := by
    change ((0 : Word) ++ (0 : Word)).toNat = 0
    decide
  have hrest : start.rest = s.rest := rfl
  change exists t, (if fitsIn start then
      loop1 32 start >>= fun x => loop2 s.di s.cx 32 (loop1Exit x) >>= fun t =>
        .ok { t with dx := s.dx }
    else (.ok { start with dx := s.dx } : Result LongRegs)) = .ok t ∧ _
  by_cases hfits : fitsIn start = true
  · have hle := (fitsIn_iff start).mp hfits
    have hfuel : start.rest.toNat < start.scaled.toNat * 2 ^ 32 := by
      have hlt := start.rest.isLt
      rw [hscaled]
      omega
    rcases loop1_scaled hle hfuel with ⟨x, k, hx, hk, hx'⟩
    have hsmall : (loop1Exit x).quotient.toNat * 2 ^ (k + 1) +
        (loop1Exit x).rest.toNat / s.quotient.toNat < 2 ^ 32 := by
      rw [hx'.quotient, hquotient, Nat.zero_mul, Nat.zero_add]
      exact Nat.lt_of_le_of_lt (Nat.div_le_self _ _) (BitVec.isLt _)
    rcases loop2_divides hb hx'.scaled hx'.lt hsmall hk with ⟨t, ht, htq, htr⟩
    rw [if_pos hfits, hx, ok_bind, ht, ok_bind]
    refine ⟨_, rfl, rfl, htq.trans ?_, htr.trans ?_⟩
    · rw [hx'.quotient, hquotient, Nat.zero_mul, Nat.zero_add, hx'.rest]
      rfl
    · rw [hx'.rest]
      rfl
  · have habove := mt (fitsIn_iff start).mpr hfits
    rw [hscaled, hrest, Nat.not_le] at habove
    rw [if_neg hfits]
    refine ⟨_, rfl, rfl, ?_, ?_⟩
    · rw [Nat.div_eq_of_lt habove]
      exact hquotient
    · rw [Nat.mod_eq_of_lt habove]
      rfl

theorem divsmall_divides (hdi : s.di = 0) (hlt : s.bx < s.cx) :
    (divsmall s).quotient.toNat = s.rest.toNat / s.quotient.toNat ∧
      (divsmall s).rest.toNat = s.rest.toNat % s.quotient.toNat := by
  have hdivisor : s.quotient.toNat = s.cx.toNat := by
    unfold LongRegs.quotient
    rw [hdi, append_value]
    exact Nat.zero_add _
  have hrest : s.rest.toNat = s.bx.toNat * 2 ^ 16 + s.ax.toNat := append_value ..
  have hax := s.ax.isLt
  have hcx := s.cx.isLt
  have hlow : s.bx.toNat < s.cx.toNat := hlt
  have hq : s.rest.toNat / s.cx.toNat < 2 ^ 16 := by
    apply Nat.div_lt_of_lt_mul
    have hnext := Nat.mul_le_mul_right (2 ^ 16) hlow
    omega
  have hr : s.rest.toNat % s.cx.toNat < 2 ^ 16 :=
    Nat.lt_trans (Nat.mod_lt _ (by omega)) hcx
  rw [hdivisor]
  constructor
  · change (s.di ++ BitVec.ofNat 16 (s.rest.toNat / s.cx.toNat)).toNat = _
    rw [hdi, append_value, BitVec.toNat_ofNat, Nat.mod_eq_of_lt hq]
    exact Nat.zero_add _
  · change (s.di ++ BitVec.ofNat 16 (s.rest.toNat % s.cx.toNat)).toNat = _
    rw [hdi, append_value, BitVec.toNat_ofNat, Nat.mod_eq_of_lt hr]
    exact Nat.zero_add _

theorem zdivu1_si (b16 b0 : Word) (s : LongRegs) : (zdivu1 b16 b0 s).si = s.si := by
  unfold zdivu1
  split
  · split
    · rfl
    · split <;> rfl
  · split
    · split <;> rfl
    · rfl

/-- The numbers are divided as if they had no signs before their signs are looked
at. -/
theorem gotSigns_divides (hb : 0 < s.quotient.toNat) :
    exists t u, gotSigns s = .ok t ∧ t.si = s.si ∧ u.dx = s.dx ∧
      u.quotient.toNat = s.rest.toNat / s.quotient.toNat ∧
      u.rest.toNat = s.rest.toNat % s.quotient.toNat ∧
      t.quotient = (zdivu1 s.di s.cx u).quotient ∧
      t.rest = (zdivu1 s.di s.cx u).rest := by
  unfold gotSigns
  have hsome : ¬ (s.di = 0 ∧ s.cx = 0) := by
    rintro ⟨hdi, hcx⟩
    unfold LongRegs.quotient at hb
    rw [hdi, hcx] at hb
    exact absurd hb (by decide)
  rw [if_neg hsome]
  by_cases hsmall : s.di = 0 ∧ s.bx < s.cx
  · rcases divsmall_divides hsmall.1 hsmall.2 with ⟨hq, hr⟩
    rw [if_pos hsmall]
    exact ⟨_, divsmall s, rfl, zdivu1_si .., rfl, hq, hr, rfl, rfl⟩
  · rcases divlarge_divides hb with ⟨u, hu, hdx, hq, hr⟩
    rw [if_neg hsmall, hu, ok_bind]
    exact ⟨_, u, rfl, rfl, hdx, hq, hr, rfl, rfl⟩

theorem gotSigns_zero (hb : s.quotient.toNat = 0) :
    gotSigns s =
      .ok (if (s.dx.extractLsb' 0 8).msb then negr s else s) := by
  have hvalue : s.quotient.toNat = s.di.toNat * 2 ^ 16 + s.cx.toNat := append_value ..
  have hzero : s.di = 0 ∧ s.cx = 0 := by
    constructor <;> apply BitVec.eq_of_toNat_eq <;> change _ = 0 <;> omega
  unfold gotSigns
  rw [if_pos hzero]

/-- Unsigned division, which leaves the dividend if the divisor is zero. -/
theorem ludivmod_divides (s : LongRegs) : exists t, ludivmod s = .ok t ∧
    t.quotient = s.rest / s.quotient ∧ t.rest = s.rest % s.quotient ∧ t.si = s.si := by
  unfold ludivmod
  let s' : LongRegs := { s with dx := 0 }
  have hplus : s'.dx.msb = false ∧ (s'.dx.extractLsb' 0 8).msb = false := by
    change (0 : Word).msb = false ∧ ((0 : Word).extractLsb' 0 8).msb = false
    decide
  rcases Nat.eq_zero_or_pos s.quotient.toNat with hzero | hpos
  · have hrun := @gotSigns_zero s' hzero
    rw [hplus.2, if_neg Bool.false_ne_true] at hrun
    refine ⟨s', hrun, ?_, ?_, rfl⟩
    · apply BitVec.eq_of_toNat_eq
      rw [BitVec.toNat_udiv, hzero, Nat.div_zero]
      exact hzero
    · apply BitVec.eq_of_toNat_eq
      rw [BitVec.toNat_umod, hzero, Nat.mod_zero]
      rfl
  · rcases @gotSigns_divides s' hpos with ⟨t, u, ht, hsi, hdx, hq, hr, htq, htr⟩
    have hplain : zdivu1 s'.di s'.cx u = u := by
      unfold zdivu1
      rw [hdx, hplus.1, hplus.2, if_neg Bool.false_ne_true, if_neg Bool.false_ne_true]
    rw [hplain] at htq htr
    refine ⟨t, ht, ?_, ?_, hsi⟩
    · apply BitVec.eq_of_toNat_eq
      rw [BitVec.toNat_udiv, htq]
      exact hq
    · apply BitVec.eq_of_toNat_eq
      rw [BitVec.toNat_umod, htr]
      exact hr

/-!
# Signed division
-/

def signed (negative : Bool) (n : Nat) : Int := if negative then -n else n

theorem magnitude (x : BitVec 32) :
    x.toInt = signed x.msb (if x.msb then -x else x).toNat := by
  have hlt := x.isLt
  cases hmsb : x.msb with
  | false =>
      rw [if_neg Bool.false_ne_true]
      exact BitVec.toInt_eq_toNat_of_msb hmsb
  | true =>
      have hhigh : 2 ^ 31 ≤ x.toNat := by
        rw [BitVec.msb_eq_decide] at hmsb
        exact of_decide_eq_true hmsb
      have hvalue : x.toInt = x.toNat - (2 ^ 32 : Nat) := by
        rw [BitVec.toInt_eq_msb_cond, if_pos hmsb]
      have hneg : (-x).toNat = 2 ^ 32 - x.toNat := by
        rw [BitVec.toNat_neg, Nat.mod_eq_of_lt (by omega)]
      rw [if_pos rfl, hneg, hvalue]
      change _ = -((2 ^ 32 - x.toNat : Nat) : Int)
      omega

/-- Division rounds down, and the rest has the sign of the divisor. -/
theorem floor_signed {n m : Nat} (hm : 0 < m) (negative minus : Bool) :
    (signed negative n).fdiv (signed minus m) =
        (if negative = minus then ((n / m : Nat) : Int)
        else if n % m = 0 then -((n / m : Nat) : Int) else -((n / m : Nat) : Int) + -1) ∧
      (signed negative n).fmod (signed minus m) =
        if negative = minus then signed minus (n % m)
        else if n % m = 0 then 0 else signed minus m + signed negative (n % m) := by
  have hdiv : ((n % m : Nat) : Int) + (m : Int) * ((n / m : Nat) : Int) = n := by
    exact_mod_cast Nat.mod_add_div n m
  have hmod : ((n % m : Nat) : Int) < m := by
    exact_mod_cast Nat.mod_lt n hm
  have hpos : (0 : Int) < m := by
    exact_mod_cast hm
  cases negative <;> cases minus <;> unfold signed <;>
    simp only [Bool.false_eq_true, if_false, if_true, reduceCtorEq]
  · exact (Int.fdiv_fmod_unique hpos).mpr ⟨hdiv, Int.natCast_nonneg _, hmod⟩
  · rw [Int.fdiv_fmod_unique' (Int.neg_neg_of_pos hpos)]
    split
    · next hzero =>
        rw [hzero, Nat.cast_zero] at hdiv
        refine ⟨?_, Int.neg_neg_of_pos hpos, Int.le_refl 0⟩
        rw [Int.neg_mul_neg]
        exact hdiv
    · next hsome =>
        refine ⟨?_, by omega, by omega⟩
        linarith
  · rw [Int.fdiv_fmod_unique hpos]
    split
    · next hzero =>
        rw [hzero, Nat.cast_zero] at hdiv
        refine ⟨?_, Int.le_refl 0, hpos⟩
        linarith
    · next hsome =>
        refine ⟨?_, by omega, by omega⟩
        linarith
  · rw [Int.fdiv_fmod_unique' (Int.neg_neg_of_pos hpos)]
    refine ⟨?_, by omega, by omega⟩
    linarith

theorem zdivu1_signed {b16 b0 : Word} {n m : Nat} {negative minus : Bool} (hm : 0 < m)
    (hdivisor : (b16 ++ b0).toNat = m) (hq : s.quotient.toNat = n / m)
    (hr : s.rest.toNat = n % m) (hnegative : (s.dx.extractLsb' 0 8).msb = negative)
    (hminus : s.dx.msb = minus) :
    (zdivu1 b16 b0 s).quotient =
        BitVec.ofInt 32 ((signed negative n).fdiv (signed minus m)) ∧
      (zdivu1 b16 b0 s).rest =
        BitVec.ofInt 32 ((signed negative n).fmod (signed minus m)) := by
  rcases floor_signed (n := n) hm negative minus with ⟨hfdiv, hfmod⟩
  have hqv : BitVec.ofInt 32 ((n / m : Nat) : Int) = s.quotient := by
    rw [← hq, BitVec.ofInt_natCast, BitVec.ofNat_toNat, BitVec.setWidth_eq]
  have hrv : BitVec.ofInt 32 ((n % m : Nat) : Int) = s.rest := by
    rw [← hr, BitVec.ofInt_natCast, BitVec.ofNat_toNat, BitVec.setWidth_eq]
  have hmv : BitVec.ofInt 32 (m : Int) = b16 ++ b0 := by
    rw [← hdivisor, BitVec.ofInt_natCast, BitVec.ofNat_toNat, BitVec.setWidth_eq]
  have hnq : BitVec.ofInt 32 (-((n / m : Nat) : Int)) = -s.quotient := by
    rw [BitVec.ofInt_neg, hqv]
  have hnr : BitVec.ofInt 32 (-((n % m : Nat) : Int)) = -s.rest := by
    rw [BitVec.ofInt_neg, hrv]
  have hcomplement : BitVec.ofInt 32 (-((n / m : Nat) : Int) + -1) = ~~~s.quotient := by
    rw [BitVec.ofInt_add, hnq, BitVec.neg_eq_not_add, BitVec.add_assoc]
    exact BitVec.add_zero _
  have hzero : s.ax ||| s.bx = 0 <-> n % m = 0 := by
    have hor : s.ax ||| s.bx = 0 <-> s.ax = 0 ∧ s.bx = 0 := BitVec.or_eq_zero_iff
    rw [← hr, hor]
    have hvalue : s.rest.toNat = s.bx.toNat * 2 ^ 16 + s.ax.toNat := append_value ..
    constructor
    · rintro ⟨hax, hbx⟩
      rw [hvalue, hax, hbx]
      rfl
    · intro h
      constructor <;> apply BitVec.eq_of_toNat_eq <;> change _ = 0 <;> omega
  have hrest : n % m = 0 -> s.rest = 0 := by
    intro h
    rw [← hrv, h]
    rfl
  have hnegr : (negr s).rest = -s.rest := negPair_value (by decide) _ _
  have hnegq : (negq s).quotient = -s.quotient := negPair_value (by decide) _ _
  have hround : (roundDown b16 b0 s).rest = s.rest - (b16 ++ b0) :=
    subPair_value (by decide) _ _ _ _
  have hnot : (roundDown b16 b0 s).quotient = ~~~s.quotient := BitVec.not_append.symm
  have hback : (negr (roundDown b16 b0 s)).rest = -(s.rest - (b16 ++ b0)) := by
    rw [← hround]
    exact negPair_value (by decide) _ _
  unfold zdivu1
  rw [hfdiv, hfmod, hnegative, hminus]
  cases minus <;> cases negative <;>
    simp only [Bool.false_eq_true, if_false, if_true, reduceCtorEq]
  -- both numbers are positive
  · exact ⟨hqv.symm, hrv.symm⟩
  -- the dividend is negative
  · by_cases h : n % m = 0
    · rw [if_pos (hzero.mpr h), if_pos h, if_pos h]
      exact ⟨hnegq.trans hnq.symm, hrest h⟩
    · rw [if_neg (mt hzero.mp h), if_neg h, if_neg h]
      refine ⟨hnot.trans hcomplement.symm, hback.trans ?_⟩
      change _ = BitVec.ofInt 32 ((m : Int) + -((n % m : Nat) : Int))
      rw [BitVec.ofInt_add, hmv, hnr, BitVec.neg_sub]
      exact BitVec.add_comm _ _
  -- the divisor is negative
  · by_cases h : n % m = 0
    · rw [if_pos (hzero.mpr h), if_pos h, if_pos h]
      exact ⟨hnegq.trans hnq.symm, hrest h⟩
    · rw [if_neg (mt hzero.mp h), if_neg h, if_neg h]
      refine ⟨hnot.trans hcomplement.symm, hround.trans ?_⟩
      change _ = BitVec.ofInt 32 (-(m : Int) + ((n % m : Nat) : Int))
      rw [BitVec.ofInt_add, BitVec.ofInt_neg, hmv, hrv, BitVec.sub_eq_add_neg]
      exact BitVec.add_comm _ _
  -- both are negative
  · exact ⟨hqv.symm, hnegr.trans hnr.symm⟩

def signBytes (s : LongRegs) : Word :=
  s.di.extractLsb' 8 8 ++ s.bx.extractLsb' 8 8

theorem high_msb (w : Word) : (w.extractLsb' 8 8).msb = w.msb := by
  rw [BitVec.msb_extractLsb', BitVec.msb_eq_getLsbD_last]
  rfl

theorem signBytes_msb (s : LongRegs) :
    (signBytes s).msb = s.quotient.msb ∧
      ((signBytes s).extractLsb' 0 8).msb = s.rest.msb := by
  unfold signBytes LongRegs.quotient LongRegs.rest
  constructor
  · rw [BitVec.msb_append, BitVec.msb_append]
    exact high_msb s.di
  · rw [BitVec.extractLsb'_append_eq_right, BitVec.msb_append]
    exact high_msb s.bx

def unsignedRegs (s : LongRegs) : LongRegs :=
  let s := { s with dx := signBytes s }
  let s := if s.di.msb then negq s else s
  if s.bx.msb then negr s else s

theorem ldivmod_eq (s : LongRegs) : ldivmod s = gotSigns (unsignedRegs s) := rfl

theorem unsignedRegs_spec (s : LongRegs) :
    (unsignedRegs s).rest = (if s.rest.msb then -s.rest else s.rest) ∧
      (unsignedRegs s).quotient =
        (if s.quotient.msb then -s.quotient else s.quotient) ∧
      (unsignedRegs s).dx = signBytes s ∧ (unsignedRegs s).si = s.si := by
  have hrest : s.rest.msb = s.bx.msb := BitVec.msb_append.trans rfl
  have hquotient : s.quotient.msb = s.di.msb := BitVec.msb_append.trans rfl
  have hnegr : forall t : LongRegs, (negr t).rest = -t.rest := fun t =>
    negPair_value (by decide) _ _
  have hnegq : forall t : LongRegs, (negq t).quotient = -t.quotient := fun t =>
    negPair_value (by decide) _ _
  rw [hrest, hquotient]
  unfold unsignedRegs
  dsimp only
  cases s.di.msb with
  | false =>
      rw [if_neg Bool.false_ne_true, if_neg Bool.false_ne_true]
      dsimp only
      cases s.bx.msb with
      | false => exact ⟨rfl, rfl, rfl, rfl⟩
      | true => exact ⟨hnegr _, rfl, rfl, rfl⟩
  | true =>
      rw [if_pos rfl, if_pos rfl]
      have hbx : (negq { s with dx := signBytes s }).bx = s.bx := rfl
      rw [hbx]
      cases s.bx.msb with
      | false => exact ⟨rfl, hnegq { s with dx := signBytes s }, rfl, rfl⟩
      | true =>
          exact ⟨hnegr (negq { s with dx := signBytes s }),
            hnegq { s with dx := signBytes s }, rfl, rfl⟩

/-- Signed division rounds down, so that the rest has the sign of the divisor.  It
leaves the dividend if the divisor is zero. -/
theorem ldivmod_divides (s : LongRegs) : exists t, ldivmod s = .ok t ∧
    t.quotient = BitVec.ofInt 32 (s.rest.toInt.fdiv s.quotient.toInt) ∧
    t.rest = BitVec.ofInt 32 (s.rest.toInt.fmod s.quotient.toInt) ∧ t.si = s.si := by
  rcases unsignedRegs_spec s with ⟨hrest, hquotient, hdx, hsi⟩
  have hsigns := signBytes_msb s
  have hdividend := magnitude s.rest
  have hdivisor := magnitude s.quotient
  rw [← hrest] at hdividend
  rw [← hquotient] at hdivisor
  rw [ldivmod_eq]
  rcases Nat.eq_zero_or_pos (unsignedRegs s).quotient.toNat with hzero | hpos
  · have hnone : s.quotient.toInt = 0 := by
      rw [hdivisor, hzero]
      unfold signed
      split <;> rfl
    have hsame : s.quotient = 0 := by
      rw [← BitVec.ofInt_toInt (x := s.quotient), hnone]
      rfl
    rw [gotSigns_zero hzero, hdx, hsigns.2, hnone, Int.fdiv_zero, Int.fmod_zero,
      BitVec.ofInt_toInt]
    have hq : (unsignedRegs s).quotient = 0 := BitVec.eq_of_toNat_eq hzero
    refine ⟨_, rfl, ?_⟩
    cases hmsb : s.rest.msb with
    | false =>
        rw [if_neg Bool.false_ne_true]
        rw [hmsb, if_neg Bool.false_ne_true] at hrest
        exact ⟨hq, hrest, hsi⟩
    | true =>
        rw [if_pos rfl]
        rw [hmsb, if_pos rfl] at hrest
        refine ⟨hq, ?_, hsi⟩
        have hnegr : (negr (unsignedRegs s)).rest = -(unsignedRegs s).rest :=
          negPair_value (by decide) _ _
        rw [hnegr, hrest, BitVec.neg_neg]
  · rcases gotSigns_divides hpos with ⟨t, u, ht, htsi, hudx, hq, hr, htq, htr⟩
    rw [hdx] at hudx
    have hsigned := zdivu1_signed (s := u) hpos rfl hq hr (by rw [hudx, hsigns.2])
      (by rw [hudx, hsigns.1])
    rw [← hdividend, ← hdivisor] at hsigned
    exact ⟨t, ht, htq.trans hsigned.1, htr.trans hsigned.2, htsi.trans hsi⟩

end Numbers

end Bcc
end Rmmtos
