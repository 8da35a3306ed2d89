import Rmmtos.Bcc.LongDivision
import Rmmtos.Memory

/-!
# Long arithmetic

The routines that the compiler calls for numbers of 32 bits.  One number is in
{lit}`BX:AX`, the other one in memory at {lit}`DI`, which is the count of a
shift.  A routine for unsigned numbers is the same as that for signed ones
unless it has a definition of its own.
-/

namespace Rmmtos
namespace Bcc

open Library

/-!
# The code
-/

/-- The registers, and the memory they point to. -/
structure LongMachine where
  regs : LongRegs
  mem : Mem
  ds : Word

def longAt (m : Mem) (ds off : Word) : BitVec 32 :=
  peekw m ds (off + 2) ++ peekw m ds off

namespace LongMachine

def low (k : LongMachine) : Word := peekw k.mem k.ds k.regs.di

def high (k : LongMachine) : Word := peekw k.mem k.ds (k.regs.di + 2)

/-- The number at {lit}`DI`. -/
def operand (k : LongMachine) : BitVec 32 := longAt k.mem k.ds k.regs.di

def setRest (k : LongMachine) (p : Word × Word) : LongMachine :=
  { k with regs := { k.regs with bx := p.1, ax := p.2 } }

def setCx (k : LongMachine) (w : Word) : LongMachine :=
  { k with regs := { k.regs with cx := w } }

end LongMachine

open LongMachine

def laddl (k : LongMachine) : LongMachine :=
  k.setRest (addPair k.regs.bx k.regs.ax k.high k.low)

def lsubl (k : LongMachine) : LongMachine :=
  k.setRest (subPair k.regs.bx k.regs.ax k.high k.low)

def landl (k : LongMachine) : LongMachine :=
  k.setRest (k.regs.bx &&& k.high, k.regs.ax &&& k.low)

def lorl (k : LongMachine) : LongMachine :=
  k.setRest (k.regs.bx ||| k.high, k.regs.ax ||| k.low)

def leorl (k : LongMachine) : LongMachine :=
  k.setRest (k.regs.bx ^^^ k.high, k.regs.ax ^^^ k.low)

def lcoml (k : LongMachine) : LongMachine :=
  k.setRest (~~~k.regs.bx, ~~~k.regs.ax)

def lnegl (k : LongMachine) : LongMachine :=
  k.setRest (negPair k.regs.bx k.regs.ax)

/-- What {lit}`mul` leaves in {lit}`DX`. -/
def mulHigh (x y : Word) : Word :=
  (x.setWidth 32 * y.setWidth 32).extractLsb' 16 16

/-- The high words by the low ones, and then the low words. -/
def lmull (k : LongMachine) : LongMachine :=
  let cx := k.regs.ax
  let bx := k.regs.ax * k.high
  let bx := bx + k.regs.bx * k.low
  let dx := mulHigh k.low cx
  { k with regs := { k.regs with ax := k.low * cx, bx := bx + dx, cx := cx, dx := dx } }

/-- {lit}`loop`: the turns of a shift. -/
def shiftLoop (turn : Word × Word -> Word × Word) (cx : Word) (k : LongMachine) :
    LongMachine :=
  (k.setRest (turn^[cx.toNat] (k.regs.bx, k.regs.ax))).setCx 0

def shlTurn (p : Word × Word) : Word × Word := (rclPair p.1 p.2 false).1

def sarTurn (p : Word × Word) : Word × Word :=
  (p.1.sshiftRight 1, (rcr p.2 (p.1.getLsbD 0)).1)

def shrTurn (p : Word × Word) : Word × Word := (rcrPair p.1 p.2 false).1

def lsll (k : LongMachine) : LongMachine :=
  let k := k.setCx k.regs.di
  if k.regs.cx = 0 then k
  else if 32 ≤ k.regs.cx then k.setRest (0, 0)
  else shiftLoop shlTurn k.regs.cx k

def lsrl (k : LongMachine) : LongMachine :=
  let k := k.setCx k.regs.di
  if k.regs.cx = 0 then k
  else if 32 ≤ k.regs.cx then shiftLoop sarTurn 32 k
  else shiftLoop sarTurn k.regs.cx k

def lsrul (k : LongMachine) : LongMachine :=
  let k := k.setCx k.regs.di
  if k.regs.cx = 0 then k
  else if 32 ≤ k.regs.cx then k.setRest (0, 0)
  else shiftLoop shrTurn k.regs.cx k

def callDivision (division : LongRegs -> Result LongRegs) (k : LongMachine) :
    Result LongMachine :=
  division { k.regs with cx := k.low, di := k.high } >>= fun regs =>
    .ok { k with regs := regs }

def xchgRest (k : LongMachine) : LongMachine :=
  { k with
    regs := { k.regs with
      ax := k.regs.cx, cx := k.regs.ax, bx := k.regs.di, di := k.regs.bx } }

def lmodl (k : LongMachine) : Result LongMachine := callDivision ldivmod k

def lmodul (k : LongMachine) : Result LongMachine := callDivision ludivmod k

def ldivl (k : LongMachine) : Result LongMachine :=
  callDivision ldivmod k >>= fun k => .ok (xchgRest k)

def ldivul (k : LongMachine) : Result LongMachine :=
  callDivision ludivmod k >>= fun k => .ok (xchgRest k)

/-- The routines that leave a number in {lit}`BX:AX`. -/
inductive LongCall where
  | laddl | lsubl | landl | lorl | leorl | lcoml | lnegl | lmull
  | lsll | lsrl | lsrul | ldivl | ldivul | lmodl | lmodul
deriving DecidableEq, Repr

def LongCall.run (k : LongMachine) : LongCall -> Result LongMachine
  | laddl => .ok (Bcc.laddl k)
  | lsubl => .ok (Bcc.lsubl k)
  | landl => .ok (Bcc.landl k)
  | lorl => .ok (Bcc.lorl k)
  | leorl => .ok (Bcc.leorl k)
  | lcoml => .ok (Bcc.lcoml k)
  | lnegl => .ok (Bcc.lnegl k)
  | lmull => .ok (Bcc.lmull k)
  | lsll => .ok (Bcc.lsll k)
  | lsrl => .ok (Bcc.lsrl k)
  | lsrul => .ok (Bcc.lsrul k)
  | ldivl => Bcc.ldivl k
  | ldivul => Bcc.ldivul k
  | lmodl => Bcc.lmodl k
  | lmodul => Bcc.lmodul k

/-!
# Flags
-/

structure Flags where
  zero : Bool
  carry : Bool
  sign : Bool
  overflow : Bool
deriving DecidableEq, Repr

def cmpFlags (x y : Word) : Flags :=
  ⟨x - y == 0, decide (x < y), (x - y).msb, x.ssubOverflow y⟩

/-- {lit}`test` of a word with itself. -/
def testFlags (x : Word) : Flags := ⟨x == 0, false, x.msb, false⟩

/-- {lit}`inc` and {lit}`dec` keep the carry. -/
def incFlags (f : Flags) (x : Word) : Flags :=
  ⟨x + 1 == 0, f.carry, (x + 1).msb, x == 0x7fff⟩

def decFlags (f : Flags) (x : Word) : Flags :=
  ⟨x - 1 == 0, f.carry, (x - 1).msb, x == 0x8000⟩

def Flags.less (f : Flags) : Bool := f.sign != f.overflow

def lcmpl (k : LongMachine) : Flags :=
  let high := cmpFlags k.regs.bx k.high
  let bx := k.regs.bx - k.high
  if high.zero then
    let low := cmpFlags k.regs.ax k.low
    if low.carry then decFlags low bx
    else if low.less then incFlags low bx
    else low
  else high

def ltstl (k : LongMachine) : Flags :=
  let high := testFlags k.regs.bx
  if high.zero then
    let low := testFlags k.regs.ax
    if low.sign then incFlags low k.regs.bx else low
  else high

/-!
# What the routines compute
-/

/-- The number that a routine is to leave, from that in the registers, that in memory
and the count of a shift. -/
def LongCall.value (a b : BitVec 32) (n : Word) : LongCall -> BitVec 32
  | laddl => a + b
  | lsubl => a - b
  | landl => a &&& b
  | lorl => a ||| b
  | leorl => a ^^^ b
  | lcoml => ~~~a
  | lnegl => -a
  | lmull => a * b
  | lsll => a <<< n.toNat
  | lsrl => a.sshiftRight n.toNat
  | lsrul => a >>> n.toNat
  | ldivl => BitVec.ofInt 32 (a.toInt.fdiv b.toInt)
  | ldivul => a / b
  | lmodl => BitVec.ofInt 32 (a.toInt.fmod b.toInt)
  | lmodul => a % b

section Calls

variable {k : LongMachine}

theorem mulHigh_toNat (x y : Word) :
    (mulHigh x y).toNat = x.toNat * y.toNat / 2 ^ 16 := by
  have hx := x.isLt
  have hy := y.isLt
  have hprod : x.toNat * y.toNat < 2 ^ 32 :=
    Nat.lt_of_lt_of_le (Nat.mul_lt_mul'' hx hy) (by decide)
  unfold mulHigh
  rw [BitVec.extractLsb'_toNat, BitVec.toNat_mul, BitVec.toNat_setWidth,
    BitVec.toNat_setWidth, Nat.mod_eq_of_lt (a := x.toNat) (by omega),
    Nat.mod_eq_of_lt (a := y.toNat) (by omega), Nat.mod_eq_of_lt hprod,
    Nat.shiftRight_eq_div_pow]
  exact Nat.mod_eq_of_lt (by omega)

theorem lmull_rest (k : LongMachine) : (lmull k).regs.rest = k.regs.rest * k.operand := by
  apply BitVec.eq_of_toNat_eq
  have hrest : k.regs.rest.toNat = k.regs.bx.toNat * 2 ^ 16 + k.regs.ax.toNat :=
    append_value ..
  have hoperand : k.operand.toNat = k.high.toNat * 2 ^ 16 + k.low.toNat :=
    append_value ..
  have hhigh : (lmull k).regs.bx.toNat =
      (k.regs.ax.toNat * k.high.toNat + k.regs.bx.toNat * k.low.toNat +
        k.low.toNat * k.regs.ax.toNat / 2 ^ 16) % 2 ^ 16 := by
    change (k.regs.ax * k.high + k.regs.bx * k.low + mulHigh k.low k.regs.ax).toNat = _
    simp only [BitVec.toNat_add, BitVec.toNat_mul, mulHigh_toNat, Nat.mod_add_mod,
      Nat.add_mod_mod]
  have hlow : (lmull k).regs.ax.toNat =
      k.low.toNat * k.regs.ax.toNat % 2 ^ 16 := BitVec.toNat_mul ..
  have hsplit := Nat.mod_add_div (k.low.toNat * k.regs.ax.toNat) (2 ^ 16)
  have hlast := Nat.mod_lt (k.low.toNat * k.regs.ax.toNat) (Nat.two_pow_pos 16)
  have hvalue : (lmull k).regs.rest.toNat =
      (lmull k).regs.bx.toNat * 2 ^ 16 + (lmull k).regs.ax.toNat := append_value ..
  rw [hvalue, hhigh, hlow, BitVec.toNat_mul, hrest, hoperand]
  generalize k.regs.bx.toNat = h at *
  generalize k.regs.ax.toNat = l at *
  generalize k.high.toNat = h' at *
  generalize k.low.toNat = l' at *
  have hprod : (h * 2 ^ 16 + l) * (h' * 2 ^ 16 + l') =
      l' * l % 2 ^ 16 + 2 ^ 16 * (l * h' + h * l' + l' * l / 2 ^ 16) +
        2 ^ 32 * (h * h') := by
    nlinarith
  rw [hprod, Nat.add_mul_mod_self_left]
  omega

theorem shlTurn_value (p : Word × Word) :
    pairValue (shlTurn p) = pairValue p <<< 1 := by
  have hvalue := rclPair_value p.1 p.2 false
  have hcarry := Bool.toNat_le (rclPair p.1 p.2 false).2
  apply BitVec.eq_of_toNat_eq
  have hlt := (pairValue (shlTurn p)).isLt
  change (pairValue (shlTurn p)).toNat + 2 ^ 32 * _ = 2 * (pairValue p).toNat + 0 at hvalue
  rw [BitVec.toNat_shiftLeft, Nat.shiftLeft_eq]
  omega

theorem shrTurn_value (p : Word × Word) :
    pairValue (shrTurn p) = pairValue p >>> 1 := by
  have hvalue := rcrPair_value p.1 p.2 false
  have hcarry := Bool.toNat_le (rcrPair p.1 p.2 false).2
  apply BitVec.eq_of_toNat_eq
  change 2 * (pairValue (shrTurn p)).toNat + _ = (pairValue p).toNat + 0 at hvalue
  rw [BitVec.toNat_ushiftRight, Nat.shiftRight_eq_div_pow]
  omega

theorem pair_toInt (hi lo : Word) :
    BitVec.toInt (hi ++ lo : BitVec 32) = hi.toInt * 65536 + lo.toNat := by
  have hvalue : BitVec.toNat (hi ++ lo : BitVec 32) = hi.toNat * 2 ^ 16 + lo.toNat :=
    append_value hi lo
  have hmsb : BitVec.msb (hi ++ lo : BitVec 32) = hi.msb := BitVec.msb_append.trans rfl
  rw [BitVec.toInt_eq_msb_cond, BitVec.toInt_eq_msb_cond hi, hmsb, hvalue]
  split <;> omega

theorem sarTurn_value (p : Word × Word) :
    pairValue (sarTurn p) = (pairValue p).sshiftRight 1 := by
  have hrcr := rcr_toNat p.2 (p.1.getLsbD 0)
  have hcarry := Bool.toNat_le (rcr p.2 (p.1.getLsbD 0)).2
  have hlast : ((p.1.getLsbD 0).toNat : Int) = p.1.toInt % 2 := by
    rw [lsb_toNat, BitVec.toInt_eq_msb_cond]
    split <;> omega
  apply BitVec.eq_of_toInt_eq
  have hleft : (pairValue (sarTurn p)).toInt =
      (p.1.sshiftRight 1).toInt * 65536 + (rcr p.2 (p.1.getLsbD 0)).1.toNat :=
    pair_toInt _ _
  have hright : (pairValue p).toInt = p.1.toInt * 65536 + p.2.toNat := pair_toInt _ _
  rw [hleft, BitVec.toInt_sshiftRight, BitVec.toInt_sshiftRight, hright,
    Int.shiftRight_eq_div_pow, Int.shiftRight_eq_div_pow]
  omega

theorem turns_value {turn : Word × Word -> Word × Word}
    {shift : BitVec 32 -> Nat -> BitVec 32}
    (hturn : forall p, pairValue (turn p) = shift (pairValue p) 1)
    (hzero : forall x, shift x 0 = x)
    (hadd : forall x m, shift (shift x 1) m = shift x (m + 1)) (n : Nat)
    (p : Word × Word) : pairValue (turn^[n] p) = shift (pairValue p) n := by
  induction n generalizing p with
  | zero => exact (hzero _).symm
  | succ n ih => rw [Function.iterate_succ_apply, ih, hturn, hadd]

structure LongKept (k t : LongMachine) : Prop where
  mem : t.mem = k.mem
  ds : t.ds = k.ds
  si : t.regs.si = k.regs.si

theorem LongKept.refl (k : LongMachine) : LongKept k k := ⟨rfl, rfl, rfl⟩

/-- A shift, which has a way of its own for a count that is too large. -/
theorem shift_rest {turn : Word × Word -> Word × Word}
    {shift : BitVec 32 -> Nat -> BitVec 32} {large : LongMachine}
    (hturn : forall p, pairValue (turn p) = shift (pairValue p) 1)
    (hzero : forall x, shift x 0 = x)
    (hadd : forall x m, shift (shift x 1) m = shift x (m + 1))
    (hkept : LongKept k large) (n : Word)
    (hlarge : 32 ≤ n.toNat -> large.regs.rest = shift k.regs.rest n.toNat) :
    (if n = 0 then k else if 32 ≤ n then large else shiftLoop turn n k).regs.rest =
        shift k.regs.rest n.toNat ∧
      LongKept k (if n = 0 then k else if 32 ≤ n then large else shiftLoop turn n k) := by
  by_cases hnone : n = 0
  · rw [if_pos hnone, hnone]
    exact ⟨(hzero _).symm, LongKept.refl k⟩
  · rw [if_neg hnone]
    by_cases hcount : 32 ≤ n
    · rw [if_pos hcount]
      exact ⟨hlarge hcount, hkept⟩
    · rw [if_neg hcount]
      exact ⟨turns_value hturn hzero hadd n.toNat (k.regs.bx, k.regs.ax),
        ⟨rfl, rfl, rfl⟩⟩

theorem sshiftRight_large {x : BitVec 32} {n : Nat} (h : 32 ≤ n) :
    x.sshiftRight 32 = x.sshiftRight n := by
  apply BitVec.eq_of_getLsbD_eq
  intro i hi
  rw [BitVec.getLsbD_sshiftRight, BitVec.getLsbD_sshiftRight, if_neg (by omega),
    if_neg (by omega)]

theorem shiftLeft_next (x : BitVec 32) (m : Nat) : x <<< 1 <<< m = x <<< (m + 1) := by
  rw [Nat.add_comm m 1]
  exact (BitVec.shiftLeft_add x 1 m).symm

theorem ushiftRight_next (x : BitVec 32) (m : Nat) : x >>> 1 >>> m = x >>> (m + 1) := by
  rw [Nat.add_comm m 1]
  exact (BitVec.shiftRight_add x 1 m).symm

theorem sshiftRight_next (x : BitVec 32) (m : Nat) :
    (x.sshiftRight 1).sshiftRight m = x.sshiftRight (m + 1) := by
  rw [Nat.add_comm m 1]
  exact BitVec.sshiftRight_add.symm

theorem shifts_rest (k : LongMachine) :
    ((lsll k).regs.rest = k.regs.rest <<< k.regs.di.toNat ∧ LongKept k (lsll k)) ∧
    ((lsrl k).regs.rest = k.regs.rest.sshiftRight k.regs.di.toNat ∧
      LongKept k (lsrl k)) ∧
    ((lsrul k).regs.rest = k.regs.rest >>> k.regs.di.toNat ∧ LongKept k (lsrul k)) := by
  let j := k.setCx k.regs.di
  have hkept : forall {t}, LongKept j t -> LongKept k t := fun h => ⟨h.mem, h.ds, h.si⟩
  have hclear : LongKept j (j.setRest (0, 0)) := ⟨rfl, rfl, rfl⟩
  have hzero : ((0 : Word) ++ (0 : Word) : BitVec 32) = 0 := by decide
  have hnone : (j.setRest (0, 0)).regs.rest = 0 := hzero
  have hsign : LongKept j (shiftLoop sarTurn 32 j) := ⟨rfl, rfl, rfl⟩
  have hleft := shift_rest shlTurn_value BitVec.shiftLeft_zero shiftLeft_next hclear
    k.regs.di fun h => hnone.trans (BitVec.shiftLeft_eq_zero h).symm
  have hsigned := shift_rest sarTurn_value (fun _ => BitVec.sshiftRight_zero)
    sshiftRight_next hsign k.regs.di fun h =>
      (turns_value sarTurn_value (fun _ => BitVec.sshiftRight_zero) sshiftRight_next 32
        (j.regs.bx, j.regs.ax)).trans (sshiftRight_large h)
  have hright := shift_rest shrTurn_value BitVec.ushiftRight_zero ushiftRight_next hclear
    k.regs.di fun h => hnone.trans (BitVec.ushiftRight_eq_zero h).symm
  exact ⟨⟨hleft.1, hkept hleft.2⟩, ⟨hsigned.1, hkept hsigned.2⟩, hright.1,
    hkept hright.2⟩

theorem division_rest {division : LongRegs -> Result LongRegs} {k : LongMachine}
    {rest quotient : BitVec 32}
    (h : exists t, division { k.regs with cx := k.low, di := k.high } = .ok t ∧
      t.quotient = quotient ∧ t.rest = rest ∧ t.si = k.regs.si) :
    (exists t, callDivision division k = .ok t ∧ t.regs.rest = rest ∧ LongKept k t) ∧
    (exists t, (callDivision division k >>= fun k => .ok (xchgRest k)) = .ok t ∧
      t.regs.rest = quotient ∧ LongKept k t) := by
  rcases h with ⟨t, hrun, hquotient, hrest, hsi⟩
  have hcall : callDivision division k = .ok { k with regs := t } := by
    unfold callDivision
    rw [hrun]
    rfl
  refine ⟨⟨_, hcall, hrest, rfl, rfl, hsi⟩, xchgRest { k with regs := t }, ?_, hquotient,
    rfl, rfl, hsi⟩
  rw [hcall]
  rfl

/-- Every routine leaves its number in the registers, and memory as it was. -/
theorem long_calls (k : LongMachine) (c : LongCall) :
    exists t, c.run k = .ok t ∧
      t.regs.rest = c.value k.regs.rest k.operand k.regs.di ∧ LongKept k t := by
  have hsame : forall p, LongKept k (k.setRest p) := fun _ => ⟨rfl, rfl, rfl⟩
  have hsigned := division_rest (ldivmod_divides { k.regs with cx := k.low, di := k.high })
  have hunsigned :=
    division_rest (ludivmod_divides { k.regs with cx := k.low, di := k.high })
  have hshifts := shifts_rest k
  cases c with
  | laddl => exact ⟨_, rfl, addPair_value (by decide) .., hsame _⟩
  | lsubl => exact ⟨_, rfl, subPair_value (by decide) .., hsame _⟩
  | landl => exact ⟨_, rfl, BitVec.and_append.symm, hsame _⟩
  | lorl => exact ⟨_, rfl, BitVec.or_append.symm, hsame _⟩
  | leorl => exact ⟨_, rfl, BitVec.xor_append.symm, hsame _⟩
  | lcoml => exact ⟨_, rfl, BitVec.not_append.symm, hsame _⟩
  | lnegl => exact ⟨_, rfl, negPair_value (by decide) .., hsame _⟩
  | lmull => exact ⟨_, rfl, lmull_rest k, rfl, rfl, rfl⟩
  | lsll => exact ⟨_, rfl, hshifts.1⟩
  | lsrl => exact ⟨_, rfl, hshifts.2.1⟩
  | lsrul => exact ⟨_, rfl, hshifts.2.2⟩
  | ldivl => exact hsigned.2
  | ldivul => exact hunsigned.2
  | lmodl => exact hsigned.1
  | lmodul => exact hunsigned.1

/-!
# Comparisons
-/

theorem sub_eq_zero_iff (x y : Word) : x - y = 0 <-> x = y := by
  constructor <;> intro h <;> bv_omega

theorem cmpFlags_less (x y : Word) : (cmpFlags x y).less = x.slt y := by
  change ((x - y).msb != x.ssubOverflow y) = _
  rw [BitVec.ssubOverflow_eq, BitVec.slt_eq_ult, BitVec.ult_eq_decide]
  cases hmx : x.msb <;> cases hmy : y.msb <;> cases hms : (x - y).msb <;>
    simp only [BitVec.msb_eq_decide, decide_eq_true_eq, decide_eq_false_iff_not] at * <;>
    simp <;> bv_omega

/-- What the jumps after a comparison find out. -/
structure Compares (f : Flags) (a b : BitVec 32) : Prop where
  zero : f.zero = (a == b)
  carry : f.carry = a.ult b
  less : f.less = a.slt b

theorem word_slt_iff (x y : Word) : x.slt y = true <-> x.toInt < y.toInt :=
  BitVec.slt_iff_toInt_lt

theorem compares_high {hi hi' : Word} (lo lo' : Word) (h : hi ≠ hi') :
    Compares (cmpFlags hi hi') (hi ++ lo) (hi' ++ lo') := by
  have hint : hi.toInt ≠ hi'.toInt := fun heq => h (BitVec.toInt_inj.mp heq)
  have hlo := lo.isLt
  have hlo' := lo'.isLt
  have hne : (hi ++ lo : BitVec 32) ≠ hi' ++ lo' := by
    intro heq
    have hvalue := congrArg BitVec.toInt heq
    rw [pair_toInt, pair_toInt] at hvalue
    omega
  refine ⟨?_, ?_, ?_⟩
  · change (hi - hi' == 0) = _
    rw [beq_eq_false_iff_ne.mpr hne, beq_eq_false_iff_ne]
    exact fun heq => h ((sub_eq_zero_iff hi hi').mp heq)
  · change decide (hi < hi') = _
    rw [BitVec.ult_eq_decide_lt, decide_eq_decide, append_lt_iff]
    exact ⟨Or.inl, fun hlt => hlt.resolve_right fun heq => h heq.1⟩
  · rw [cmpFlags_less, Bool.eq_iff_iff, word_slt_iff, BitVec.slt_iff_toInt_lt, pair_toInt,
      pair_toInt]
    omega

theorem compares_low (hi lo lo' : Word) {f : Flags} (hzero : f.zero = (lo == lo'))
    (hcarry : f.carry = decide (lo < lo')) (hless : f.less = decide (lo < lo')) :
    Compares f (hi ++ lo) (hi ++ lo') := by
  refine ⟨?_, ?_, ?_⟩
  · rw [hzero, Bool.eq_iff_iff, beq_iff_eq, beq_iff_eq]
    exact (BitVec.append_right_inj hi).symm
  · rw [hcarry, BitVec.ult_eq_decide_lt, decide_eq_decide, append_lt_iff]
    constructor
    · exact fun hlt => Or.inr ⟨rfl, hlt⟩
    · rintro (hlt | ⟨_, hlt⟩)
      · exact absurd hlt (BitVec.lt_irrefl hi)
      · exact hlt
  · rw [hless, Bool.eq_iff_iff, decide_eq_true_iff, BitVec.slt_iff_toInt_lt, pair_toInt,
      pair_toInt, BitVec.lt_def]
    omega

theorem lcmpl_compares (k : LongMachine) : Compares (lcmpl k) k.regs.rest k.operand := by
  change Compares (lcmpl k) (k.regs.bx ++ k.regs.ax) (k.high ++ k.low)
  by_cases heq : k.regs.bx = k.high
  · have hzero : (cmpFlags k.regs.bx k.high).zero = true :=
      beq_iff_eq.mpr ((sub_eq_zero_iff _ _).mpr heq)
    have hbx : k.regs.bx - k.high = 0 := (sub_eq_zero_iff _ _).mpr heq
    have hfacts := cmpFlags_less k.regs.ax k.low
    unfold lcmpl
    dsimp only
    rw [if_pos hzero, hbx, heq]
    cases hcarry : (cmpFlags k.regs.ax k.low).carry with
    | true =>
      rw [if_pos rfl]
      have hlt : k.regs.ax < k.low := of_decide_eq_true hcarry
      refine compares_low _ _ _ ?_ (hcarry.trans ?_) ?_
      · exact (beq_eq_false_iff_ne.mpr (BitVec.ne_of_lt hlt)).symm
      · exact (decide_eq_true hlt).symm
      · exact (decide_eq_true hlt).symm
    | false =>
      rw [if_neg Bool.false_ne_true]
      have hnot : ¬k.regs.ax < k.low := of_decide_eq_false hcarry
      cases hless : (cmpFlags k.regs.ax k.low).less with
      | true =>
        rw [if_pos rfl]
        rw [hless] at hfacts
        refine compares_low _ _ _ ?_ (hcarry.trans ?_) ?_
        · refine (beq_eq_false_iff_ne.mpr ?_).symm
          intro hsame
          have hlt := (word_slt_iff _ _).mp hfacts.symm
          rw [hsame] at hlt
          exact Int.lt_irrefl _ hlt
        · exact (decide_eq_false hnot).symm
        · exact (decide_eq_false hnot).symm
      | false =>
        rw [if_neg Bool.false_ne_true]
        refine compares_low _ _ _ ?_ rfl (hless.trans (decide_eq_false hnot).symm)
        change (k.regs.ax - k.low == 0) = _
        rw [Bool.eq_iff_iff, beq_iff_eq, beq_iff_eq]
        exact sub_eq_zero_iff _ _
  · have hzero : ¬(cmpFlags k.regs.bx k.high).zero = true :=
      fun h => heq ((sub_eq_zero_iff _ _).mp (beq_iff_eq.mp h))
    unfold lcmpl
    dsimp only
    rw [if_neg hzero]
    exact compares_high _ _ heq

theorem testFlags_eq (x : Word) : testFlags x = cmpFlags x 0 := by
  have hnone : x.ssubOverflow 0 = false := by
    rw [BitVec.ssubOverflow_eq, show x - 0 = x from BitVec.sub_zero x]
    cases x.msb <;> rfl
  have hcarry : decide (x < 0) = false := decide_eq_false (BitVec.not_lt_zero)
  unfold testFlags cmpFlags
  rw [show x - 0 = x from BitVec.sub_zero x, hnone, hcarry]

theorem ltstl_compares (k : LongMachine) : Compares (ltstl k) k.regs.rest 0 := by
  have hzero : (0 : BitVec 32) = (0 : Word) ++ (0 : Word) := by decide
  rw [hzero]
  change Compares (ltstl k) (k.regs.bx ++ k.regs.ax) _
  have hnot : ¬k.regs.ax < 0 := BitVec.not_lt_zero
  by_cases heq : k.regs.bx = 0
  · have hnone : (testFlags k.regs.bx).zero = true := beq_iff_eq.mpr heq
    unfold ltstl
    dsimp only
    rw [if_pos hnone, heq]
    cases hsign : (testFlags k.regs.ax).sign with
    | true =>
      rw [if_pos rfl]
      refine compares_low _ _ _ ?_ (decide_eq_false hnot).symm (decide_eq_false hnot).symm
      refine (beq_eq_false_iff_ne.mpr ?_).symm
      intro hsame
      rw [hsame] at hsign
      exact Bool.noConfusion hsign
    | false =>
      rw [if_neg Bool.false_ne_true]
      refine compares_low _ _ _ rfl (decide_eq_false hnot).symm ?_
      change ((testFlags k.regs.ax).sign != false) = _
      rw [hsign, decide_eq_false hnot]
      rfl
  · have hhigh : ¬(testFlags k.regs.bx).zero = true := fun h => heq (beq_iff_eq.mp h)
    unfold ltstl
    dsimp only
    rw [if_neg hhigh, testFlags_eq]
    exact compares_high _ _ heq

/-- The flags that the comparisons leave are those of a comparison of the numbers. -/
theorem long_comparisons (k : LongMachine) :
    Compares (lcmpl k) k.regs.rest k.operand ∧ Compares (ltstl k) k.regs.rest 0 :=
  ⟨lcmpl_compares k, ltstl_compares k⟩

end Calls

end Bcc
end Rmmtos
