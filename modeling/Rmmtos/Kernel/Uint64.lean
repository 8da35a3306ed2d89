import Rmmtos.Machine
import Mathlib.Tactic.Ring

/-!
# 64-bit numbers

The arithmetic of {lit}`kernel/uint64.c` on four words, the lowest one first.
-/

namespace Rmmtos
namespace Kernel

open Library

structure Uint64 where
  i0 : Word
  i1 : Word
  i2 : Word
  i3 : Word
deriving DecidableEq, Repr

def init64 (hh hl lh ll : Word) : Uint64 :=
  ⟨ll, lh, hl, hh⟩

/-- Compare two words; the outcome of the whole comparison is the first one
that is not zero. -/
def compareWords (a b : Word) : Int :=
  if b < a then 1 else if a < b then -1 else 0

def cmp64 (a b : Uint64) : Int :=
  if compareWords a.i3 b.i3 ≠ 0 then compareWords a.i3 b.i3
  else if compareWords a.i2 b.i2 ≠ 0 then compareWords a.i2 b.i2
  else if compareWords a.i1 b.i1 ≠ 0 then compareWords a.i1 b.i1
  else compareWords a.i0 b.i0

def cmp64_16 (a : Uint64) (b : Word) : Int :=
  if 0 < a.i3 ∨ 0 < a.i2 ∨ 0 < a.i1 then 1 else compareWords a.i0 b

/-- The carry of an addition of {lit}`t` that left {lit}`a`. -/
def carryOf (a t : Word) : Word :=
  if a < t then 1 else 0

def inc64 (a : Uint64) : Uint64 :=
  let a0 := a.i0 + 1
  let c0 := carryOf a0 1
  let a1 := a.i1 + c0
  let c1 := carryOf a1 c0
  let a2 := a.i2 + c1
  let c2 := carryOf a2 c1
  let a3 := a.i3 + c2
  ⟨a0, a1, a2, a3⟩

def add64 (a b : Uint64) : Uint64 :=
  let a0 := a.i0 + b.i0
  let c0 := carryOf a0 b.i0
  let a1 := a.i1 + (b.i1 + c0)
  let c1 := carryOf a1 (b.i1 + c0)
  let a2 := a.i2 + (b.i2 + c1)
  let c2 := carryOf a2 (b.i2 + c1)
  let a3 := a.i3 + (b.i3 + c2)
  ⟨a0, a1, a2, a3⟩

def add64_16 (a : Uint64) (b : Word) : Uint64 :=
  let a0 := a.i0 + b
  let c0 := carryOf a0 b
  let a1 := a.i1 + c0
  let c1 := carryOf a1 c0
  let a2 := a.i2 + c1
  let c2 := carryOf a2 c1
  let a3 := a.i3 + c2
  ⟨a0, a1, a2, a3⟩

/-- The borrow of a subtraction that added {lit}`t` and left {lit}`a`. -/
def borrowOf (a t : Word) : Word :=
  if t < a then 1 else 0

def dec64 (a : Uint64) : Uint64 :=
  let a0 := a.i0 + 0xffff
  let c0 := borrowOf a0 0xffff
  let a1 := a.i1 + (0 - c0)
  let c1 := borrowOf a1 (0 - c0)
  let a2 := a.i2 + (0 - c1)
  let c2 := borrowOf a2 (0 - c1)
  let a3 := a.i3 + (0 - c2)
  ⟨a0, a1, a2, a3⟩

/-- The borrow is taken off the negated word before it is added. -/
def sub64 (a b : Uint64) : Uint64 :=
  let t0 := ~~~b.i0 + 1
  let a0 := a.i0 + t0
  let c0 := borrowOf a0 t0
  let t1 := ~~~b.i1 + 1 - c0
  let a1 := a.i1 + t1
  let c1 := borrowOf a1 t1
  let t2 := ~~~b.i2 + 1 - c1
  let a2 := a.i2 + t2
  let c2 := borrowOf a2 t2
  let t3 := ~~~b.i3 + 1 - c2
  let a3 := a.i3 + t3
  ⟨a0, a1, a2, a3⟩

/-- The low word of two words that are shifted right together. -/
def shrWord (low high : Word) (n : Nat) : Word :=
  (low >>> n) ||| (high <<< (16 - n))

/-- The bits that are shifted out, and the number without them. -/
def shr64 (p : Uint64) (n : Word) : Result (Word × Uint64) :=
  if 16 < n then panic .tooLargeShr64
  else
    let k := n.toNat
    .ok ((p.i0 <<< (16 - k)) >>> (16 - k),
      ⟨shrWord p.i0 p.i1 k, shrWord p.i1 p.i2 k, shrWord p.i2 p.i3 k,
        p.i3 >>> k⟩)

def shlWords (p : Uint64) : Nat -> Uint64
  | 0 => p
  | turns + 1 => shlWords ⟨0, p.i0, p.i1, p.i2⟩ turns

/-- The high word of two words that are shifted left together. -/
def shlWord (low high : Word) (n : Nat) : Word :=
  (high <<< n) ||| (low >>> (16 - n))

/-- The words are shifted until at most 16 bits are left to shift by. -/
def shl64 (p : Uint64) (n : Word) : Uint64 :=
  let turns := (n.toNat - 1) / 16
  let k := n.toNat - 16 * turns
  let p := shlWords p turns
  ⟨p.i0 <<< k, shlWord p.i0 p.i1 k, shlWord p.i1 p.i2 k, shlWord p.i2 p.i3 k⟩

def Uint64.toNat (a : Uint64) : Nat :=
  a.i0.toNat + 65536 * (a.i1.toNat + 65536 * (a.i2.toNat + 65536 * a.i3.toNat))

def Uint64.ofNat (n : Nat) : Uint64 where
  i0 := BitVec.ofNat 16 n
  i1 := BitVec.ofNat 16 (n / 65536)
  i2 := BitVec.ofNat 16 (n / 65536 / 65536)
  i3 := BitVec.ofNat 16 (n / 65536 / 65536 / 65536)

/-!
# Values
-/

section Values

variable {a b : Uint64} {n k : Nat}

theorem Uint64.toNat_lt (a : Uint64) : a.toNat < 2 ^ 64 := by
  have h0 := a.i0.isLt
  have h1 := a.i1.isLt
  have h2 := a.i2.isLt
  have h3 := a.i3.isLt
  unfold Uint64.toNat
  omega

theorem Uint64.toNat_ofNat (n : Nat) : (Uint64.ofNat n).toNat = n % 2 ^ 64 := by
  unfold Uint64.toNat Uint64.ofNat
  simp only [BitVec.toNat_ofNat]
  omega

theorem Uint64.eq_of_toNat_eq (h : a.toNat = b.toNat) : a = b := by
  have ha0 := a.i0.isLt
  have ha1 := a.i1.isLt
  have ha2 := a.i2.isLt
  have ha3 := a.i3.isLt
  have hb0 := b.i0.isLt
  have hb1 := b.i1.isLt
  have hb2 := b.i2.isLt
  have hb3 := b.i3.isLt
  rcases a with ⟨a0, a1, a2, a3⟩
  rcases b with ⟨b0, b1, b2, b3⟩
  unfold Uint64.toNat at h
  dsimp only at *
  have h0 : a0 = b0 := BitVec.eq_of_toNat_eq (by omega)
  have h1 : a1 = b1 := BitVec.eq_of_toNat_eq (by omega)
  have h2 : a2 = b2 := BitVec.eq_of_toNat_eq (by omega)
  have h3 : a3 = b3 := BitVec.eq_of_toNat_eq (by omega)
  rw [h0, h1, h2, h3]

@[simp] theorem Uint64.toNat_init64 (w : Word) :
    (init64 0 0 0 w).toNat = w.toNat := by
  unfold Uint64.toNat init64
  rfl

theorem toNat_add_carry (x t : Word) :
    (x + t).toNat + 65536 * (carryOf (x + t) t).toNat = x.toNat + t.toNat := by
  unfold carryOf
  split
  · change (x + t).toNat + 65536 * 1 = _
    bv_omega
  · change (x + t).toNat + 65536 * 0 = _
    bv_omega

theorem carryOf_le (x t : Word) : (carryOf x t).toNat ≤ 1 := by
  unfold carryOf
  split
  · exact Nat.le_refl 1
  · exact Nat.zero_le 1

theorem add64_16_toNat (a : Uint64) (b : Word) :
    (add64_16 a b).toNat = (a.toNat + b.toNat) % 2 ^ 64 := by
  have h0 := toNat_add_carry a.i0 b
  have h1 := toNat_add_carry a.i1 (carryOf (a.i0 + b) b)
  have h2 := toNat_add_carry a.i2
    (carryOf (a.i1 + carryOf (a.i0 + b) b) (carryOf (a.i0 + b) b))
  have hlt := (add64_16 a b).toNat_lt
  unfold Uint64.toNat add64_16 at *
  dsimp only at *
  generalize carryOf (a.i0 + b) b = c0 at *
  generalize carryOf (a.i1 + c0) c0 = c1 at *
  generalize carryOf (a.i2 + c1) c1 = c2 at *
  have h3 : (a.i3 + c2).toNat = (a.i3.toNat + c2.toNat) % 65536 :=
    BitVec.toNat_add ..
  omega

theorem inc64_eq (a : Uint64) : inc64 a = add64_16 a 1 := rfl

theorem inc64_toNat (a : Uint64) :
    (inc64 a).toNat = (a.toNat + 1) % 2 ^ 64 := by
  rw [inc64_eq]
  exact add64_16_toNat a 1

/-- No carry is lost when the upper words of the second number have room for
it. -/
theorem add64_toNat (a : Uint64) (h1 : b.i1 ≠ 0xffff) (h2 : b.i2 ≠ 0xffff)
    (h3 : b.i3 ≠ 0xffff) :
    (add64 a b).toNat = (a.toNat + b.toNat) % 2 ^ 64 := by
  have hcarry : forall w c : Word, w ≠ 0xffff -> c.toNat ≤ 1 ->
      (w + c).toNat = w.toNat + c.toNat := by
    intro w c hw hc
    have hne : w.toNat ≠ 65535 := fun h => hw (BitVec.eq_of_toNat_eq h)
    bv_omega
  have e0 := toNat_add_carry a.i0 b.i0
  have l0 := carryOf_le (a.i0 + b.i0) b.i0
  unfold Uint64.toNat add64
  dsimp only
  generalize carryOf (a.i0 + b.i0) b.i0 = c0 at *
  have t1 := hcarry b.i1 c0 h1 l0
  have e1 := toNat_add_carry a.i1 (b.i1 + c0)
  have l1 := carryOf_le (a.i1 + (b.i1 + c0)) (b.i1 + c0)
  generalize carryOf (a.i1 + (b.i1 + c0)) (b.i1 + c0) = c1 at *
  have t2 := hcarry b.i2 c1 h2 l1
  have e2 := toNat_add_carry a.i2 (b.i2 + c1)
  have l2 := carryOf_le (a.i2 + (b.i2 + c1)) (b.i2 + c1)
  generalize carryOf (a.i2 + (b.i2 + c1)) (b.i2 + c1) = c2 at *
  have t3 := hcarry b.i3 c2 h3 l2
  have e3 : (a.i3 + (b.i3 + c2)).toNat =
      (a.i3.toNat + (b.i3 + c2).toNat) % 65536 := BitVec.toNat_add ..
  omega

theorem add64_toNat_of_lt (hb : b.toNat < 2 ^ 31) :
    (add64 a b).toNat = (a.toNat + b.toNat) % 2 ^ 64 := by
  have hwords : b.i1.toNat < 0xffff ∧ b.i2.toNat < 0xffff ∧
      b.i3.toNat < 0xffff := by
    unfold Uint64.toNat at hb
    omega
  have hne : forall w : Word, w.toNat < 0xffff -> w ≠ 0xffff := by
    intro w hw heq
    rw [heq] at hw
    exact absurd hw (by decide)
  exact add64_toNat a (hne _ hwords.1) (hne _ hwords.2.1) (hne _ hwords.2.2)

theorem compareWords_eq (x y : Word) :
    x.toNat < y.toNat ∧ compareWords x y = -1 ∨
      x.toNat = y.toNat ∧ compareWords x y = 0 ∨
      y.toNat < x.toNat ∧ compareWords x y = 1 := by
  unfold compareWords
  split
  · next h => exact Or.inr (Or.inr ⟨h, rfl⟩)
  · split
    · next h => exact Or.inl ⟨h, rfl⟩
    · next h h' =>
        refine Or.inr (Or.inl ⟨?_, rfl⟩)
        bv_omega

theorem cmp64_eq (a b : Uint64) :
    a.toNat < b.toNat ∧ cmp64 a b = -1 ∨ a.toNat = b.toNat ∧ cmp64 a b = 0 ∨
      b.toNat < a.toNat ∧ cmp64 a b = 1 := by
  have ha0 := a.i0.isLt
  have ha1 := a.i1.isLt
  have ha2 := a.i2.isLt
  have hb0 := b.i0.isLt
  have hb1 := b.i1.isLt
  have hb2 := b.i2.isLt
  unfold cmp64 Uint64.toNat
  rcases compareWords_eq a.i3 b.i3 with ⟨h3, e3⟩ | ⟨h3, e3⟩ | ⟨h3, e3⟩
  · simp [e3]
    omega
  · rcases compareWords_eq a.i2 b.i2 with ⟨h2, e2⟩ | ⟨h2, e2⟩ | ⟨h2, e2⟩
    · simp [e3, e2]
      omega
    · rcases compareWords_eq a.i1 b.i1 with ⟨h1, e1⟩ | ⟨h1, e1⟩ | ⟨h1, e1⟩
      · simp [e3, e2, e1]
        omega
      · rcases compareWords_eq a.i0 b.i0 with ⟨h0, e0⟩ | ⟨h0, e0⟩ | ⟨h0, e0⟩
        · simp [e3, e2, e1, e0]
          omega
        · simp [e3, e2, e1, e0]
          omega
        · simp [e3, e2, e1, e0]
          omega
      · simp [e3, e2, e1]
        omega
    · simp [e3, e2]
      omega
  · simp [e3]
    omega

theorem cmp64_neg_iff : cmp64 a b < 0 <-> a.toNat < b.toNat := by
  rcases cmp64_eq a b with ⟨h, e⟩ | ⟨h, e⟩ | ⟨h, e⟩ <;> rw [e] <;> omega

theorem cmp64_zero_iff : cmp64 a b = 0 <-> a = b := by
  rcases cmp64_eq a b with ⟨h, e⟩ | ⟨h, e⟩ | ⟨h, e⟩
  · rw [e]
    refine iff_of_false (by decide) ?_
    rintro rfl
    exact Nat.lt_irrefl _ h
  · exact iff_of_true e (Uint64.eq_of_toNat_eq h)
  · rw [e]
    refine iff_of_false (by decide) ?_
    rintro rfl
    exact Nat.lt_irrefl _ h

theorem cmp64_le_iff : cmp64 a b ≤ 0 <-> a.toNat ≤ b.toNat := by
  rcases cmp64_eq a b with ⟨h, e⟩ | ⟨h, e⟩ | ⟨h, e⟩ <;> rw [e] <;> omega

theorem cmp64_16_eq (a : Uint64) (b : Word) :
    a.toNat < b.toNat ∧ cmp64_16 a b = -1 ∨ a.toNat = b.toNat ∧ cmp64_16 a b = 0 ∨
      b.toNat < a.toNat ∧ cmp64_16 a b = 1 := by
  have hb := b.isLt
  have hzero : (0 : Word).toNat = 0 := rfl
  unfold cmp64_16 Uint64.toNat
  simp only [BitVec.lt_def, hzero]
  split
  · exact Or.inr (Or.inr ⟨by omega, rfl⟩)
  · rcases compareWords_eq a.i0 b with ⟨h0, e0⟩ | ⟨h0, e0⟩ | ⟨h0, e0⟩
    · exact Or.inl ⟨by omega, e0⟩
    · exact Or.inr (Or.inl ⟨by omega, e0⟩)
    · exact Or.inr (Or.inr ⟨by omega, e0⟩)

theorem cmp64_16_zero_iff : cmp64_16 a 0 = 0 <-> a.toNat = 0 := by
  have hzero : (0 : Word).toNat = 0 := rfl
  have heq := cmp64_16_eq a 0
  rw [hzero] at heq
  rcases heq with ⟨h, e⟩ | ⟨h, e⟩ | ⟨h, e⟩ <;> rw [e] <;> omega

/-!
# Shifts
-/

theorem shrWord_toNat (low high : Word) (hk : k ≤ 16) :
    (shrWord low high k).toNat =
      low.toNat / 2 ^ k + (high.toNat % 2 ^ k) * 2 ^ (16 - k) := by
  have hlow := low.isLt
  have hpow : 2 ^ k * 2 ^ (16 - k) = 65536 := by
    rw [← Nat.pow_add, Nat.add_sub_cancel' hk]
  have hhigh : high.toNat * 2 ^ (16 - k) % 2 ^ 16 =
      2 ^ (16 - k) * (high.toNat % 2 ^ k) := by
    change high.toNat * 2 ^ (16 - k) % 65536 = _
    rw [← hpow, Nat.mul_mod_mul_right, Nat.mul_comm]
  have hsmall : low.toNat / 2 ^ k < 2 ^ (16 - k) := by
    rw [Nat.div_lt_iff_lt_mul (Nat.two_pow_pos k), Nat.mul_comm, hpow]
    exact hlow
  unfold shrWord
  rw [BitVec.toNat_or, BitVec.toNat_ushiftRight, BitVec.toNat_shiftLeft,
    Nat.shiftRight_eq_div_pow, Nat.shiftLeft_eq, hhigh, Nat.or_comm,
    ← Nat.two_pow_add_eq_or_of_lt hsmall]
  rw [Nat.add_comm, Nat.mul_comm]

theorem div_step (x r : Nat) (hk : k ≤ 16) :
    (x + 65536 * r) / 2 ^ k =
      x / 2 ^ k + (r % 2 ^ k) * 2 ^ (16 - k) + 65536 * (r / 2 ^ k) := by
  have hpow : 2 ^ k * 2 ^ (16 - k) = 65536 := by
    rw [← Nat.pow_add, Nat.add_sub_cancel' hk]
  have hsplit := Nat.div_add_mod r (2 ^ k)
  have hleft : (x + 65536 * r) / 2 ^ k = x / 2 ^ k + 2 ^ (16 - k) * r := by
    rw [← hpow, Nat.mul_assoc, Nat.add_mul_div_left _ _ (Nat.two_pow_pos k)]
  rw [hleft]
  conv_lhs => rw [← hsplit]
  rw [Nat.mul_add, ← Nat.mul_assoc, Nat.mul_comm (2 ^ (16 - k)) (2 ^ k), hpow,
    Nat.mul_comm (2 ^ (16 - k))]
  omega

theorem mod_step (x r : Nat) (hk : k ≤ 16) :
    (x + 65536 * r) % 2 ^ k = x % 2 ^ k := by
  have hpow : 2 ^ k * 2 ^ (16 - k) = 65536 := by
    rw [← Nat.pow_add, Nat.add_sub_cancel' hk]
  rw [← hpow, Nat.mul_assoc, Nat.add_mul_mod_self_left]

theorem shr64_eq (a : Uint64) {n : Word} (hn : n.toNat ≤ 16) :
    exists shifted b, shr64 a n = .ok (shifted, b) ∧
      b.toNat = a.toNat / 2 ^ n.toNat ∧
      shifted.toNat = a.toNat % 2 ^ n.toNat := by
  have hle : ¬ 16 < n := by
    bv_omega
  have hpow : 2 ^ n.toNat * 2 ^ (16 - n.toNat) = 65536 := by
    rw [← Nat.pow_add, Nat.add_sub_cancel' hn]
  unfold shr64
  rw [if_neg hle]
  refine ⟨_, _, rfl, ?_, ?_⟩
  · unfold Uint64.toNat
    dsimp only
    rw [shrWord_toNat _ _ hn, shrWord_toNat _ _ hn, shrWord_toNat _ _ hn,
      BitVec.toNat_ushiftRight, Nat.shiftRight_eq_div_pow, div_step _ _ hn,
      div_step _ _ hn, div_step _ _ hn, mod_step _ _ hn, mod_step _ _ hn]
  · unfold Uint64.toNat
    rw [mod_step _ _ hn, BitVec.toNat_ushiftRight, BitVec.toNat_shiftLeft,
      Nat.shiftRight_eq_div_pow, Nat.shiftLeft_eq]
    change a.i0.toNat * 2 ^ (16 - n.toNat) % 65536 / _ = _
    rw [← hpow, Nat.mul_mod_mul_right,
      Nat.mul_div_cancel _ (Nat.two_pow_pos _)]

theorem shlWord_toNat (low high : Word) (hk : k ≤ 16) :
    (shlWord low high k).toNat =
      high.toNat * 2 ^ k % 65536 + low.toNat / 2 ^ (16 - k) := by
  have hlow := low.isLt
  have hpow : 2 ^ (16 - k) * 2 ^ k = 65536 := by
    rw [← Nat.pow_add, Nat.sub_add_cancel hk]
  have hsmall : low.toNat / 2 ^ (16 - k) < 2 ^ k := by
    rw [Nat.div_lt_iff_lt_mul (Nat.two_pow_pos _), Nat.mul_comm, hpow]
    exact hlow
  have hhigh : high.toNat * 2 ^ k % 65536 =
      2 ^ k * (high.toNat % 2 ^ (16 - k)) := by
    rw [← hpow, Nat.mul_mod_mul_right, Nat.mul_comm]
  unfold shlWord
  rw [BitVec.toNat_or, BitVec.toNat_ushiftRight, BitVec.toNat_shiftLeft,
    Nat.shiftRight_eq_div_pow, Nat.shiftLeft_eq]
  change high.toNat * 2 ^ k % 65536 ||| _ = _
  rw [hhigh, ← Nat.two_pow_add_eq_or_of_lt hsmall]

theorem mul_step (x : Nat) (hk : k ≤ 16) :
    x * 2 ^ k = x * 2 ^ k % 65536 + 65536 * (x / 2 ^ (16 - k)) := by
  have hpow : 2 ^ (16 - k) * 2 ^ k = 65536 := by
    rw [← Nat.pow_add, Nat.sub_add_cancel hk]
  have hdiv : x * 2 ^ k / 65536 = x / 2 ^ (16 - k) := by
    rw [← hpow, Nat.mul_div_mul_right _ _ (Nat.two_pow_pos k)]
  rw [← hdiv]
  exact (Nat.mod_add_div _ _).symm

theorem shlWords_toNat (p : Uint64) (turns : Nat) :
    (shlWords p turns).toNat = p.toNat * 65536 ^ turns % 2 ^ 64 := by
  induction turns generalizing p with
  | zero =>
      rw [Nat.pow_zero, Nat.mul_one]
      exact (Nat.mod_eq_of_lt p.toNat_lt).symm
  | succ turns ih =>
      have hword : (⟨0, p.i0, p.i1, p.i2⟩ : Uint64).toNat = p.toNat * 65536 % 2 ^ 64 := by
        have h0 := p.i0.isLt
        have h1 := p.i1.isLt
        have h2 := p.i2.isLt
        have hzero : (0 : Word).toNat = 0 := rfl
        unfold Uint64.toNat
        dsimp only
        rw [hzero]
        omega
      unfold shlWords
      rw [ih, hword, Nat.mod_mul_mod, Nat.pow_succ']
      congr 1
      ring

theorem shlBits_toNat (p : Uint64) (hk : k ≤ 16) :
    (⟨p.i0 <<< k, shlWord p.i0 p.i1 k, shlWord p.i1 p.i2 k,
        shlWord p.i2 p.i3 k⟩ : Uint64).toNat = p.toNat * 2 ^ k % 2 ^ 64 := by
  have hlt := Uint64.toNat_lt ⟨p.i0 <<< k, shlWord p.i0 p.i1 k, shlWord p.i1 p.i2 k,
    shlWord p.i2 p.i3 k⟩
  have h0 := mul_step p.i0.toNat hk
  have h1 := mul_step p.i1.toNat hk
  have h2 := mul_step p.i2.toNat hk
  have h3 := mul_step p.i3.toNat hk
  have hi0 : (p.i0 <<< k).toNat = p.i0.toNat * 2 ^ k % 65536 := by
    rw [BitVec.toNat_shiftLeft, Nat.shiftLeft_eq]
  unfold Uint64.toNat at *
  dsimp only at *
  rw [shlWord_toNat _ _ hk, shlWord_toNat _ _ hk, shlWord_toNat _ _ hk, hi0] at hlt ⊢
  have hsum : (p.i0.toNat + 65536 * (p.i1.toNat + 65536 * (p.i2.toNat +
      65536 * p.i3.toNat))) * 2 ^ k =
      p.i0.toNat * 2 ^ k + 65536 * (p.i1.toNat * 2 ^ k + 65536 *
        (p.i2.toNat * 2 ^ k + 65536 * (p.i3.toNat * 2 ^ k))) := by
    ring
  rw [hsum]
  omega

/-- A shift by any number of bits is a multiplication. -/
theorem shl64_toNat (a : Uint64) (n : Word) :
    (shl64 a n).toNat = a.toNat * 2 ^ n.toNat % 2 ^ 64 := by
  have hk : n.toNat - 16 * ((n.toNat - 1) / 16) ≤ 16 := by
    omega
  have hsplit : n.toNat = 16 * ((n.toNat - 1) / 16) +
      (n.toNat - 16 * ((n.toNat - 1) / 16)) := by
    omega
  unfold shl64
  rw [shlBits_toNat _ hk, shlWords_toNat, Nat.mod_mul_mod]
  conv_rhs => rw [hsplit, Nat.pow_add, Nat.pow_mul, ← Nat.mul_assoc]

theorem one_shl_toNat (hk : k < 16) : ((1 : Word) <<< k).toNat = 2 ^ k := by
  have hlt : 2 ^ k < 2 ^ 16 := Nat.pow_lt_pow_right (by decide) hk
  rw [BitVec.toNat_shiftLeft, Nat.shiftLeft_eq, Nat.mod_eq_of_lt]
  · exact Nat.one_mul _
  · change 1 * _ < _
    omega

end Values

end Kernel
end Rmmtos
