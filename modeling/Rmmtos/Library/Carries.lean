import Mathlib.Tactic

/-!
# Carries

Instructions that take a carry and leave one, and what they do to a number that
is kept in two registers.  The carry goes from the low register to the high
one, or back when a number is rotated to the right.
-/

namespace Rmmtos
namespace Library

section Carries

variable {w : Nat}

def adc (x y : BitVec w) (c : Bool) : BitVec w × Bool :=
  (x + y + BitVec.ofNat w c.toNat, decide (2 ^ w ≤ x.toNat + y.toNat + c.toNat))

def sbb (x y : BitVec w) (c : Bool) : BitVec w × Bool :=
  (x - y - BitVec.ofNat w c.toNat, decide (x.toNat < y.toNat + c.toNat))

def rcl (x : BitVec w) (c : Bool) : BitVec w × Bool :=
  (x <<< 1 ||| (BitVec.ofBool c).setWidth w, x.msb)

def rcr (x : BitVec w) (c : Bool) : BitVec w × Bool :=
  (x >>> 1 ||| (BitVec.ofBool c).setWidth w <<< (w - 1), x.getLsbD 0)

/-!
# Numbers
-/

theorem adc_toNat (hw : 0 < w) (x y : BitVec w) (c : Bool) :
    (adc x y c).1.toNat + 2 ^ w * (adc x y c).2.toNat =
      x.toNat + y.toNat + c.toNat := by
  have hx := x.isLt
  have hy := y.isLt
  have hc := c.toNat_le
  have hone : 1 < 2 ^ w := Nat.one_lt_two_pow (Nat.ne_of_gt hw)
  unfold adc
  dsimp only
  rw [BitVec.toNat_add, BitVec.toNat_add, BitVec.toNat_ofNat, Nat.mod_eq_of_lt (a := c.toNat)
    (by omega), Nat.mod_add_mod]
  by_cases h : 2 ^ w ≤ x.toNat + y.toNat + c.toNat
  · rw [decide_eq_true h, Nat.mod_eq_sub_mod h, Nat.mod_eq_of_lt (by omega)]
    change _ + 2 ^ w * 1 = _
    omega
  · rw [decide_eq_false h, Nat.mod_eq_of_lt (by omega)]
    rfl

theorem sbb_toNat (hw : 0 < w) (x y : BitVec w) (c : Bool) :
    (sbb x y c).1.toNat + y.toNat + c.toNat =
      x.toNat + 2 ^ w * (sbb x y c).2.toNat := by
  have hx := x.isLt
  have hy := y.isLt
  have hc := c.toNat_le
  have hone : 1 < 2 ^ w := Nat.one_lt_two_pow (Nat.ne_of_gt hw)
  unfold sbb
  dsimp only
  rw [BitVec.toNat_sub, BitVec.toNat_sub, BitVec.toNat_ofNat, Nat.mod_eq_of_lt (a := c.toNat)
    (by omega), Nat.add_mod_mod]
  by_cases h : x.toNat < y.toNat + c.toNat
  · rw [decide_eq_true h, Nat.mod_eq_sub_mod (by omega), Nat.mod_eq_of_lt (by omega)]
    change _ = _ + 2 ^ w * 1
    omega
  · rw [decide_eq_false h, Nat.mod_eq_sub_mod (by omega), Nat.mod_eq_sub_mod (by omega),
      Nat.mod_eq_of_lt (by omega)]
    change _ = _ + 2 ^ w * 0
    omega

theorem bit_toNat (c : Bool) :
    ((BitVec.ofBool c).setWidth (w + 1)).toNat = c.toNat := by
  have hc := c.toNat_le
  have hone : 1 < 2 ^ (w + 1) := Nat.one_lt_two_pow (Nat.succ_ne_zero w)
  rw [BitVec.toNat_setWidth, BitVec.toNat_ofBool, Nat.mod_eq_of_lt (by omega)]

theorem rcl_toNat (x : BitVec (w + 1)) (c : Bool) :
    (rcl x c).1.toNat + 2 ^ (w + 1) * (rcl x c).2.toNat = 2 * x.toNat + c.toNat := by
  have hx := x.isLt
  have hc : c.toNat < 2 ^ 1 := Nat.lt_succ_of_le c.toNat_le
  have hsplit := Nat.mod_add_div x.toNat (2 ^ w)
  have hhigh : x.toNat / 2 ^ w = x.msb.toNat := by
    have hlt : x.toNat / 2 ^ w < 2 := Nat.div_lt_of_lt_mul (by rwa [← Nat.pow_succ])
    rw [BitVec.msb_eq_decide, Nat.add_sub_cancel]
    by_cases h : 2 ^ w ≤ x.toNat
    · have hpos := Nat.div_pos h (Nat.two_pow_pos w)
      rw [decide_eq_true h]
      change _ = 1
      omega
    · rw [decide_eq_false h, Nat.div_eq_of_lt (Nat.lt_of_not_le h)]
      rfl
  have hlow : 2 * x.toNat % 2 ^ (w + 1) = 2 * (x.toNat % 2 ^ w) := by
    rw [Nat.pow_succ', Nat.mul_mod_mul_left]
  unfold rcl
  dsimp only
  rw [BitVec.toNat_or, bit_toNat, BitVec.toNat_shiftLeft, Nat.shiftLeft_eq, Nat.pow_one,
    Nat.mul_comm x.toNat, hlow, Nat.mul_comm 2, ← Nat.pow_one 2, ← Nat.shiftLeft_eq,
    ← Nat.shiftLeft_add_eq_or_of_lt hc, Nat.shiftLeft_eq, Nat.pow_one, ← hhigh,
    Nat.pow_succ]
  linarith

theorem lsb_toNat (x : BitVec w) : (x.getLsbD 0).toNat = x.toNat % 2 := by
  have hlt := Nat.mod_lt x.toNat Nat.two_pos
  unfold BitVec.getLsbD
  rw [Nat.testBit_zero]
  by_cases h : x.toNat % 2 = 1
  · rw [decide_eq_true h, h]
    rfl
  · rw [decide_eq_false h]
    change 0 = _
    omega

theorem rcr_toNat (x : BitVec (w + 1)) (c : Bool) :
    2 * (rcr x c).1.toNat + (rcr x c).2.toNat =
      x.toNat + 2 ^ (w + 1) * c.toNat := by
  have hc := c.toNat_le
  have hhalf : x.toNat / 2 < 2 ^ w := by
    have hx := x.isLt
    rw [Nat.pow_succ] at hx
    omega
  have htop : c.toNat * 2 ^ w < 2 ^ (w + 1) := by
    have hle := Nat.mul_le_mul_right (2 ^ w) hc
    have hpos := Nat.two_pow_pos w
    rw [Nat.pow_succ]
    omega
  have hsplit := Nat.mod_add_div x.toNat 2
  unfold rcr
  dsimp only
  rw [lsb_toNat, BitVec.toNat_or, BitVec.toNat_ushiftRight, BitVec.toNat_shiftLeft, bit_toNat,
    Nat.add_sub_cancel, Nat.shiftLeft_eq, Nat.mod_eq_of_lt htop, ← Nat.shiftLeft_eq,
    Nat.shiftRight_eq_div_pow, Nat.pow_one, Nat.or_comm,
    ← Nat.shiftLeft_add_eq_or_of_lt hhalf, Nat.shiftLeft_eq, Nat.pow_succ]
  linarith

/-!
# Numbers in two registers
-/

theorem append_value (hi lo : BitVec w) :
    (hi ++ lo).toNat = hi.toNat * 2 ^ w + lo.toNat := by
  rw [BitVec.toNat_append, ← Nat.shiftLeft_add_eq_or_of_lt lo.isLt, Nat.shiftLeft_eq]

theorem append_lt_iff (hi lo hi' lo' : BitVec w) :
    hi ++ lo < hi' ++ lo' <-> hi < hi' ∨ hi = hi' ∧ lo < lo' := by
  have hlo := lo.isLt
  have hlo' := lo'.isLt
  rw [BitVec.lt_def, append_value, append_value]
  rcases Nat.lt_trichotomy hi.toNat hi'.toNat with hlt | heq | hgt
  · refine iff_of_true ?_ (Or.inl hlt)
    have hnext := Nat.mul_le_mul_right (2 ^ w) hlt
    rw [Nat.succ_mul] at hnext
    omega
  · have hsame := BitVec.eq_of_toNat_eq heq
    subst hsame
    constructor
    · intro h
      exact Or.inr ⟨rfl, Nat.lt_of_add_lt_add_left h⟩
    · rintro (h | ⟨_, h⟩)
      · exact absurd h (Nat.lt_irrefl _)
      · exact Nat.add_lt_add_left h _
  · refine iff_of_false ?_ ?_
    · have hnext := Nat.mul_le_mul_right (2 ^ w) hgt
      rw [Nat.succ_mul] at hnext
      omega
    · rintro (h | ⟨h, _⟩)
      · exact Nat.lt_asymm hgt h
      · rw [h] at hgt
        exact Nat.lt_irrefl _ hgt

def addPair (hi lo hi' lo' : BitVec w) : BitVec w × BitVec w :=
  let l := adc lo lo' false
  ((adc hi hi' l.2).1, l.1)

def subPair (hi lo hi' lo' : BitVec w) : BitVec w × BitVec w :=
  let l := sbb lo lo' false
  ((sbb hi hi' l.2).1, l.1)

def negPair (hi lo : BitVec w) : BitVec w × BitVec w :=
  let l := sbb 0 lo false
  ((sbb (-hi) 0 l.2).1, l.1)

def rclPair (hi lo : BitVec w) (c : Bool) : (BitVec w × BitVec w) × Bool :=
  let l := rcl lo c
  let h := rcl hi l.2
  ((h.1, l.1), h.2)

def rcrPair (hi lo : BitVec w) (c : Bool) : (BitVec w × BitVec w) × Bool :=
  let h := rcr hi c
  let l := rcr lo h.2
  ((h.1, l.1), l.2)

def pairValue (p : BitVec w × BitVec w) : BitVec (w + w) := p.1 ++ p.2

/-- Where a carry goes from the low registers to the high ones. -/
theorem carry_chain {m a₁ a₀ c₁ c₀ s₁ s₀ : Nat} (hlow : a₀ + m * c₀ = s₀)
    (hhigh : a₁ + m * c₁ = s₁ + c₀) :
    a₁ * m + a₀ + m * m * c₁ = s₁ * m + s₀ :=
  calc
    a₁ * m + a₀ + m * m * c₁ = m * (a₁ + m * c₁) + a₀ := by ring
    _ = m * (s₁ + c₀) + a₀ := by rw [hhigh]
    _ = s₁ * m + (a₀ + m * c₀) := by ring
    _ = s₁ * m + s₀ := by rw [hlow]

theorem addPair_value (hw : 0 < w) (hi lo hi' lo' : BitVec w) :
    pairValue (addPair hi lo hi' lo') = (hi ++ lo) + (hi' ++ lo') := by
  have hchain := carry_chain (adc_toNat hw lo lo' false)
    (adc_toNat hw hi hi' (adc lo lo' false).2)
  have hsum : (pairValue (addPair hi lo hi' lo')).toNat +
      2 ^ (w + w) * (adc hi hi' (adc lo lo' false).2).2.toNat =
        (hi ++ lo).toNat + (hi' ++ lo').toNat := by
    unfold pairValue
    rw [append_value, append_value, append_value, Nat.pow_add]
    refine hchain.trans ?_
    change (hi.toNat + hi'.toNat) * 2 ^ w + (lo.toNat + lo'.toNat) = _
    ring
  apply BitVec.eq_of_toNat_eq
  rw [BitVec.toNat_add, ← hsum, Nat.add_mul_mod_self_left]
  exact (Nat.mod_eq_of_lt (BitVec.isLt _)).symm

theorem subPair_value (hw : 0 < w) (hi lo hi' lo' : BitVec w) :
    pairValue (subPair hi lo hi' lo') = (hi ++ lo) - (hi' ++ lo') := by
  have hchain := carry_chain (sbb_toNat hw lo lo' false).symm
    (sbb_toNat hw hi hi' (sbb lo lo' false).2).symm
  have hsum : (hi ++ lo).toNat +
      2 ^ (w + w) * (sbb hi hi' (sbb lo lo' false).2).2.toNat =
        (pairValue (subPair hi lo hi' lo')).toNat + (hi' ++ lo').toNat := by
    unfold pairValue
    rw [append_value, append_value, append_value, Nat.pow_add]
    refine hchain.trans ?_
    change ((subPair hi lo hi' lo').1.toNat + hi'.toNat) * 2 ^ w +
      ((subPair hi lo hi' lo').2.toNat + lo'.toNat) = _
    ring
  rw [BitVec.eq_sub_iff_add_eq]
  apply BitVec.eq_of_toNat_eq
  rw [BitVec.toNat_add, ← hsum, Nat.add_mul_mod_self_left]
  exact Nat.mod_eq_of_lt (BitVec.isLt _)

theorem negPair_value (hw : 0 < w) (hi lo : BitVec w) :
    pairValue (negPair hi lo) = -(hi ++ lo) := by
  have hpair : negPair hi lo = subPair 0 0 hi lo := by
    unfold negPair subPair sbb
    dsimp only
    have hzero : -hi - 0 = 0 - hi := by
      rw [show (0 : BitVec w) - hi = -hi from BitVec.zero_sub hi]
      exact BitVec.sub_zero _
    rw [hzero]
  have hzero : ((0 : BitVec w) ++ (0 : BitVec w)) = (0 : BitVec (w + w)) := by
    apply BitVec.eq_of_toNat_eq
    rw [append_value]
    exact Nat.zero_mul _
  rw [hpair, subPair_value hw, hzero]
  exact BitVec.zero_sub _

theorem rclPair_value (hi lo : BitVec (w + 1)) (c : Bool) :
    (pairValue (rclPair hi lo c).1).toNat +
        2 ^ (w + 1 + (w + 1)) * (rclPair hi lo c).2.toNat =
      2 * (hi ++ lo).toNat + c.toNat := by
  have hchain := carry_chain (rcl_toNat lo c) (rcl_toNat hi (rcl lo c).2)
  unfold pairValue
  rw [append_value, append_value, Nat.pow_add 2 (w + 1) (w + 1)]
  refine hchain.trans ?_
  ring

theorem rcrPair_value (hi lo : BitVec (w + 1)) (c : Bool) :
    2 * (pairValue (rcrPair hi lo c).1).toNat + (rcrPair hi lo c).2.toNat =
      (hi ++ lo).toNat + 2 ^ (w + 1 + (w + 1)) * c.toNat := by
  have hhigh := rcr_toNat hi c
  have hlow := rcr_toNat lo (rcr hi c).2
  unfold pairValue rcrPair
  rw [append_value, append_value, Nat.pow_add 2 (w + 1) (w + 1)]
  dsimp only
  generalize 2 ^ (w + 1) = m at hhigh hlow ⊢
  calc
    2 * ((rcr hi c).1.toNat * m + (rcr lo (rcr hi c).2).1.toNat) +
        (rcr lo (rcr hi c).2).2.toNat =
      2 * (rcr hi c).1.toNat * m + (2 * (rcr lo (rcr hi c).2).1.toNat +
        (rcr lo (rcr hi c).2).2.toNat) := by ring
    _ = (2 * (rcr hi c).1.toNat + (rcr hi c).2.toNat) * m + lo.toNat := by
      rw [hlow]
      ring
    _ = hi.toNat * m + lo.toNat + m * m * c.toNat := by
      rw [hhigh]
      ring

end Carries

end Library
end Rmmtos
