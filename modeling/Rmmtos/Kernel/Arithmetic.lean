import Rmmtos.Library.Digits
import Rmmtos.Kernel.Uint64

/-!
# The laws of the 64-bit arithmetic

{lit}`add64` loses a carry that comes in where the second number has a word of all
ones, and {lit}`sub64` takes the borrow from a comparison that is wrong at words
that are zero.  The shifts are right for every count.
-/

namespace Rmmtos
namespace Kernel

open Library

def Uint64.word (a : Uint64) : Nat -> Word
  | 0 => a.i0
  | 1 => a.i1
  | 2 => a.i2
  | _ => a.i3

def Uint64.digit (a : Uint64) (i : Nat) : Nat := (a.word i).toNat

/-- No carry comes in where the second number has a word of all ones.  The carry out
of the highest word is lost anyway. -/
def KeepsCarries (a b : Uint64) : Prop :=
  forall i, i < 3 -> b.word i = 0xffff ->
    a.toNat % 65536 ^ i + b.toNat % 65536 ^ i < 65536 ^ i

/-- A word of the first number is zero exactly where nothing is to be taken from
it. -/
def KeepsBorrows (a b : Uint64) : Prop :=
  forall i, i < 3 ->
    (a.word i = 0 <-> b.word i = 0 ∧ b.toNat % 65536 ^ i ≤ a.toNat % 65536 ^ i)

def AddsRight (a b : Uint64) : Prop :=
  (add64 a b).toNat = (a.toNat + b.toNat) % 2 ^ 64

def SubtractsRight (a b : Uint64) : Prop :=
  (sub64 a b).toNat = (a.toNat + 2 ^ 64 - b.toNat) % 2 ^ 64

def DecrementsRight (a : Uint64) : Prop :=
  (dec64 a).toNat = (a.toNat + 2 ^ 64 - 1) % 2 ^ 64

section Words

variable {a b : Uint64} {x y c : Word} {n : Nat}

theorem Uint64.ext_word_iff : a = b <-> forall i, i < 4 -> a.word i = b.word i := by
  constructor
  · intro h i _
    rw [h]
  · intro h
    rcases a with ⟨a0, a1, a2, a3⟩
    rcases b with ⟨b0, b1, b2, b3⟩
    have h0 : a0 = b0 := h 0 (by decide)
    have h1 : a1 = b1 := h 1 (by decide)
    have h2 : a2 = b2 := h 2 (by decide)
    have h3 : a3 = b3 := h 3 (by decide)
    rw [h0, h1, h2, h3]

theorem Uint64.digit_lt (a : Uint64) (i : Nat) : a.digit i < 65536 := (a.word i).isLt

theorem Uint64.toNat_eq (a : Uint64) : a.toNat = digitsValue 65536 a.digit 4 := rfl

theorem Uint64.toNat_mod (a : Uint64) (hn : n ≤ 4) :
    a.toNat % 65536 ^ n = digitsValue 65536 a.digit n := by
  rw [Uint64.toNat_eq]
  exact digitsValue_mod (by decide) (fun i _ => a.digit_lt i) hn

theorem eq_allOnes_iff (y : Word) : y = 0xffff <-> y.toNat = 65535 := by
  constructor
  · intro h
    rw [h]
    rfl
  · intro h
    exact BitVec.eq_of_toNat_eq h

theorem eq_zero_iff (y : Word) : y = 0 <-> y.toNat = 0 := by
  constructor
  · intro h
    rw [h]
    rfl
  · intro h
    exact BitVec.eq_of_toNat_eq h

/-- The carry is lost when the word with the carry in it becomes zero. -/
theorem carryOf_right_iff (hc : c.toNat ≤ 1) :
    (carryOf (x + (y + c)) (y + c)).toNat = (x.toNat + y.toNat + c.toNat) / 65536 <->
      (y = 0xffff -> c.toNat = 0) := by
  have hx := x.isLt
  have hy := y.isLt
  have hsum := toNat_add_carry x (y + c)
  have hword : (y + c).toNat = (y.toNat + c.toNat) % 65536 := BitVec.toNat_add ..
  have hlt := (x + (y + c)).isLt
  rw [eq_allOnes_iff]
  omega

/-!
# Additions
-/

def addCarry (a b : Uint64) : Nat -> Word
  | 0 => 0
  | i + 1 => carryOf (a.word i + (b.word i + addCarry a b i)) (b.word i + addCarry a b i)

theorem addCarry_le (a b : Uint64) (i : Nat) : (addCarry a b i).toNat ≤ 1 := by
  cases i with
  | zero => exact Nat.zero_le 1
  | succ i => exact carryOf_le _ _

theorem add64_word (a b : Uint64) (hn : n < 4) :
    (add64 a b).word n = a.word n + (b.word n + addCarry a b n) := by
  have hzero : b.i0 + 0 = b.i0 := BitVec.add_zero _
  have hfirst : addCarry a b 1 = carryOf (a.i0 + b.i0) b.i0 := by
    change carryOf (a.i0 + (b.i0 + 0)) (b.i0 + 0) = _
    rw [hzero]
  have hsecond : addCarry a b 2 =
      carryOf (a.i1 + (b.i1 + addCarry a b 1)) (b.i1 + addCarry a b 1) := rfl
  have hthird : addCarry a b 3 =
      carryOf (a.i2 + (b.i2 + addCarry a b 2)) (b.i2 + addCarry a b 2) := rfl
  match n, hn with
  | 0, _ =>
      change a.i0 + b.i0 = a.i0 + (b.i0 + 0)
      rw [hzero]
  | 1, _ =>
      rw [hfirst]
      rfl
  | 2, _ =>
      rw [hsecond, hfirst]
      rfl
  | 3, _ =>
      rw [hthird, hsecond, hfirst]
      rfl

theorem add64_digit (a b : Uint64) (hn : n < 4) : (add64 a b).digit n =
    sumDigit 65536 a.digit b.digit (fun i => (addCarry a b i).toNat) n := by
  unfold Uint64.digit sumDigit
  rw [add64_word a b hn, BitVec.toNat_add, BitVec.toNat_add, Nat.add_mod_mod,
    ← Nat.add_assoc]

theorem addCarry_right_iff (a b : Uint64) :
    (forall i, i < 4 -> (addCarry a b i).toNat = sumCarry 65536 a.digit b.digit i) <->
      KeepsCarries a b := by
  have hstep : forall i, i < 3 ->
      (addCarry a b i).toNat = sumCarry 65536 a.digit b.digit i ->
      ((addCarry a b (i + 1)).toNat = sumCarry 65536 a.digit b.digit (i + 1) <->
        (b.word i = 0xffff ->
          a.toNat % 65536 ^ i + b.toNat % 65536 ^ i < 65536 ^ i)) := by
    intro i hi hsame
    have hle := addCarry_le a b i
    have hone : sumCarry 65536 a.digit b.digit i = 1 <->
        65536 ^ i ≤ a.toNat % 65536 ^ i + b.toNat % 65536 ^ i := by
      rw [sumCarry_eq_one_iff (by decide) (fun j _ => a.digit_lt j) fun j _ => b.digit_lt j,
        a.toNat_mod (by omega), b.toNat_mod (by omega)]
    have hright := carryOf_right_iff (x := a.word i) (y := b.word i) hle
    have hnext : sumCarry 65536 a.digit b.digit (i + 1) =
        ((a.word i).toNat + (b.word i).toNat + (addCarry a b i).toNat) / 65536 := by
      rw [hsame]
      rfl
    have hcarry : addCarry a b (i + 1) = carryOf (a.word i + (b.word i + addCarry a b i))
        (b.word i + addCarry a b i) := rfl
    rw [hnext, hcarry, hright]
    refine imp_congr_right fun _ => ?_
    rw [← Nat.not_le, ← hone, ← hsame]
    omega
  exact carries_right_iff (c := fun i => (addCarry a b i).toNat) rfl hstep

theorem addsRight_iff (a b : Uint64) : AddsRight a b <-> KeepsCarries a b := by
  have hdigits : forall i, i < 4 -> (add64 a b).digit i =
      sumDigit 65536 a.digit b.digit (fun i => (addCarry a b i).toNat) i :=
    fun i hi => add64_digit a b hi
  have hsum := sum_right_iff (n := 4) (by decide) (fun i _ => a.digit_lt i)
    (fun i _ => b.digit_lt i) fun i _ => addCarry_le a b i
  rw [← addCarry_right_iff, ← hsum]
  unfold AddsRight
  rw [Uint64.toNat_eq, digitsValue_congr hdigits]
  rfl

theorem AddsRight.comm (h : AddsRight a b) (h' : AddsRight b a) :
    add64 a b = add64 b a := by
  apply Uint64.eq_of_toNat_eq
  rw [h, h', Nat.add_comm]

theorem AddsRight.assoc {d : Uint64} (hab : AddsRight a b) (habd : AddsRight (add64 a b) d)
    (hbd : AddsRight b d) (habd' : AddsRight a (add64 b d)) :
    add64 (add64 a b) d = add64 a (add64 b d) := by
  apply Uint64.eq_of_toNat_eq
  rw [habd, habd', hab, hbd, Nat.mod_add_mod, Nat.add_mod_mod, Nat.add_assoc]

/-!
# Subtractions
-/

def negated (y c : Word) : Word := ~~~y + 1 - c

theorem negated_toNat (y c : Word) :
    (negated y c).toNat = (65536 - y.toNat + (65536 - c.toNat)) % 65536 := by
  have hy := y.isLt
  have hc := c.isLt
  unfold negated
  rw [BitVec.toNat_sub, BitVec.toNat_add, BitVec.toNat_not]
  change (65536 - c.toNat + (65536 - 1 - y.toNat + 1) % 65536) % 65536 = _
  omega

/-- The borrow is right when the word is zero exactly where nothing is taken from
it. -/
theorem borrowOf_right_iff (hc : c.toNat ≤ 1) :
    (borrowOf (x + negated y c) (negated y c)).toNat =
        (if x.toNat < y.toNat + c.toNat then 1 else 0) <->
      (x = 0 <-> y.toNat + c.toNat = 0) := by
  have hx := x.isLt
  have hy := y.isLt
  have ht := negated_toNat y c
  have hsum : (x + negated y c).toNat = (x.toNat + (negated y c).toNat) % 65536 :=
    BitVec.toNat_add ..
  rw [eq_zero_iff]
  unfold borrowOf
  simp only [BitVec.lt_def]
  split
  · next hlt =>
      change 1 = _ <-> _
      split <;> omega
  · next hge =>
      change 0 = _ <-> _
      split <;> omega

def subBorrow (a b : Uint64) : Nat -> Word
  | 0 => 0
  | i + 1 => borrowOf (a.word i + negated (b.word i) (subBorrow a b i))
      (negated (b.word i) (subBorrow a b i))

theorem borrowOf_le (x t : Word) : (borrowOf x t).toNat ≤ 1 := by
  unfold borrowOf
  split
  · exact Nat.le_refl 1
  · exact Nat.zero_le 1

theorem subBorrow_le (a b : Uint64) (i : Nat) : (subBorrow a b i).toNat ≤ 1 := by
  cases i with
  | zero => exact Nat.zero_le 1
  | succ i => exact borrowOf_le _ _

theorem sub64_word (a b : Uint64) (hn : n < 4) :
    (sub64 a b).word n = a.word n + negated (b.word n) (subBorrow a b n) := by
  have hzero : negated b.i0 0 = ~~~b.i0 + 1 := BitVec.sub_zero _
  have hfirst : subBorrow a b 1 = borrowOf (a.i0 + (~~~b.i0 + 1)) (~~~b.i0 + 1) := by
    change borrowOf (a.i0 + negated b.i0 0) (negated b.i0 0) = _
    rw [hzero]
  have hsecond : subBorrow a b 2 = borrowOf (a.i1 + negated b.i1 (subBorrow a b 1))
      (negated b.i1 (subBorrow a b 1)) := rfl
  have hthird : subBorrow a b 3 = borrowOf (a.i2 + negated b.i2 (subBorrow a b 2))
      (negated b.i2 (subBorrow a b 2)) := rfl
  match n, hn with
  | 0, _ =>
      change a.i0 + (~~~b.i0 + 1) = a.i0 + negated b.i0 0
      rw [hzero]
  | 1, _ =>
      rw [hfirst]
      rfl
  | 2, _ =>
      rw [hsecond, hfirst]
      rfl
  | 3, _ =>
      rw [hthird, hsecond, hfirst]
      rfl

theorem sub64_digit (a b : Uint64) (hn : n < 4) : (sub64 a b).digit n =
    diffDigit 65536 a.digit b.digit (fun i => (subBorrow a b i).toNat) n := by
  have hle := subBorrow_le a b n
  have hb := b.digit_lt n
  unfold Uint64.digit at hb ⊢
  unfold diffDigit
  rw [sub64_word a b hn, BitVec.toNat_add, negated_toNat]
  dsimp only
  omega

theorem subBorrow_right_iff (a b : Uint64) :
    (forall i, i < 4 -> (subBorrow a b i).toNat = diffBorrow a.digit b.digit i) <->
      KeepsBorrows a b := by
  have hstep : forall i, i < 3 -> (subBorrow a b i).toNat = diffBorrow a.digit b.digit i ->
      ((subBorrow a b (i + 1)).toNat = diffBorrow a.digit b.digit (i + 1) <->
        (a.word i = 0 <->
          b.word i = 0 ∧ b.toNat % 65536 ^ i ≤ a.toNat % 65536 ^ i)) := by
    intro i hi hsame
    have hle := subBorrow_le a b i
    have hone : diffBorrow a.digit b.digit i = 1 <->
        a.toNat % 65536 ^ i < b.toNat % 65536 ^ i := by
      rw [diffBorrow_eq_one_iff (show 1 < 65536 by decide) (fun j _ => a.digit_lt j)
          fun j _ => b.digit_lt j, a.toNat_mod (by omega), b.toNat_mod (by omega)]
    have hright := borrowOf_right_iff (x := a.word i) (y := b.word i) hle
    have hnext : diffBorrow a.digit b.digit (i + 1) =
        if (a.word i).toNat < (b.word i).toNat + (subBorrow a b i).toNat then 1 else 0 := by
      rw [hsame]
      rfl
    have hborrow : subBorrow a b (i + 1) =
        borrowOf (a.word i + negated (b.word i) (subBorrow a b i))
          (negated (b.word i) (subBorrow a b i)) := rfl
    rw [hnext, hborrow, hright]
    refine iff_congr Iff.rfl ?_
    rw [← Nat.not_lt, ← hone, ← hsame, eq_zero_iff (b.word i)]
    omega
  exact carries_right_iff (c := fun i => (subBorrow a b i).toNat) rfl hstep

theorem subtractsRight_iff (a b : Uint64) : SubtractsRight a b <-> KeepsBorrows a b := by
  have hdigits : forall i, i < 4 -> (sub64 a b).digit i =
      diffDigit 65536 a.digit b.digit (fun i => (subBorrow a b i).toNat) i :=
    fun i hi => sub64_digit a b hi
  have hdiff := diff_right_iff (n := 4) (by decide) (fun i _ => a.digit_lt i)
    (fun i _ => b.digit_lt i) fun i _ => subBorrow_le a b i
  rw [← subBorrow_right_iff, ← hdiff]
  unfold SubtractsRight
  rw [Uint64.toNat_eq, digitsValue_congr hdigits]
  rfl

theorem dec64_eq (a : Uint64) : dec64 a = sub64 a (init64 0 0 0 1) := by
  have hzero : ~~~(0 : Word) + 1 = 0 := by
    decide
  have hone : ~~~(1 : Word) + 1 = 0xffff := by
    decide
  unfold dec64 sub64 init64
  dsimp only
  rw [hzero, hone]

theorem decrementsRight_iff (a : Uint64) :
    DecrementsRight a <-> a.i0 ≠ 0 ∧ a.i1 = 0 ∧ a.i2 = 0 := by
  have hsub : DecrementsRight a <-> SubtractsRight a (init64 0 0 0 1) := by
    unfold DecrementsRight SubtractsRight
    rw [dec64_eq]
    rfl
  rw [hsub, subtractsRight_iff]
  have hlow : 1 % 65536 ^ 1 ≤ a.toNat % 65536 ^ 1 <-> a.i0 ≠ 0 := by
    have h0 := a.i0.isLt
    rw [ne_eq, eq_zero_iff]
    unfold Uint64.toNat
    omega
  have hboth : 1 % 65536 ^ 2 ≤ a.toNat % 65536 ^ 2 <-> a.i0 ≠ 0 ∨ a.i1 ≠ 0 := by
    have h0 := a.i0.isLt
    have h1 := a.i1.isLt
    rw [ne_eq, ne_eq, eq_zero_iff, eq_zero_iff]
    unfold Uint64.toNat
    omega
  constructor
  · intro hkeeps
    have h0 : a.i0 = 0 <-> (1 : Word) = 0 ∧ _ := hkeeps 0 (by decide)
    have h1 : a.i1 = 0 <-> (0 : Word) = 0 ∧ 1 % 65536 ^ 1 ≤ a.toNat % 65536 ^ 1 :=
      hkeeps 1 (by decide)
    have h2 : a.i2 = 0 <-> (0 : Word) = 0 ∧ 1 % 65536 ^ 2 ≤ a.toNat % 65536 ^ 2 :=
      hkeeps 2 (by decide)
    have hne : a.i0 ≠ 0 := fun h => absurd (h0.mp h).1 (by decide)
    exact ⟨hne, h1.mpr ⟨rfl, hlow.mpr hne⟩, h2.mpr ⟨rfl, hboth.mpr (Or.inl hne)⟩⟩
  · intro h
    rcases h with ⟨hne, h1, h2⟩
    intro i hi
    match i, hi with
    | 0, _ => exact iff_of_false hne fun h => absurd h.1 (by decide)
    | 1, _ => exact iff_of_true h1 ⟨rfl, hlow.mpr hne⟩
    | 2, _ => exact iff_of_true h2 ⟨rfl, hboth.mpr (Or.inl hne)⟩

theorem dec64_inc64_iff (a : Uint64) :
    dec64 (inc64 a) = a <-> a.i0 ≠ 0xffff ∧ a.i1 = 0 ∧ a.i2 = 0 := by
  have hlt := a.toNat_lt
  have hvalue : ((inc64 a).toNat + 2 ^ 64 - 1) % 2 ^ 64 = a.toNat := by
    rw [inc64_toNat]
    omega
  have hright : dec64 (inc64 a) = a <-> DecrementsRight (inc64 a) := by
    unfold DecrementsRight
    rw [hvalue]
    exact ⟨congrArg Uint64.toNat, Uint64.eq_of_toNat_eq⟩
  rw [hright, decrementsRight_iff]
  have hlow : (inc64 a).i0 ≠ 0 <-> a.i0 ≠ 0xffff := by
    change a.i0 + 1 ≠ 0 <-> _
    constructor <;> bv_omega
  rw [hlow]
  refine and_congr_right fun hne => ?_
  have hcarry : carryOf (a.i0 + 1) 1 = 0 := by
    unfold carryOf
    exact if_neg (by bv_omega)
  have h1 : (inc64 a).i1 = a.i1 := by
    change a.i1 + carryOf (a.i0 + 1) 1 = a.i1
    rw [hcarry]
    exact BitVec.add_zero _
  have h2 : (inc64 a).i2 = a.i2 := by
    change a.i2 + carryOf (a.i1 + carryOf (a.i0 + 1) 1) (carryOf (a.i0 + 1) 1) = a.i2
    rw [hcarry]
    have hnone : carryOf (a.i1 + 0) 0 = 0 := if_neg (Nat.not_lt_zero _)
    rw [hnone]
    exact BitVec.add_zero _
  rw [h1, h2]

theorem sub64_sum_iff (a b : Uint64) :
    sub64 (Uint64.ofNat (a.toNat + b.toNat)) b = a <->
      KeepsBorrows (Uint64.ofNat (a.toNat + b.toNat)) b := by
  have hlt := a.toNat_lt
  have hblt := b.toNat_lt
  have hvalue : ((Uint64.ofNat (a.toNat + b.toNat)).toNat + 2 ^ 64 - b.toNat) % 2 ^ 64 =
      a.toNat := by
    rw [Uint64.toNat_ofNat]
    omega
  rw [← subtractsRight_iff]
  unfold SubtractsRight
  rw [hvalue]
  exact ⟨congrArg Uint64.toNat, Uint64.eq_of_toNat_eq⟩

end Words

/-- {lit}`add64` adds exactly the numbers between which no carry is lost, and on these
it is commutative and associative. -/
theorem add64_right_iff (a b : Uint64) :
    (AddsRight a b <-> KeepsCarries a b) ∧
      (KeepsCarries a b ∧ KeepsCarries b a -> add64 a b = add64 b a) ∧
      forall d, KeepsCarries a b ∧ KeepsCarries (add64 a b) d ∧ KeepsCarries b d ∧
          KeepsCarries a (add64 b d) ->
        add64 (add64 a b) d = add64 a (add64 b d) := by
  refine ⟨addsRight_iff a b, ?_, ?_⟩
  · intro h
    rcases h with ⟨hab, hba⟩
    exact ((addsRight_iff a b).mpr hab).comm ((addsRight_iff b a).mpr hba)
  · intro d h
    rcases h with ⟨hab, habd, hbd, habd'⟩
    exact ((addsRight_iff _ _).mpr hab).assoc ((addsRight_iff _ _).mpr habd)
      ((addsRight_iff _ _).mpr hbd) ((addsRight_iff _ _).mpr habd')

/-- The carry into a word of all ones is lost. -/
theorem add64_loses_carry : ¬ forall a b, AddsRight a b := by
  intro hall
  have hright : (add64 (init64 0 0 0 1) (init64 0 0 0xffff 0xffff)).toNat = _ :=
    hall (init64 0 0 0 1) (init64 0 0 0xffff 0xffff)
  exact absurd hright (by decide)

/-- {lit}`sub64` is right exactly where every borrow is, and {lit}`dec64` where nothing
is borrowed from the upper words and two of them are zero. -/
theorem sub64_right_iff (a b : Uint64) :
    (SubtractsRight a b <-> KeepsBorrows a b) ∧
      (sub64 (Uint64.ofNat (a.toNat + b.toNat)) b = a <->
        KeepsBorrows (Uint64.ofNat (a.toNat + b.toNat)) b) ∧
      (DecrementsRight a <-> a.i0 ≠ 0 ∧ a.i1 = 0 ∧ a.i2 = 0) ∧
      (dec64 (inc64 a) = a <-> a.i0 ≠ 0xffff ∧ a.i1 = 0 ∧ a.i2 = 0) :=
  ⟨subtractsRight_iff a b, sub64_sum_iff a b, decrementsRight_iff a, dec64_inc64_iff a⟩

/-- A borrow from a word that is zero is not found, and one from another word is made
up: {lit}`0x10000` less one comes to {lit}`0xffff0001ffff`. -/
theorem sub64_wrong_borrow :
    ¬ forall a b, SubtractsRight a b ∧ DecrementsRight a ∧ dec64 (inc64 a) = a := by
  intro hall
  have hright : (sub64 (init64 0 0 1 0) (init64 0 0 0 1)).toNat = _ :=
    (hall (init64 0 0 1 0) (init64 0 0 0 1)).1
  exact absurd hright (by decide)

theorem sign_of_order {x y : Nat} {r : Int}
    (h : x < y ∧ r = -1 ∨ x = y ∧ r = 0 ∨ y < x ∧ r = 1) : r = Int.sign (x - y) := by
  rcases h with ⟨h, hr⟩ | ⟨h, hr⟩ | ⟨h, hr⟩
  · rw [hr, Int.sign_eq_neg_one_of_neg (by omega)]
  · rw [hr, h, Int.sub_self, Int.sign_zero]
  · rw [hr, Int.sign_eq_one_of_pos (by omega)]

/-- The arithmetic of file positions: sums with a word and increments are right modulo
the size, and both comparisons give the sign of the difference. -/
theorem positions_exact (a d : Uint64) (b : Word) :
    (add64_16 a b).toNat = (a.toNat + b.toNat) % 2 ^ 64 ∧
      (inc64 a).toNat = (a.toNat + 1) % 2 ^ 64 ∧
      cmp64 a d = Int.sign (a.toNat - d.toNat) ∧
      cmp64_16 a b = Int.sign (a.toNat - b.toNat) :=
  ⟨add64_16_toNat a b, inc64_toNat a, sign_of_order (cmp64_eq a d),
    sign_of_order (cmp64_16_eq a b)⟩

/-- The shifts divide and multiply by powers of two, and what a shift to the right
takes off is what is missing after a shift back. -/
theorem shifts_exact (v : Uint64) (n : Word) :
    (n.toNat ≤ 16 -> exists shifted p, shr64 v n = .ok (shifted, p) ∧
      p.toNat = v.toNat / 2 ^ n.toNat ∧ shifted.toNat = v.toNat % 2 ^ n.toNat ∧
      add64_16 (shl64 p n) shifted = v) ∧
    (shl64 v n).toNat = v.toNat * 2 ^ n.toNat % 2 ^ 64 := by
  refine ⟨?_, shl64_toNat v n⟩
  intro hn
  rcases shr64_eq v hn with ⟨shifted, p, hrun, hquotient, hrest⟩
  refine ⟨shifted, p, hrun, hquotient, hrest, ?_⟩
  apply Uint64.eq_of_toNat_eq
  have hsplit := Nat.div_add_mod' v.toNat (2 ^ n.toNat)
  rw [add64_16_toNat, shl64_toNat, hquotient, hrest, Nat.mod_add_mod, hsplit]
  exact Nat.mod_eq_of_lt v.toNat_lt

end Kernel
end Rmmtos
