import Mathlib.Data.Nat.Digits.Lemmas
import Mathlib.Tactic.Ring

/-!
# Numbers in a base

Sums and differences of two rows of digits, made digit by digit with the carries
that some program has found.  The result is right exactly when each of these
carries is.
-/

namespace Rmmtos
namespace Library

section Digits

variable {base : Nat} {d d' a b : Nat -> Nat} {n : Nat}

def digitsValue (base : Nat) (d : Nat -> Nat) (n : Nat) : Nat :=
  Nat.ofDigits base ((List.range n).map d)

theorem digitsValue_succ (base : Nat) (d : Nat -> Nat) (n : Nat) :
    digitsValue base d (n + 1) = digitsValue base d n + base ^ n * d n := by
  unfold digitsValue
  rw [List.range_succ, List.map_append, Nat.ofDigits_append, List.length_map,
    List.length_range, List.map_singleton, Nat.ofDigits_singleton]

theorem digitsValue_congr (h : forall i, i < n -> d i = d' i) :
    digitsValue base d n = digitsValue base d' n := by
  unfold digitsValue
  rw [List.map_inj_left.mpr fun i hi => h i (List.mem_range.mp hi)]

theorem digitsValue_lt (hbase : 1 < base) (hd : forall i, i < n -> d i < base) :
    digitsValue base d n < base ^ n := by
  have hlt : digitsValue base d n < base ^ ((List.range n).map d).length := by
    refine Nat.ofDigits_lt_base_pow_length hbase ?_
    intro x hx
    rcases List.mem_map.mp hx with ⟨i, hi, rfl⟩
    exact hd i (List.mem_range.mp hi)
  rw [List.length_map, List.length_range] at hlt
  exact hlt

theorem digitsValue_inj (hbase : 1 < base) (hd : forall i, i < n -> d i < base)
    (hd' : forall i, i < n -> d' i < base) :
    digitsValue base d n = digitsValue base d' n <-> forall i, i < n -> d i = d' i := by
  constructor
  · intro heq
    have hlists := Nat.ofDigits_inj_of_len_eq hbase
      (by rw [List.length_map, List.length_map]) ?_ ?_ heq
    · intro i hi
      exact List.map_inj_left.mp hlists i (List.mem_range.mpr hi)
    · intro x hx
      rcases List.mem_map.mp hx with ⟨i, hi, rfl⟩
      exact hd i (List.mem_range.mp hi)
    · intro x hx
      rcases List.mem_map.mp hx with ⟨i, hi, rfl⟩
      exact hd' i (List.mem_range.mp hi)
  · intro hall
    exact digitsValue_congr hall

theorem digitsValue_mod {m : Nat} (hbase : 1 < base) (hd : forall i, i < m -> d i < base)
    (hn : n ≤ m) : digitsValue base d m % base ^ n = digitsValue base d n := by
  induction m, hn using Nat.le_induction with
  | base => exact Nat.mod_eq_of_lt (digitsValue_lt hbase hd)
  | succ m hn ih =>
      have hpow : base ^ m * d m = base ^ n * (base ^ (m - n) * d m) := by
        rw [← Nat.mul_assoc, ← Nat.pow_add, Nat.add_sub_cancel' hn]
      rw [digitsValue_succ, hpow, Nat.add_mul_mod_self_left]
      exact ih fun i hi => hd i (Nat.lt_succ_of_lt hi)

/-!
# Sums
-/

def sumCarry (base : Nat) (a b : Nat -> Nat) : Nat -> Nat
  | 0 => 0
  | i + 1 => (a i + b i + sumCarry base a b i) / base

def sumDigit (base : Nat) (a b c : Nat -> Nat) (i : Nat) : Nat :=
  (a i + b i + c i) % base

theorem sumCarry_le (ha : forall i, i < n -> a i < base)
    (hb : forall i, i < n -> b i < base) : sumCarry base a b n ≤ 1 := by
  induction n with
  | zero => exact Nat.zero_le 1
  | succ n ih =>
      have hcarry := ih (fun i hi => ha i (Nat.lt_succ_of_lt hi))
        fun i hi => hb i (Nat.lt_succ_of_lt hi)
      have han := ha n (Nat.lt_succ_self n)
      have hbn := hb n (Nat.lt_succ_self n)
      unfold sumCarry
      rw [Nat.div_le_iff_le_mul_add_pred (Nat.zero_lt_of_lt han)]
      omega

/-- With its own carries the sum is right, and the last carry is what is left over. -/
theorem digitsValue_sum (base : Nat) (a b : Nat -> Nat) (n : Nat) :
    digitsValue base (sumDigit base a b (sumCarry base a b)) n +
        base ^ n * sumCarry base a b n =
      digitsValue base a n + digitsValue base b n := by
  induction n with
  | zero => rfl
  | succ n ih =>
      have hsplit : sumDigit base a b (sumCarry base a b) n +
          base * sumCarry base a b (n + 1) = a n + b n + sumCarry base a b n :=
        Nat.mod_add_div _ _
      rw [digitsValue_succ, digitsValue_succ, digitsValue_succ]
      calc
        _ = digitsValue base (sumDigit base a b (sumCarry base a b)) n + base ^ n *
            (sumDigit base a b (sumCarry base a b) n + base * sumCarry base a b (n + 1)) := by
          ring
        _ = digitsValue base (sumDigit base a b (sumCarry base a b)) n +
            base ^ n * sumCarry base a b n + base ^ n * (a n + b n) := by
          rw [hsplit]
          ring
        _ = _ := by
          rw [ih]
          ring

theorem sumCarry_eq_one_iff (hbase : 1 < base) (ha : forall i, i < n -> a i < base)
    (hb : forall i, i < n -> b i < base) :
    sumCarry base a b n = 1 <->
      base ^ n ≤ digitsValue base a n + digitsValue base b n := by
  have hsum := digitsValue_sum base a b n
  have hlt : digitsValue base (sumDigit base a b (sumCarry base a b)) n < base ^ n :=
    digitsValue_lt hbase fun i _ => Nat.mod_lt _ (Nat.zero_lt_of_lt hbase)
  have hle := sumCarry_le ha hb
  rcases Nat.le_one_iff_eq_zero_or_eq_one.mp hle with hcarry | hcarry
  · rw [hcarry, Nat.mul_zero] at hsum
    rw [hcarry]
    exact iff_of_false nofun (by omega)
  · rw [hcarry, Nat.mul_one] at hsum
    rw [hcarry]
    exact iff_of_true rfl (by omega)

/-- The sum is right exactly when all carries are. -/
theorem sum_right_iff {c : Nat -> Nat} (hbase : 1 < base)
    (ha : forall i, i < n -> a i < base) (hb : forall i, i < n -> b i < base)
    (hc : forall i, i < n -> c i ≤ 1) :
    digitsValue base (sumDigit base a b c) n =
        (digitsValue base a n + digitsValue base b n) % base ^ n <->
      forall i, i < n -> c i = sumCarry base a b i := by
  have hpos : 0 < base := Nat.zero_lt_of_lt hbase
  have hdigit : forall c i, i < n -> sumDigit base a b c i < base :=
    fun _ _ _ => Nat.mod_lt _ hpos
  rw [← digitsValue_sum, Nat.add_mul_mod_self_left,
    Nat.mod_eq_of_lt (digitsValue_lt hbase (hdigit _)), digitsValue_inj hbase (hdigit _) (hdigit _)]
  refine forall_congr' fun i => imp_congr_right fun hi => ?_
  have hle := hc i hi
  have hle' := sumCarry_le (fun j hj => ha j (Nat.lt_trans hj hi))
    fun j hj => hb j (Nat.lt_trans hj hi)
  unfold sumDigit
  constructor
  · intro heq
    have hmod : c i % base = sumCarry base a b i % base := Nat.ModEq.add_left_cancel' _ heq
    rw [Nat.mod_eq_of_lt (Nat.lt_of_le_of_lt hle hbase),
      Nat.mod_eq_of_lt (Nat.lt_of_le_of_lt hle' hbase)] at hmod
    exact hmod
  · intro heq
    rw [heq]

/-!
# Differences
-/

def diffBorrow (a b : Nat -> Nat) : Nat -> Nat
  | 0 => 0
  | i + 1 => if a i < b i + diffBorrow a b i then 1 else 0

def diffDigit (base : Nat) (a b c : Nat -> Nat) (i : Nat) : Nat :=
  (a i + base - (b i + c i)) % base

theorem diffBorrow_le (a b : Nat -> Nat) (n : Nat) : diffBorrow a b n ≤ 1 := by
  cases n with
  | zero => exact Nat.zero_le 1
  | succ n =>
      unfold diffBorrow
      split
      · exact Nat.le_refl 1
      · exact Nat.zero_le 1

/-- With its own borrows the difference is right, and the last borrow is what is
missing. -/
theorem digitsValue_diff (ha : forall i, i < n -> a i < base)
    (hb : forall i, i < n -> b i < base) :
    digitsValue base (diffDigit base a b (diffBorrow a b)) n + digitsValue base b n =
      digitsValue base a n + base ^ n * diffBorrow a b n := by
  induction n with
  | zero => rfl
  | succ n ih =>
      have hih := ih (fun i hi => ha i (Nat.lt_succ_of_lt hi))
        fun i hi => hb i (Nat.lt_succ_of_lt hi)
      have han := ha n (Nat.lt_succ_self n)
      have hbn := hb n (Nat.lt_succ_self n)
      have hle := diffBorrow_le a b n
      have hsplit : diffDigit base a b (diffBorrow a b) n + b n + diffBorrow a b n =
          a n + base * diffBorrow a b (n + 1) := by
        rw [diffBorrow]
        unfold diffDigit
        split
        · rw [Nat.mod_eq_of_lt (by omega)]
          omega
        · have hover : a n + base - (b n + diffBorrow a b n) =
              a n - (b n + diffBorrow a b n) + base := by
            omega
          rw [hover, Nat.add_mod_right, Nat.mod_eq_of_lt (by omega)]
          omega
      rw [digitsValue_succ, digitsValue_succ, digitsValue_succ]
      calc
        _ = digitsValue base (diffDigit base a b (diffBorrow a b)) n + digitsValue base b n +
            base ^ n * (diffDigit base a b (diffBorrow a b) n + b n) := by
          ring
        _ = digitsValue base a n + base ^ n *
            (diffDigit base a b (diffBorrow a b) n + b n + diffBorrow a b n) := by
          rw [hih]
          ring
        _ = _ := by
          rw [hsplit]
          ring

theorem diffBorrow_eq_one_iff (hbase : 1 < base) (ha : forall i, i < n -> a i < base)
    (hb : forall i, i < n -> b i < base) :
    diffBorrow a b n = 1 <-> digitsValue base a n < digitsValue base b n := by
  have hdiff := digitsValue_diff ha hb
  have hlt : digitsValue base (diffDigit base a b (diffBorrow a b)) n < base ^ n :=
    digitsValue_lt hbase fun i _ => Nat.mod_lt _ (Nat.zero_lt_of_lt hbase)
  have hblt := digitsValue_lt hbase hb
  rcases Nat.le_one_iff_eq_zero_or_eq_one.mp (diffBorrow_le a b n) with hborrow | hborrow
  · rw [hborrow, Nat.mul_zero] at hdiff
    rw [hborrow]
    exact iff_of_false nofun (by omega)
  · rw [hborrow, Nat.mul_one] at hdiff
    rw [hborrow]
    exact iff_of_true rfl (by omega)

/-- The difference is right exactly when all borrows are. -/
theorem diff_right_iff {c : Nat -> Nat} (hbase : 1 < base)
    (ha : forall i, i < n -> a i < base) (hb : forall i, i < n -> b i < base)
    (hc : forall i, i < n -> c i ≤ 1) :
    digitsValue base (diffDigit base a b c) n =
        (digitsValue base a n + base ^ n - digitsValue base b n) % base ^ n <->
      forall i, i < n -> c i = diffBorrow a b i := by
  have hpos : 0 < base := Nat.zero_lt_of_lt hbase
  have hdigit : forall c i, i < n -> diffDigit base a b c i < base :=
    fun _ _ _ => Nat.mod_lt _ hpos
  have hvalue : digitsValue base a n + base ^ n - digitsValue base b n =
      digitsValue base (diffDigit base a b (diffBorrow a b)) n +
        base ^ n * (1 - diffBorrow a b n) := by
    have hdiff := digitsValue_diff ha hb
    have hblt := digitsValue_lt hbase hb
    rcases Nat.le_one_iff_eq_zero_or_eq_one.mp (diffBorrow_le a b n) with h | h
    · rw [h, Nat.mul_zero] at hdiff
      rw [h, Nat.sub_zero, Nat.mul_one]
      omega
    · rw [h, Nat.mul_one] at hdiff
      rw [h, Nat.sub_self, Nat.mul_zero]
      omega
  rw [hvalue, Nat.add_mul_mod_self_left, Nat.mod_eq_of_lt (digitsValue_lt hbase (hdigit _)),
    digitsValue_inj hbase (hdigit _) (hdigit _)]
  refine forall_congr' fun i => imp_congr_right fun hi => ?_
  have hle := hc i hi
  have hle' := diffBorrow_le a b i
  have hai := ha i hi
  have hbi := hb i hi
  unfold diffDigit
  constructor
  · intro heq
    -- The two digits are as far apart as the borrows are, which is less than the base.
    rcases Nat.lt_trichotomy (c i) (diffBorrow a b i) with hlt | hsame | hgt
    · have hone : a i + base - (b i + c i) = a i + base - (b i + diffBorrow a b i) + 1 := by
        omega
      rw [hone] at heq
      have hmod : 1 % base = 0 % base := Nat.ModEq.add_left_cancel' _ heq
      rw [Nat.mod_eq_of_lt hbase, Nat.zero_mod] at hmod
      cases hmod
    · exact hsame
    · have hone : a i + base - (b i + diffBorrow a b i) = a i + base - (b i + c i) + 1 := by
        omega
      rw [hone] at heq
      have hmod : 0 % base = 1 % base := Nat.ModEq.add_left_cancel' _ heq
      rw [Nat.mod_eq_of_lt hbase, Nat.zero_mod] at hmod
      cases hmod
  · intro heq
    rw [heq]

end Digits

/-!
# Numerals
-/

def numeral (base n : Nat) : List Nat :=
  if n = 0 then [0] else (Nat.digits base n).reverse

section Numerals

variable {base n d : Nat}

theorem numeral_small (h : n < base) : numeral base n = [n] := by
  unfold numeral
  split
  · next hzero => rw [hzero]
  · next hne => rw [Nat.digits_of_lt base n hne h, List.reverse_singleton]

/-- The last digit is what a division by the base leaves. -/
theorem numeral_snoc (hbase : 1 < base) (h : base ≤ n) :
    numeral base n = numeral base (n / base) ++ [n % base] := by
  have hpos : 0 < n := Nat.lt_of_lt_of_le (Nat.zero_lt_of_lt hbase) h
  have hdiv : n / base ≠ 0 := Nat.ne_of_gt (Nat.div_pos h (Nat.zero_lt_of_lt hbase))
  unfold numeral
  rw [if_neg (Nat.ne_of_gt hpos), if_neg hdiv, Nat.digits_def' hbase hpos, List.reverse_cons]

theorem numeral_lt (hbase : 1 < base) (h : d ∈ numeral base n) : d < base := by
  unfold numeral at h
  split at h
  · rw [List.mem_singleton.mp h]
    exact Nat.zero_lt_of_lt hbase
  · exact Nat.digits_lt_base hbase (List.mem_reverse.mp h)

/-- The digits in front of which zeros may stand have the value of the number. -/
theorem ofDigits_numeral (base n k : Nat) :
    Nat.ofDigits base (List.replicate k 0 ++ numeral base n).reverse = n := by
  rw [List.reverse_append, List.reverse_replicate, Nat.ofDigits_append_replicate_zero]
  unfold numeral
  split
  · next hzero =>
      rw [List.reverse_singleton, Nat.ofDigits_singleton, hzero]
  · rw [List.reverse_reverse, Nat.ofDigits_digits]

theorem numeral_head_ne (hn : n ≠ 0) : (numeral base n).head? ≠ some 0 := by
  unfold numeral
  rw [if_neg hn, List.head?_reverse]
  intro hlast
  rcases List.getLast?_eq_some_iff.mp hlast with ⟨ds, hds⟩
  have hne := Nat.getLast_digit_ne_zero base hn
  simp only [hds, List.getLast_append_singleton] at hne
  exact hne rfl

end Numerals

/-- What is found one step after the other is right all along when each step is. -/
theorem carries_right_iff {α : Type _} {c c' : Nat -> α} {P : Nat -> Prop} {n : Nat}
    (hzero : c 0 = c' 0)
    (hstep : forall i, i < n -> c i = c' i -> (c (i + 1) = c' (i + 1) <-> P i)) :
    (forall i, i < n + 1 -> c i = c' i) <-> forall i, i < n -> P i := by
  constructor
  · intro hall i hi
    exact (hstep i hi (hall i (Nat.lt_succ_of_lt hi))).mp (hall (i + 1) (Nat.succ_lt_succ hi))
  · intro hall i hi
    induction i with
    | zero => exact hzero
    | succ i ih =>
        have hlt : i < n := Nat.lt_of_succ_lt_succ hi
        exact (hstep i hlt (ih (Nat.lt_of_succ_lt hi))).mpr (hall i hlt)

end Library
end Rmmtos
