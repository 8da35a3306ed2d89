import Rmmtos.Machine
import Rmmtos.Library.Digits

/-!
# Printing numbers

{lit}`puts`, {lit}`putfill` and {lit}`putuint` of {lit}`printf.c`, a file whose text is
the same in the kernel and in the library of the programs but for the functions that
print a single character.  Such a function is given as what it makes of the state of
its device.
-/

namespace Rmmtos

open Library

def digits : List Byte :=
  [0x30, 0x31, 0x32, 0x33, 0x34, 0x35, 0x36, 0x37,
    0x38, 0x39, 0x61, 0x62, 0x63, 0x64, 0x65, 0x66]

def digitChar (d : Nat) : Byte :=
  digits.getD d 0

/-- The digit that a character stands for.  Any other character counts as a zero. -/
def digitValue (c : Byte) : Nat :=
  if c ∈ digits then digits.idxOf c else 0

section Printing

variable {σ : Type} (putch : σ -> Byte -> σ)

def putfill : Nat -> Byte -> σ -> σ
  | 0, _, s => s
  | totalnums + 1, fillchar, s => putch (putfill totalnums fillchar s) fillchar

/-- The calls of {lit}`putuint` to a depth.  In a base above one each call has a
smaller value than the one before it.  A width is below 128, so that it does not
matter whether a char has a sign. -/
def putuintWithin (base fillchar : Byte) : Nat -> Word -> Byte -> σ -> Result σ
  | 0, _, _, _ => .error .hang
  | depth + 1, value, totalnums, s => do
      let totalnums := if 0 < totalnums then totalnums - 1 else totalnums
      let quotient ← divideWords value (base.setWidth 16)
      let s ←
        if quotient ≠ 0 then putuintWithin base fillchar depth quotient totalnums s
        else .ok (putfill putch totalnums.toNat fillchar s)
      .ok (putch s (digitChar (value % base.setWidth 16).toNat))

def putuint (value : Word) (base totalnums fillchar : Byte) (s : σ) : Result σ :=
  putuintWithin putch base fillchar wordCount value totalnums s

end Printing

def collect (text : List Byte) (c : Byte) : List Byte :=
  text ++ [c]

theorem foldl_collect (text cs : List Byte) : cs.foldl collect text = text ++ cs := by
  induction cs generalizing text with
  | nil => exact (List.append_nil text).symm
  | cons c cs ih =>
      rw [List.foldl_cons, ih]
      exact List.append_assoc text [c] cs

/-!
# The text of a number
-/

def numberText (base n : Nat) : List Byte :=
  (numeral base n).map digitChar

def paddedText (base width : Nat) (fillchar : Byte) (n : Nat) : List Byte :=
  List.replicate (width - (numberText base n).length) fillchar ++ numberText base n

def readNumber (base : Nat) (text : List Byte) : Nat :=
  Nat.ofDigits base (text.map digitValue).reverse

section Text

variable {base n k : Nat} {fillchar : Byte}

theorem digitValue_digitChar : forall d, d < 16 -> digitValue (digitChar d) = d := by
  decide

theorem map_numberText (hbase : 1 < base) (hbase' : base ≤ 16) :
    (numberText base n).map digitValue = numeral base n := by
  unfold numberText
  rw [List.map_map]
  refine (List.map_congr_left fun d hd => ?_).trans (List.map_id _)
  exact digitValue_digitChar d (Nat.lt_of_lt_of_le (numeral_lt hbase hd) hbase')

/-- Fill characters that count as zeros do not change the number. -/
theorem readNumber_padded (hbase : 1 < base) (hbase' : base ≤ 16)
    (hfill : digitValue fillchar = 0) :
    readNumber base (List.replicate k fillchar ++ numberText base n) = n := by
  unfold readNumber
  rw [List.map_append, map_numberText hbase hbase', List.map_replicate, hfill]
  exact ofDigits_numeral base n k

theorem readNumber_numberText (hbase : 1 < base) (hbase' : base ≤ 16) :
    readNumber base (numberText base n) = n :=
  readNumber_padded (k := 0) hbase hbase' (rfl : digitValue 0 = 0)

theorem paddedText_inj {width m : Nat} (hbase : 1 < base) (hbase' : base ≤ 16)
    (hfill : digitValue fillchar = 0)
    (h : paddedText base width fillchar n = paddedText base width fillchar m) : n = m := by
  have hread := congrArg (readNumber base) h
  unfold paddedText at hread
  rw [readNumber_padded hbase hbase' hfill, readNumber_padded hbase hbase' hfill] at hread
  exact hread

theorem numberText_small (h : n < base) : numberText base n = [digitChar n] := by
  unfold numberText
  rw [numeral_small h, List.map_singleton]

theorem numberText_snoc (hbase : 1 < base) (h : base ≤ n) :
    numberText base n = numberText base (n / base) ++ [digitChar (n % base)] := by
  unfold numberText
  rw [numeral_snoc hbase h, List.map_append, List.map_singleton]

theorem paddedText_small {width : Nat} (h : n < base) :
    paddedText base width fillchar n =
      List.replicate (width - 1) fillchar ++ [digitChar n] := by
  unfold paddedText
  rw [numberText_small h, List.length_singleton]

theorem paddedText_snoc {width : Nat} (hbase : 1 < base) (h : base ≤ n) :
    paddedText base width fillchar n =
      paddedText base (width - 1) fillchar (n / base) ++ [digitChar (n % base)] := by
  unfold paddedText
  rw [numberText_snoc hbase h, List.length_append, List.length_singleton, List.append_assoc,
    Nat.add_comm, Nat.sub_add_eq]

theorem numberText_head_ne (hbase : 1 < base) (hbase' : base ≤ 16) (hn : n ≠ 0) :
    (numberText base n).head? ≠ some (digitChar 0) := by
  intro h
  have hfirst : (numeral base n).head? = some 0 := by
    rw [← map_numberText hbase hbase', List.head?_map, h, Option.map_some,
      digitValue_digitChar 0 (by decide)]
  exact numeral_head_ne hn hfirst

end Text

/-!
# What is printed
-/

section Printed

variable {σ : Type} (putch : σ -> Byte -> σ)

theorem putfill_eq (n : Nat) (fillchar : Byte) (s : σ) :
    putfill putch n fillchar s = (List.replicate n fillchar).foldl putch s := by
  induction n with
  | zero => rfl
  | succ n ih =>
      unfold putfill
      rw [ih, List.replicate_succ', List.foldl_append]
      rfl

theorem charPred {w : Nat} (hw : w ≤ 127) :
    (if 0 < BitVec.ofNat 8 w then BitVec.ofNat 8 w - 1 else BitVec.ofNat 8 w) =
      BitVec.ofNat 8 (w - 1) := by
  cases w with
  | zero => rfl
  | succ w =>
      rw [if_pos (by bv_omega)]
      bv_omega

/-- The digits come out behind what the call for the quotient prints, and the innermost
call prints the fill characters. -/
theorem putuintWithin_eq {base w : Nat} (hbase : 2 ≤ base) (hbase' : base ≤ 16)
    (hw : w ≤ 127) (fillchar : Byte) {depth : Nat} {value : Word}
    (hdepth : value.toNat < depth) (s : σ) :
    putuintWithin putch (BitVec.ofNat 8 base) fillchar depth value (BitVec.ofNat 8 w) s =
      .ok ((paddedText base w fillchar value.toNat).foldl putch s) := by
  have hword : (BitVec.setWidth 16 (BitVec.ofNat 8 base)).toNat = base := by
    rw [BitVec.toNat_setWidth, BitVec.toNat_ofNat]
    omega
  have hdivide : forall value : Word,
      divideWords value (BitVec.setWidth 16 (BitVec.ofNat 8 base)) =
        .ok (BitVec.ofNat 16 (value.toNat / base)) := by
    intro value
    have hne : BitVec.setWidth 16 (BitVec.ofNat 8 base) ≠ 0 := by
      intro hzero
      rw [hzero] at hword
      exact absurd hword (Nat.ne_of_lt (Nat.lt_of_lt_of_le Nat.two_pos hbase))
    unfold divideWords
    rw [if_neg hne]
    refine congrArg Except.ok (BitVec.eq_of_toNat_eq ?_)
    rw [BitVec.toNat_udiv, hword, BitVec.toNat_ofNat, Nat.mod_eq_of_lt]
    exact Nat.lt_of_le_of_lt (Nat.div_le_self _ _) value.isLt
  induction depth generalizing value w with
  | zero => exact absurd hdepth (Nat.not_lt_zero _)
  | succ depth ih =>
      have hvalue := value.isLt
      have hrest : (value % BitVec.setWidth 16 (BitVec.ofNat 8 base)).toNat =
          value.toNat % base := by
        rw [BitVec.toNat_umod, hword]
      have hquotient : (BitVec.ofNat 16 (value.toNat / base)).toNat =
          value.toNat / base := by
        rw [BitVec.toNat_ofNat]
        exact Nat.mod_eq_of_lt (Nat.lt_of_le_of_lt (Nat.div_le_self _ _) hvalue)
      unfold putuintWithin
      dsimp only
      rw [hdivide, ok_bind, charPred hw, hrest]
      by_cases hlast : value.toNat < base
      · have hwidth : (BitVec.ofNat 8 (w - 1)).toNat = w - 1 := by
          rw [BitVec.toNat_ofNat]
          omega
        rw [Nat.div_eq_of_lt hlast, if_neg (fun h => h rfl), ok_bind, putfill_eq, hwidth,
          Nat.mod_eq_of_lt hlast, paddedText_small hlast, List.foldl_append]
        rfl
      · have hmore : BitVec.ofNat 16 (value.toNat / base) ≠ 0 := by
          intro hzero
          rw [hzero] at hquotient
          exact absurd hquotient.symm (Nat.ne_of_gt (Nat.div_pos (by omega) (by omega)))
        have hless : value.toNat / base < value.toNat :=
          Nat.div_lt_self (by omega) (by omega)
        have hcall : putuintWithin putch (BitVec.ofNat 8 base) fillchar depth
            (BitVec.ofNat 16 (value.toNat / base)) (BitVec.ofNat 8 (w - 1)) s =
              .ok ((paddedText base (w - 1) fillchar (value.toNat / base)).foldl putch s) := by
          rw [ih (by omega) (by omega), hquotient]
        have htext : paddedText base w fillchar value.toNat = _ :=
          paddedText_snoc hbase (Nat.le_of_not_lt hlast)
        rw [if_pos hmore, hcall, ok_bind, htext, List.foldl_append]
        rfl

theorem putuint_eq {base w : Nat} (hbase : 2 ≤ base) (hbase' : base ≤ 16) (hw : w ≤ 127)
    (value : Word) (fillchar : Byte) (s : σ) :
    putuint putch value (BitVec.ofNat 8 base) (BitVec.ofNat 8 w) fillchar s =
      .ok ((paddedText base w fillchar value.toNat).foldl putch s) :=
  putuintWithin_eq putch hbase hbase' hw fillchar value.isLt s

end Printed

/-- A number is printed with its highest digit first and no zero before it, behind as
many fill characters as the width has room for, and reading it gives the number back. -/
theorem putuint_renders {σ : Type} (putch : σ -> Byte -> σ) {base w : Nat}
    (hbase : 2 ≤ base) (hbase' : base ≤ 16) (hw : w ≤ 127) (value : Word)
    (fillchar : Byte) (s : σ) :
    putuint putch value (BitVec.ofNat 8 base) (BitVec.ofNat 8 w) fillchar s =
        .ok ((List.replicate (w - (numberText base value.toNat).length) fillchar ++
          numberText base value.toNat).foldl putch s) ∧
      readNumber base (numberText base value.toNat) = value.toNat ∧
      (forall c, c ∈ numberText base value.toNat ->
        exists d, d < base ∧ c = digitChar d) ∧
      (value ≠ 0 -> (numberText base value.toNat).head? ≠ some 0x30) ∧
      (value = 0 -> numberText base value.toNat = [0x30]) := by
  refine ⟨putuint_eq putch hbase hbase' hw value fillchar s,
    readNumber_numberText hbase hbase', ?_, ?_, ?_⟩
  · intro c hc
    rcases List.mem_map.mp hc with ⟨d, hd, rfl⟩
    exact ⟨d, numeral_lt hbase hd, rfl⟩
  · intro hne
    refine numberText_head_ne hbase hbase' fun hzero => hne ?_
    exact BitVec.eq_of_toNat_eq hzero
  · intro hzero
    rw [hzero]
    exact numberText_small (Nat.lt_of_lt_of_le Nat.two_pos hbase)

theorem putuint_renders_hex :
    putuint collect 0xff 16 4 0x20 [] =
      .ok [0x20, 0x20, 0x66, 0x66] :=
  (putuint_renders collect (by decide : 2 ≤ 16) (by decide)
    (by decide : 4 ≤ 127) 0xff 0x20 []).1

end Rmmtos
