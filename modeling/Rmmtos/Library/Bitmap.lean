import Mathlib.Data.Nat.Digits.Lemmas
import Mathlib.Tactic

/-!
# Bitmaps and packed tables

A bitmap keeps its flags in bytes, the first flag in the highest bit of the
first byte.  The masks a program builds with {lit}`0x80 >> k` are related here
to the bits they select.

A packed table is a byte string read as one number, the lowest byte first.  Its
entries are bit fields of that number, and a field that lies in two neighbouring
bytes can be read from these.
-/

namespace Rmmtos
namespace Library

/-!
# One byte
-/

/-- The `k`-th flag of a byte, counted from its highest bit. -/
def byteBit (b : BitVec 8) (k : Nat) : Bool :=
  b.getLsbD (7 - k)

def byteMask (k : Nat) : BitVec 8 :=
  0x80#8 >>> k

theorem byteMask_eq_twoPow {k : Nat} (hk : k < 8) :
    byteMask k = BitVec.twoPow 8 (7 - k) := by
  interval_cases k <;> decide

theorem byteBit_byteMask {j k : Nat} (hj : j < 8) (hk : k < 8) :
    byteBit (byteMask k) j = decide (j = k) := by
  unfold byteBit
  rw [byteMask_eq_twoPow hk, BitVec.getLsbD_twoPow]
  have hiff : 7 - k = 7 - j <-> j = k := by omega
  simp [hiff, show 7 - k < 8 by omega]

theorem and_byteMask_eq_zero {b : BitVec 8} {k : Nat} (hk : k < 8) :
    b &&& byteMask k = 0 <-> byteBit b k = false := by
  rw [byteMask_eq_twoPow hk, BitVec.and_twoPow]
  have hne : BitVec.twoPow 8 (7 - k) ≠ 0 := by
    interval_cases k <;> decide
  unfold byteBit
  cases hbit : b.getLsbD (7 - k) with
  | false => simp
  | true => simpa using hne

theorem byteBit_or_byteMask {b : BitVec 8} {j k : Nat}
    (hj : j < 8) (hk : k < 8) :
    byteBit (b ||| byteMask k) j = (byteBit b j || decide (j = k)) := by
  rw [← byteBit_byteMask hj hk]
  simp [byteBit]

theorem byteBit_xor_byteMask {b : BitVec 8} {j k : Nat}
    (hj : j < 8) (hk : k < 8) :
    byteBit (b ^^^ byteMask k) j = (byteBit b j ^^ decide (j = k)) := by
  rw [← byteBit_byteMask hj hk]
  simp [byteBit]

theorem byteBit_and_not_byteMask {b : BitVec 8} {j k : Nat}
    (hj : j < 8) (hk : k < 8) :
    byteBit (b &&& ~~~byteMask k) j = (byteBit b j && !decide (j = k)) := by
  rw [← byteBit_byteMask hj hk]
  simp [byteBit, show 7 - j < 8 by omega]

theorem byte_full_iff {b : BitVec 8} :
    b = 0xff#8 <-> forall k, k < 8 -> byteBit b k = true := by
  constructor
  · intro h k hk
    subst h
    interval_cases k <;> decide
  · intro h
    apply BitVec.eq_of_getLsbD_eq
    intro i hi
    have hbit := h (7 - i) (by omega)
    rw [byteBit, show 7 - (7 - i) = i by omega] at hbit
    rw [hbit]
    interval_cases i <;> decide

@[simp] theorem byteBit_zero (k : Nat) : byteBit 0#8 k = false := by
  simp [byteBit]

/-!
# Many bytes
-/

def bitAt (bm : Nat -> BitVec 8) (i : Nat) : Bool :=
  byteBit (bm (i / 8)) (i % 8)

def setBit (bm : Nat -> BitVec 8) (i : Nat) : Nat -> BitVec 8 :=
  Function.update bm (i / 8) (bm (i / 8) ||| byteMask (i % 8))

def flipBit (bm : Nat -> BitVec 8) (i : Nat) : Nat -> BitVec 8 :=
  Function.update bm (i / 8) (bm (i / 8) ^^^ byteMask (i % 8))

theorem bitAt_setBit (bm : Nat -> BitVec 8) (i j : Nat) :
    bitAt (setBit bm i) j = (bitAt bm j || decide (j = i)) := by
  have hj : j % 8 < 8 := Nat.mod_lt _ (by decide)
  have hi : i % 8 < 8 := Nat.mod_lt _ (by decide)
  unfold bitAt setBit
  by_cases hbyte : j / 8 = i / 8
  · rw [hbyte, Function.update_self, byteBit_or_byteMask hj hi]
    congr 1
    exact decide_eq_decide.mpr (by omega)
  · rw [Function.update_of_ne hbyte]
    have hne : j ≠ i := fun h => hbyte (by rw [h])
    simp [hne]

theorem bitAt_flipBit (bm : Nat -> BitVec 8) (i j : Nat) :
    bitAt (flipBit bm i) j = (bitAt bm j ^^ decide (j = i)) := by
  have hj : j % 8 < 8 := Nat.mod_lt _ (by decide)
  have hi : i % 8 < 8 := Nat.mod_lt _ (by decide)
  unfold bitAt flipBit
  by_cases hbyte : j / 8 = i / 8
  · rw [hbyte, Function.update_self, byteBit_xor_byteMask hj hi]
    congr 1
    exact decide_eq_decide.mpr (by omega)
  · rw [Function.update_of_ne hbyte]
    have hne : j ≠ i := fun h => hbyte (by rw [h])
    simp [hne]

theorem bitAt_of_byte_full {bm : Nat -> BitVec 8} {i : Nat}
    (h : bm (i / 8) = 0xff#8) : bitAt bm i = true :=
  byte_full_iff.mp h (i % 8) (Nat.mod_lt _ (by decide))

theorem bitmap_ext {bm bm' : Nat -> BitVec 8}
    (h : forall i, bitAt bm i = bitAt bm' i) : bm = bm' := by
  funext j
  apply BitVec.eq_of_getLsbD_eq
  intro k hk
  have hbit := h (8 * j + (7 - k))
  unfold bitAt byteBit at hbit
  rw [show (8 * j + (7 - k)) / 8 = j by omega,
    show 7 - (8 * j + (7 - k)) % 8 = k by omega] at hbit
  exact hbit

theorem flipBit_setBit {bm : Nat -> BitVec 8} {i : Nat} (h : bitAt bm i = false) :
    flipBit (setBit bm i) i = bm := by
  apply bitmap_ext
  intro j
  rw [bitAt_flipBit, bitAt_setBit]
  cases Decidable.em (j = i) with
  | inl hji => simp [hji, h]
  | inr hji => simp [hji]

/-!
# Packed tables
-/

/-- The bits of a byte string from a place on. -/
def bitField (bytes : List Nat) (start width : Nat) : Nat :=
  Nat.ofDigits 256 bytes / 2 ^ start % 2 ^ width

/-- Entry {lit}`n` of a table of entries of one width without gaps. -/
def packedEntry (width : Nat) (bytes : List Nat) (n : Nat) : Nat :=
  bitField bytes (width * n) width

section Packed

variable {bytes : List Nat}

theorem ofDigits_drop (hbytes : forall b, b ∈ bytes -> b < 256) (q : Nat) :
    Nat.ofDigits 256 bytes / 2 ^ (8 * q) = Nat.ofDigits 256 (bytes.drop q) := by
  rw [Nat.pow_mul]
  exact Nat.ofDigits_div_pow_eq_ofDigits_drop q (by decide) bytes hbytes

theorem ofDigits_two (hlen : 1 < bytes.length) :
    exists rest, Nat.ofDigits 256 bytes =
      bytes.getD 0 0 + 256 * bytes.getD 1 0 + 65536 * rest := by
  rcases bytes with _ | ⟨a, _ | ⟨b, tail⟩⟩
  · cases hlen
  · exact absurd hlen (Nat.lt_irrefl 1)
  · refine ⟨Nat.ofDigits 256 tail, ?_⟩
    rw [Nat.ofDigits_cons, Nat.ofDigits_cons]
    simp only [List.getD_cons_zero, List.getD_cons_succ]
    ring

theorem field_add (x rest : Nat) {r width total : Nat}
    (hfit : r + width ≤ total) :
    (x + 2 ^ total * rest) / 2 ^ r % 2 ^ width = x / 2 ^ r % 2 ^ width := by
  have htotal : 2 ^ total * rest =
      2 ^ r * (2 ^ width * (2 ^ (total - r - width) * rest)) := by
    rw [← Nat.mul_assoc, ← Nat.mul_assoc, ← Nat.pow_add, ← Nat.pow_add]
    congr 2
    omega
  rw [htotal, Nat.add_mul_div_left _ _ (Nat.two_pow_pos r),
    Nat.add_mul_mod_self_left]

/-- A field inside two neighbouring bytes. -/
theorem bitField_eq (hbytes : forall b, b ∈ bytes -> b < 256)
    {q r width : Nat} (hq : q + 1 < bytes.length) (hfit : r + width ≤ 16) :
    bitField bytes (8 * q + r) width =
      (bytes.getD q 0 + 256 * bytes.getD (q + 1) 0) / 2 ^ r % 2 ^ width := by
  have hlen : 1 < (bytes.drop q).length := by
    rw [List.length_drop]
    omega
  rcases ofDigits_two hlen with ⟨rest, hrest⟩
  have hfirst : (bytes.drop q).getD 0 0 = bytes.getD q 0 := by
    simp [List.getD_eq_getElem?_getD, List.getElem?_drop]
  have hsecond : (bytes.drop q).getD 1 0 = bytes.getD (q + 1) 0 := by
    simp [List.getD_eq_getElem?_getD, List.getElem?_drop]
  unfold bitField
  rw [Nat.pow_add, ← Nat.div_div_eq_div_mul, ofDigits_drop hbytes q, hrest,
    hfirst, hsecond]
  exact field_add _ rest hfit

end Packed

end Library
end Rmmtos
