import Mathlib.Tactic

/-!
# Zoned layouts

A pool is cut into zones, each a row of blocks of one size, and the blocks are
numbered through all the zones.  A block's start and size are computed from its
number, and its number from its start.  A zone may be empty.
-/

namespace Rmmtos
namespace Library

structure Zone where
  size : Nat
  count : Nat
deriving DecidableEq, Repr

namespace Zones

def blockCount : List Zone -> Nat
  | [] => 0
  | z :: zs => z.count + blockCount zs

def byteCount : List Zone -> Nat
  | [] => 0
  | z :: zs => z.size * z.count + byteCount zs

def blockStart : List Zone -> Nat -> Nat
  | [], _ => 0
  | z :: zs, b =>
      if b < z.count then z.size * b
      else z.size * z.count + blockStart zs (b - z.count)

def blockSize : List Zone -> Nat -> Nat
  | [], _ => 0
  | z :: zs, b => if b < z.count then z.size else blockSize zs (b - z.count)

def blockIndex : List Zone -> Nat -> Nat
  | [], _ => 0
  | z :: zs, a =>
      if a < z.size * z.count then a / z.size
      else z.count + blockIndex zs (a - z.size * z.count)

/-- The number of blocks in the leading zones whose blocks are too small. -/
def skipCount (n : Nat) : List Zone -> Nat
  | [] => 0
  | z :: zs => if z.size < n then z.count + skipCount n zs else 0

@[simp] theorem blockCount_nil : blockCount [] = 0 := rfl

@[simp] theorem blockCount_cons (z : Zone) (zs : List Zone) :
    blockCount (z :: zs) = z.count + blockCount zs := rfl

@[simp] theorem byteCount_nil : byteCount [] = 0 := rfl

@[simp] theorem byteCount_cons (z : Zone) (zs : List Zone) :
    byteCount (z :: zs) = z.size * z.count + byteCount zs := rfl

theorem blockStart_head {z : Zone} {zs : List Zone} {b : Nat}
    (h : b < z.count) : blockStart (z :: zs) b = z.size * b := by
  simp [blockStart, h]

theorem blockStart_tail {z : Zone} {zs : List Zone} {b : Nat}
    (h : z.count ≤ b) :
    blockStart (z :: zs) b =
      z.size * z.count + blockStart zs (b - z.count) := by
  simp [blockStart, show ¬ b < z.count by omega]

theorem blockSize_head {z : Zone} {zs : List Zone} {b : Nat}
    (h : b < z.count) : blockSize (z :: zs) b = z.size := by
  simp [blockSize, h]

theorem blockSize_tail {z : Zone} {zs : List Zone} {b : Nat}
    (h : z.count ≤ b) :
    blockSize (z :: zs) b = blockSize zs (b - z.count) := by
  simp [blockSize, show ¬ b < z.count by omega]

/-!
# Blocks lie side by side
-/

theorem blockEnd_le_byteCount {zs : List Zone} {b : Nat}
    (hb : b < blockCount zs) :
    blockStart zs b + blockSize zs b ≤ byteCount zs := by
  induction zs generalizing b with
  | nil => simp at hb
  | cons z zs ih =>
      rcases Nat.lt_or_ge b z.count with hlt | hge
      · rw [blockStart_head hlt, blockSize_head hlt, byteCount_cons]
        have hrow : z.size * (b + 1) ≤ z.size * z.count :=
          Nat.mul_le_mul_left _ hlt
        rw [Nat.mul_succ] at hrow
        omega
      · rw [blockStart_tail hge, blockSize_tail hge, byteCount_cons]
        have hb' : b - z.count < blockCount zs := by
          simp at hb
          omega
        have hrest := ih hb'
        omega

theorem blockEnd_le_blockStart {zs : List Zone} {b c : Nat}
    (hbc : b < c) (hc : c < blockCount zs) :
    blockStart zs b + blockSize zs b ≤ blockStart zs c := by
  induction zs generalizing b c with
  | nil => simp at hc
  | cons z zs ih =>
      rcases Nat.lt_or_ge b z.count with hb | hb
      · rw [blockStart_head hb, blockSize_head hb]
        rcases Nat.lt_or_ge c z.count with hlt | hge
        · rw [blockStart_head hlt]
          have hrow : z.size * (b + 1) ≤ z.size * c :=
            Nat.mul_le_mul_left _ hbc
          rw [Nat.mul_succ] at hrow
          exact hrow
        · rw [blockStart_tail hge]
          have hrow : z.size * (b + 1) ≤ z.size * z.count :=
            Nat.mul_le_mul_left _ hb
          rw [Nat.mul_succ] at hrow
          omega
      · have hge : z.count ≤ c := by omega
        rw [blockStart_tail hb, blockSize_tail hb, blockStart_tail hge]
        have hc' : c - z.count < blockCount zs := by
          simp at hc
          omega
        have hrest := ih (b := b - z.count) (c := c - z.count) (by omega) hc'
        omega

theorem exists_mem_blockSize {zs : List Zone} {b : Nat}
    (hb : b < blockCount zs) :
    exists z, z ∈ zs ∧ blockSize zs b = z.size := by
  induction zs generalizing b with
  | nil => simp at hb
  | cons z zs ih =>
      rcases Nat.lt_or_ge b z.count with hlt | hge
      · exact ⟨z, by simp, blockSize_head hlt⟩
      · have hb' : b - z.count < blockCount zs := by
          simp at hb
          omega
        rcases ih hb' with ⟨y, hy, hsize⟩
        exact ⟨y, by simp [hy], by rw [blockSize_tail hge, hsize]⟩

theorem blockSize_pos {zs : List Zone} (hpos : forall z, z ∈ zs -> 0 < z.size)
    {b : Nat} (hb : b < blockCount zs) : 0 < blockSize zs b := by
  rcases exists_mem_blockSize hb with ⟨z, hz, hsize⟩
  rw [hsize]
  exact hpos z hz

theorem blockStart_injective {zs : List Zone}
    (hpos : forall z, z ∈ zs -> 0 < z.size) {b c : Nat}
    (hb : b < blockCount zs) (hc : c < blockCount zs)
    (heq : blockStart zs b = blockStart zs c) : b = c := by
  rcases Nat.lt_trichotomy b c with hlt | rfl | hgt
  · have hsize := blockSize_pos hpos hb
    have hend := blockEnd_le_blockStart hlt hc
    omega
  · rfl
  · have hsize := blockSize_pos hpos hc
    have hend := blockEnd_le_blockStart hgt hb
    omega

theorem sum_blockSize (zs : List Zone) :
    ∑ b ∈ Finset.range (blockCount zs), blockSize zs b = byteCount zs := by
  induction zs with
  | nil => rfl
  | cons z zs ih =>
      have hhead : ∑ b ∈ Finset.range z.count, blockSize (z :: zs) b =
          z.size * z.count := by
        rw [Finset.sum_congr rfl (fun b hb =>
          blockSize_head (Finset.mem_range.mp hb))]
        simp [Nat.mul_comm]
      have htail : ∑ b ∈ Finset.range (blockCount zs),
            blockSize (z :: zs) (z.count + b) = byteCount zs := by
        rw [← ih]
        apply Finset.sum_congr rfl
        intro b _
        rw [blockSize_tail (by omega), Nat.add_sub_cancel_left]
      rw [blockCount_cons, Finset.sum_range_add, hhead, htail, byteCount_cons]

/-!
# Numbers and starts

Finding the block of an offset undoes finding the start of a block.
-/

theorem blockIndex_blockStart {zs : List Zone}
    (hpos : forall z, z ∈ zs -> 0 < z.size) {b : Nat} (hb : b < blockCount zs) :
    blockIndex zs (blockStart zs b) = b := by
  induction zs generalizing b with
  | nil => simp at hb
  | cons z zs ih =>
      have hz : 0 < z.size := hpos z (by simp)
      rcases Nat.lt_or_ge b z.count with hlt | hge
      · have hin : z.size * b < z.size * z.count :=
          Nat.mul_lt_mul_of_pos_left hlt hz
        rw [blockStart_head hlt]
        simp [blockIndex, hin, Nat.mul_div_cancel_left b hz]
      · rw [blockStart_tail hge]
        have hb' : b - z.count < blockCount zs := by
          simp at hb
          omega
        have hrest := ih (fun y hy => hpos y (by simp [hy])) hb'
        simp [blockIndex, hrest]
        omega

theorem blockIndex_lt {zs : List Zone} {a : Nat} (ha : a < byteCount zs) :
    blockIndex zs a < blockCount zs := by
  induction zs generalizing a with
  | nil => exact absurd ha (Nat.not_lt_zero a)
  | cons z zs ih =>
      rw [byteCount_cons] at ha
      unfold blockIndex
      rw [blockCount_cons]
      split
      · next hin => exact Nat.lt_add_right _ (Nat.div_lt_of_lt_mul hin)
      · exact Nat.add_lt_add_left (ih (by omega)) _

/-!
# First fit

In zones of growing block sizes, the blocks past the leading zones that are
too small are all large enough.
-/

theorem blockCount_append (ys zs : List Zone) :
    blockCount (ys ++ zs) = blockCount ys + blockCount zs := by
  induction ys with
  | nil => exact (Nat.zero_add _).symm
  | cons y ys ih =>
      rw [List.cons_append, blockCount_cons, blockCount_cons, ih, Nat.add_assoc]

theorem skipCount_eq (n : Nat) (zs : List Zone) :
    skipCount n zs = blockCount (zs.takeWhile fun z => z.size < n) := by
  induction zs with
  | nil => rfl
  | cons z zs ih =>
      unfold skipCount
      rw [List.takeWhile_cons]
      split
      · next hsmall =>
          rw [if_pos (decide_eq_true hsmall), blockCount_cons, ih]
      · next hlarge =>
          rw [if_neg (fun hsmall => hlarge (of_decide_eq_true hsmall))]
          rfl

theorem le_blockSize_of_sorted {zs : List Zone} {n b : Nat}
    (hsorted : zs.Pairwise (fun y z => y.size ≤ z.size))
    (hskip : skipCount n zs ≤ b) (hb : b < blockCount zs) :
    n ≤ blockSize zs b := by
  induction zs generalizing b with
  | nil => simp at hb
  | cons z zs ih =>
      rcases List.pairwise_cons.mp hsorted with ⟨hhead, htail⟩
      rcases Nat.lt_or_ge b z.count with hlt | hge
      · rw [blockSize_head hlt]
        by_contra hsmall
        have hbig : z.count ≤ skipCount n (z :: zs) := by
          simp [skipCount, show z.size < n by omega]
        omega
      · have hb' : b - z.count < blockCount zs := by
          simp at hb
          omega
        rw [blockSize_tail hge]
        by_cases hz : z.size < n
        · apply ih htail _ hb'
          simp [skipCount, hz] at hskip
          omega
        · rcases exists_mem_blockSize hb' with ⟨y, hy, hsize⟩
          have hle := hhead y hy
          omega

end Zones

end Library
end Rmmtos
