import Rmmtos.Memory
import Rmmtos.Kernel.Segments

/-!
# The memory helpers of a program

{lit}`init/string.c` has the loops of the kernel's file, without the instructions that
keep interrupts out.  They work on the segments that they are given.  The helpers that
take no segment give them the one of the kernel, whatever task calls them.
-/

namespace Rmmtos
namespace Init

open Library
open Kernel (allocateSegment segmentOf segmentOf_toNat allocateSegment_spec)

/-- Store the low byte of a word {lit}`count` times. -/
def farmemset (m : Mem) (dest val count seg : Word) : Mem :=
  writeRun (fun i => linear seg (offsetFrom dest i)) (fun _ => val.extractLsb' 0 8)
    count.toNat m

def memcpy (m : Mem) (dest src count : Word) : Mem :=
  farmemcpy m dest src count 0x0050 0x0050

def memset (m : Mem) (dest val count : Word) : Mem :=
  farmemset m dest val count 0x0050

def memsetw (m : Mem) (dest val count : Word) : Mem :=
  farmemsetw m dest val count 0x0050

/-!
# Calls
-/

inductive HelperCall where
  | memcpy (dest src count : Word)
  | memset (dest val count : Word)
  | memsetw (dest val count : Word)
deriving DecidableEq, Repr

def HelperCall.run (m : Mem) : HelperCall -> Mem
  | .memcpy dest src count => Init.memcpy m dest src count
  | .memset dest val count => Init.memset m dest val count
  | .memsetw dest val count => Init.memsetw m dest val count

def HelperCall.dest : HelperCall -> Word
  | .memcpy dest _ _ => dest
  | .memset dest _ _ => dest
  | .memsetw dest _ _ => dest

def HelperCall.size : HelperCall -> Nat
  | .memcpy _ _ count => count.toNat
  | .memset _ _ count => count.toNat
  | .memsetw _ _ count => 2 * count.toNat

/-- The bytes that the destination should get, when the source is in {lit}`seg`. -/
def HelperCall.wanted (m : Mem) (seg : Word) : HelperCall -> Nat -> Byte
  | .memcpy _ src _ => fun i => peek m seg (offsetFrom src i)
  | .memset _ val _ => fun _ => val.extractLsb' 0 8
  | .memsetw _ val _ => wordByte val

/-- The ranges of the call do not wrap. -/
def HelperCall.Inside : HelperCall -> Prop
  | .memcpy dest src count =>
      dest.toNat + count.toNat ≤ wordCount ∧ src.toNat + count.toNat ≤ wordCount
  | .memset dest _ count => dest.toNat + count.toNat ≤ wordCount
  | .memsetw dest _ count => dest.toNat + 2 * count.toNat ≤ wordCount

/-- The call changes the destination in {lit}`seg` as it should, and nothing else. -/
structure HelperCall.Right (call : HelperCall) (m : Mem) (seg : Word) : Prop where
  written : forall i, i < call.size ->
    peek (call.run m) seg (offsetFrom call.dest i) = call.wanted m seg i
  frame : forall x, (forall i, i < call.size -> x ≠ linear seg (offsetFrom call.dest i)) ->
    call.run m x = m x

def TaskSegment (seg : Word) : Prop :=
  seg ≠ 0 ∧ exists bitmap, (allocateSegment bitmap).1 = seg

section Calls

variable {call : HelperCall} {m : Mem} {seg : Word}

theorem TaskSegment.apart (h : TaskSegment seg) : SegmentsApart seg kernelSegment := by
  rcases h with ⟨hne, bitmap, rfl⟩
  rcases allocateSegment_spec bitmap hne with ⟨i, hi, _, heq⟩
  rw [heq]
  intro off off' hmeet
  have hseg := segmentOf_toNat hi
  have hoff := off.isLt
  have hoff' := off'.isLt
  unfold linear kernelSegment at hmeet
  change ((segmentOf i).toNat * 16 + off.toNat) % _ = (80 * 16 + off'.toNat) % _ at hmeet
  omega

theorem HelperCall.Inside.size_le (hin : call.Inside) :
    call.dest.toNat + call.size ≤ wordCount := by
  cases call with
  | memcpy dest src count => exact hin.1
  | memset dest val count => exact hin
  | memsetw dest val count => exact hin

theorem HelperCall.Inside.place_inj (hin : call.Inside) (seg : Word) (i j : Nat)
    (hi : i < call.size) (hj : j < call.size)
    (h : linear seg (offsetFrom call.dest i) = linear seg (offsetFrom call.dest j)) :
    i = j := by
  have hle := hin.size_le
  exact offsetFrom_injective (by omega) (by omega) (linear_injective h)

theorem HelperCall.run_other {x : Nat} (h : forall i, i < call.size ->
    x ≠ linear kernelSegment (offsetFrom call.dest i)) : call.run m x = m x := by
  cases call with
  | memcpy dest src count => exact farmemcpy_other h
  | memset dest val count => exact writeRun_other h
  | memsetw dest val count => exact farmemsetw_other h

theorem HelperCall.run_eq_self_iff (hin : call.Inside) :
    call.run m = m <-> forall i, i < call.size ->
      peek m kernelSegment (offsetFrom call.dest i) = call.wanted m kernelSegment i := by
  have hinj := hin.place_inj kernelSegment
  cases call with
  | memcpy dest src count => exact copyRun_eq_self_iff hinj
  | memset dest val count => exact writeRun_eq_self_iff hinj
  | memsetw dest val count => exact writeRun_eq_self_iff hinj

theorem HelperCall.run_task (call : HelperCall) (hseg : TaskSegment seg) (off : Word) :
    peek (call.run m) seg off = peek m seg off :=
  HelperCall.run_other fun _ _ => hseg.apart off _

/-- A call of a task does what it should only when there is nothing to do: the
destination has its bytes already, and so has its double in the kernel's segment. -/
theorem helpers_right_iff (call : HelperCall) (m : Mem) {seg : Word}
    (hseg : TaskSegment seg) (hin : call.Inside) :
    call.Right m seg <-> forall i, i < call.size ->
      peek m seg (offsetFrom call.dest i) = call.wanted m seg i ∧
        peek m kernelSegment (offsetFrom call.dest i) = call.wanted m kernelSegment i := by
  constructor
  · intro hright i hi
    have hwritten := hright.written i hi
    rw [call.run_task hseg] at hwritten
    have hself : call.run m = m := by
      funext x
      by_cases hx : exists i, i < call.size ∧ x = linear seg (offsetFrom call.dest i)
      · rcases hx with ⟨j, _, rfl⟩
        exact call.run_task hseg _
      · exact hright.frame x fun j hj heq => hx ⟨j, hj, heq⟩
    exact ⟨hwritten, (HelperCall.run_eq_self_iff hin).mp hself i hi⟩
  · intro h
    have hself := (HelperCall.run_eq_self_iff hin).mpr fun i hi => (h i hi).2
    constructor
    · intro i hi
      rw [hself]
      exact (h i hi).1
    · intro x _
      rw [hself]

end Calls

/-- Clear four bytes that are clear, in the segment of the first task. -/
theorem helpers_right_cleared :
    (HelperCall.memset 0x2000 0 4).Right (fun _ => 0) 0x1050 <->
      forall i, i < 4 -> (0 : Byte) = 0 ∧ (0 : Byte) = 0 :=
  helpers_right_iff (.memset 0x2000 0 4) (fun _ => 0) ⟨by decide, 0, rfl⟩
    (show 0x2000 + 4 ≤ 65536 by decide)

/-- The first task copies a byte, and the kernel's memory is overwritten instead. -/
theorem memcpy_writes_kernel :
    exists (call : HelperCall) (m : Mem) (seg : Word),
      TaskSegment seg ∧ call.Inside ∧ ¬ call.Right m seg := by
  refine ⟨.memcpy 0x2000 0x3000 1, fun x => if x = 0x13500 then 0x41 else 0, 0x1050,
    ⟨by decide, 0, rfl⟩, ⟨by decide, by decide⟩, ?_⟩
  intro hright
  have hwritten := hright.written 0 (show 0 < 1 by decide)
  revert hwritten
  decide

end Init
end Rmmtos
