import Rmmtos.Memory
import Rmmtos.Kernel.Segments

/-!
# Memory after a fork

The program of a new task is a copy of its parent's, but for two words of the
saved registers.  The only other memory that a fork writes is the kernel stack
of the new task.
-/

namespace Rmmtos
namespace Kernel

open Library Fs

/-!
# The copy of the program
-/

section Copy

variable {m : Mem} {segment parentSegment : Word}

theorem forkSegment_other {x : Nat} (h : forall off, x ≠ linear segment off) :
    forkSegment m segment parentSegment x = m x := by
  unfold forkSegment
  rw [farmemcpy_other fun i _ => h _, farmemcpy_other fun i _ => h _]

theorem forkSegment_at (hapart : SegmentsApart parentSegment segment)
    (off : Word) :
    forkSegment m segment parentSegment (linear segment off) =
      m (linear parentSegment off) := by
  have hoff := off.isLt
  have hhalf : (0x8000 : Word).toNat = 32768 := rfl
  unfold forkSegment
  by_cases hlow : off.toNat < 32768
  · have hlower : forall i, i < (0x8000 : Word).toNat ->
        linear segment off ≠ linear segment (offsetFrom 0x8000 i) := by
      intro i hi heq
      have heq := congrArg BitVec.toNat (linear_injective heq)
      unfold offsetFrom at heq
      rw [BitVec.toNat_add, BitVec.toNat_ofNat, hhalf] at heq
      omega
    rw [farmemcpy_other hlower]
    have hcopy := farmemcpy_at m 0x0000 0x0000 0x8000 hapart (i := off.toNat)
      (by omega)
    rw [offsetFrom_zero_toNat] at hcopy
    exact hcopy
  · have hindex : offsetFrom 0x8000 (off.toNat - 32768) = off := by
      apply BitVec.eq_of_toNat_eq
      unfold offsetFrom
      rw [BitVec.toNat_add, BitVec.toNat_ofNat, hhalf]
      omega
    have hcopy := farmemcpy_at
      (farmemcpy m 0x0000 0x0000 0x8000 segment parentSegment) 0x8000 0x8000
      0x8000 hapart (i := off.toNat - 32768) (by omega)
    rw [hindex] at hcopy
    rw [hcopy]
    exact farmemcpy_other fun i _ => hapart _ _

end Copy

/-!
# The kernel stack
-/

def OutsideStack (stack : Word) (x : Nat) : Prop :=
  forall i, i < kernelStackBytes.toNat ->
    x ≠ linear kernelSegment (offsetFrom stack i)

theorem stackWord_eq (stack : Word) (i : Nat) :
    stackWord stack i = offsetFrom stack (2 * i) := rfl

theorem stackWord_succ (stack : Word) (i : Nat) :
    stackWord stack i + 1 = offsetFrom stack (2 * i + 1) := by
  rw [stackWord_eq, offsetFrom_add]
  rfl

section Stack

variable {m : Mem} {stack : Word}

theorem pokeStack_other {i : Nat} {value : Word} {x : Nat}
    (hi : i < kernelStackWords) (hx : OutsideStack stack x) :
    pokeStack m stack i value x = m x := by
  have hsize : kernelStackBytes.toNat = 2 * kernelStackWords := rfl
  apply pokew_other
  · exact hx (2 * i) (by omega)
  · rw [stackWord_succ]
    exact hx (2 * i + 1) (by omega)

theorem peekw_pokeStack_other {i j : Nat} {value : Word}
    (hi : i < kernelStackWords) (hj : j < kernelStackWords) (hne : j ≠ i) :
    peekw (pokeStack m stack i value) kernelSegment (stackWord stack j) =
      peekw m kernelSegment (stackWord stack j) := by
  unfold kernelStackWords at hi hj
  apply peekw_pokew_other
  · rw [stackWord_eq, stackWord_eq]
    intro h
    have h := offsetFrom_injective (by unfold wordCount; omega)
      (by unfold wordCount; omega) h
    omega
  · rw [stackWord_eq, stackWord_succ]
    intro h
    have h := offsetFrom_injective (by unfold wordCount; omega)
      (by unfold wordCount; omega) h
    omega
  · rw [stackWord_succ, stackWord_eq]
    intro h
    have h := offsetFrom_injective (by unfold wordCount; omega)
      (by unfold wordCount; omega) h
    omega

theorem forkStack_other {kernelExit : Word} {x : Nat}
    (hx : OutsideStack stack x) : forkStack m stack kernelExit x = m x := by
  have hwords : kernelStackWords = 2048 := rfl
  have hguard : kernelStackGuardPos < kernelStackWords := by decide
  unfold forkStack
  simp only [pokeStack_other (show kernelStackWords - 1 < kernelStackWords by omega) hx,
    pokeStack_other (show kernelStackWords - 2 < kernelStackWords by omega) hx,
    pokeStack_other (show kernelStackWords - 3 < kernelStackWords by omega) hx,
    pokeStack_other (show kernelStackWords - 4 < kernelStackWords by omega) hx,
    pokeStack_other (show kernelStackWords - 5 < kernelStackWords by omega) hx,
    pokeStack_other hguard hx]
  exact farmemsetw_other fun i hi => hx i hi

structure ForkFrame (m : Mem) (stack kernelExit : Word) : Prop where
  di : peekw m kernelSegment (stackWord stack 2043) = 0
  si : peekw m kernelSegment (stackWord stack 2044) = 0
  ax : peekw m kernelSegment (stackWord stack 2045) = 0
  bp : peekw m kernelSegment (stackWord stack 2046) = 0
  ret : peekw m kernelSegment (stackWord stack 2047) = kernelExit

theorem forkStack_frame (kernelExit : Word) :
    ForkFrame (forkStack m stack kernelExit) stack kernelExit := by
  have hother : forall (m : Mem) (i j : Nat) (value : Word),
      i < 2048 -> j < 2048 -> j ≠ i ->
      peekw (pokeStack m stack i value) kernelSegment (stackWord stack j) =
        peekw m kernelSegment (stackWord stack j) :=
    fun m i j value hi hj hne => peekw_pokeStack_other hi hj hne
  have hself : forall (m : Mem) (i : Nat) (value : Word),
      peekw (pokeStack m stack i value) kernelSegment (stackWord stack i) =
        value := fun m i value => peekw_pokew m _ _ _
  unfold forkStack kernelStackGuardPos
  simp only [show kernelStackWords - 1 = 2047 from rfl,
    show kernelStackWords - 2 = 2046 from rfl,
    show kernelStackWords - 3 = 2045 from rfl,
    show kernelStackWords - 4 = 2044 from rfl,
    show kernelStackWords - 5 = 2043 from rfl]
  constructor
  · rw [hother _ 0 2043 _ (by decide) (by decide) (by decide), hself]
  · rw [hother _ 0 2044 _ (by decide) (by decide) (by decide),
      hother _ 2043 2044 _ (by decide) (by decide) (by decide), hself]
  · rw [hother _ 0 2045 _ (by decide) (by decide) (by decide),
      hother _ 2043 2045 _ (by decide) (by decide) (by decide),
      hother _ 2044 2045 _ (by decide) (by decide) (by decide), hself]
  · rw [hother _ 0 2046 _ (by decide) (by decide) (by decide),
      hother _ 2043 2046 _ (by decide) (by decide) (by decide),
      hother _ 2044 2046 _ (by decide) (by decide) (by decide),
      hother _ 2045 2046 _ (by decide) (by decide) (by decide), hself]
  · rw [hother _ 0 2047 _ (by decide) (by decide) (by decide),
      hother _ 2043 2047 _ (by decide) (by decide) (by decide),
      hother _ 2044 2047 _ (by decide) (by decide) (by decide),
      hother _ 2045 2047 _ (by decide) (by decide) (by decide),
      hother _ 2046 2047 _ (by decide) (by decide) (by decide), hself]

end Stack

/-!
# The memory of the kernel after a fork
-/

section Fork

variable {s : KernelState} {segment stack : Word}

theorem forkMem_other {x : Nat} (hseg : forall off, x ≠ linear segment off)
    (hstack : OutsideStack stack x) : forkMem s segment stack x = s.mem x := by
  unfold forkMem
  rw [pokew_other (hseg _) (hseg _), pokew_other (hseg _) (hseg _),
    forkStack_other hstack, forkSegment_other hseg]

theorem forkMem_copy (hapart : SegmentsApart
      (s.task s.currentTask).segment segment)
    (hkernel : SegmentsApart segment kernelSegment) (off : Word) :
    forkStack (forkSegment s.mem segment (s.task s.currentTask).segment) stack
        s.kernelExit (linear segment off) =
      s.mem (linear (s.task s.currentTask).segment off) := by
  rw [forkStack_other fun i _ => hkernel _ _, forkSegment_at hapart]

/-- The new task's program is its parent's, but for the saved {lit}`AX` and
{lit}`CS`. -/
theorem forkMem_at (hapart : SegmentsApart
      (s.task s.currentTask).segment segment)
    (hkernel : SegmentsApart segment kernelSegment) {off : Word}
    (hax : off ≠ (s.task s.currentTask).userSp + regAX)
    (hax' : off ≠ (s.task s.currentTask).userSp + regAX + 1)
    (hcs : off ≠ (s.task s.currentTask).userSp + regCS)
    (hcs' : off ≠ (s.task s.currentTask).userSp + regCS + 1) :
    peek (forkMem s segment stack) segment off =
      peek s.mem (s.task s.currentTask).segment off := by
  unfold forkMem
  dsimp only
  rw [peek_pokew_other hax hax', peek_pokew_other hcs hcs']
  exact forkMem_copy hapart hkernel off

theorem forkMem_ax :
    peekw (forkMem s segment stack) segment
      ((s.task s.currentTask).userSp + regAX) = 0 :=
  peekw_pokew ..

theorem regCS_apart (userSp : Word) : userSp + regCS ≠ userSp + regAX ∧
    userSp + regCS ≠ userSp + regAX + 1 ∧
    userSp + regCS + 1 ≠ userSp + regAX := by
  unfold regCS regAX
  refine ⟨?_, ?_, ?_⟩ <;> bv_omega

theorem forkMem_cs :
    peekw (forkMem s segment stack) segment
      ((s.task s.currentTask).userSp + regCS) = segment := by
  rcases regCS_apart (s.task s.currentTask).userSp with ⟨h₁, h₂, h₃⟩
  unfold forkMem
  dsimp only
  rw [peekw_pokew_other h₁ h₂ h₃, peekw_pokew]

theorem forkMem_frame (hkernel : SegmentsApart segment kernelSegment) :
    ForkFrame (forkMem s segment stack) stack s.kernelExit := by
  have hframe : ForkFrame (forkStack (forkSegment s.mem segment
      (s.task s.currentTask).segment) stack s.kernelExit) stack s.kernelExit :=
    forkStack_frame s.kernelExit
  have hsame : forall off, peekw (forkMem s segment stack) kernelSegment off =
      peekw (forkStack (forkSegment s.mem segment
        (s.task s.currentTask).segment) stack s.kernelExit) kernelSegment off := by
    intro off
    have hbyte : forall off, forkMem s segment stack (linear kernelSegment off) =
        forkStack (forkSegment s.mem segment (s.task s.currentTask).segment)
          stack s.kernelExit (linear kernelSegment off) := by
      intro off
      unfold forkMem
      rw [pokew_other (hkernel.symm _ _) (hkernel.symm _ _),
        pokew_other (hkernel.symm _ _) (hkernel.symm _ _)]
    exact peekw_congr (hbyte off) (hbyte (off + 1))
  constructor
  · rw [hsame, hframe.di]
  · rw [hsame, hframe.si]
  · rw [hsame, hframe.ax]
  · rw [hsame, hframe.bp]
  · rw [hsame, hframe.ret]

end Fork

end Kernel
end Rmmtos
