import Rmmtos.Library.Loop
import Rmmtos.Library.Store

/-!
# The machine

The 8086 gives every program 16-bit words and a memory of one megabyte that it
reaches through a segment and an offset.  An offset wraps inside its segment.
-/

namespace Rmmtos

open Library

abbrev Word := BitVec 16

abbrev Byte := BitVec 8

/-!
Whether a word or a byte is in a list is decided with these.
-/

instance lawfulWord : LawfulBEq Word := inferInstance

instance lawfulByte : LawfulBEq Byte := inferInstance

/-- The number of different words, a bound on the turns of a loop whose state
is one word: past it the loop has come back to a state it has been in. -/
def wordCount : Nat := 65536

/-- The segment that holds the kernel's code, data, heap and stacks. -/
def kernelSegment : Word := 0x0050

abbrev Mem := Nat -> Byte

def linear (seg off : Word) : Nat :=
  (seg.toNat * 16 + off.toNat) % 0x100000

def peek (m : Mem) (seg off : Word) : Byte :=
  m (linear seg off)

def poke (m : Mem) (seg off : Word) (value : Byte) : Mem :=
  Function.update m (linear seg off) value

def peekw (m : Mem) (seg off : Word) : Word :=
  peek m seg (off + 1) ++ peek m seg off

def pokew (m : Mem) (seg off value : Word) : Mem :=
  poke (poke m seg off (value.extractLsb' 0 8)) seg (off + 1)
    (value.extractLsb' 8 8)

/-- The `i`-th offset from a base, as {lit}`rep` steps its index registers. -/
def offsetFrom (base : Word) (i : Nat) : Word :=
  base + BitVec.ofNat 16 i

def farmemcpy (m : Mem) (dest src count destseg srcseg : Word) : Mem :=
  copyRun (fun i => linear destseg (offsetFrom dest i))
    (fun i => linear srcseg (offsetFrom src i)) count.toNat m

def memcpy (m : Mem) (dest src count : Word) : Mem :=
  farmemcpy m dest src count kernelSegment kernelSegment

/-- The byte that a run of stores of one word leaves at place {lit}`i`. -/
def wordByte (value : Word) (i : Nat) : Byte :=
  if i % 2 = 0 then value.extractLsb' 0 8 else value.extractLsb' 8 8

def farmemsetw (m : Mem) (dest value count seg : Word) : Mem :=
  writeRun (fun i => linear seg (offsetFrom dest i)) (wordByte value)
    (2 * count.toNat) m

def memsetw (m : Mem) (dest value count : Word) : Mem :=
  farmemsetw m dest value count kernelSegment

/-!
# Kernel faults

A kernel function returns, panics, or loops for ever.
-/

inductive Panic where
  | outOfMem
  | invalidFree
  | mallocBitmap
  | tooLargeShr64
  | noTasksToRun
  | taskAllocFailed
  | alarmAlloc
  | irqWaitAlloc
  | sleepingSleeping
  | secondWakeup
  | wakeupOnExited
  | irqIndexOutOfRange
  | addingNodeToTwoDirs
  | nonDir
  | nonFile
  | notRead
  | notWrite
deriving DecidableEq, Repr

inductive Stop where
  | panic (p : Panic)
  | hang
  | divideError
deriving DecidableEq, Repr

abbrev Result (α : Type) := Except Stop α

/-- A call on one part of a state, with the part put back. -/
def Result.within (put : σ -> τ) (r : Result (α × σ)) : Result (α × τ) :=
  r >>= fun x => .ok (x.1, put x.2)

/-- The same for a call that returns nothing. -/
def Result.into (put : σ -> τ) (r : Result σ) : Result τ :=
  r >>= fun x => .ok (put x)

@[simp] theorem Result.within_ok (put : σ -> τ) (x : α × σ) :
    Result.within put (.ok x) = .ok (x.1, put x.2) := rfl

def panic (p : Panic) : Result α :=
  .error (.panic p)

/-- The quotient of two words; a zero divisor raises interrupt zero. -/
def divideWords (a b : Word) : Result Word :=
  if b = 0 then .error .divideError else .ok (a / b)

end Rmmtos
