import Rmmtos.Machine
import Rmmtos.Library.LinkedList

/-!
# The user heap

The allocator of {lit}`init/memory.c`: a doubly linked list of block headers
inside the pool itself.  Everything is an offset in the program's own segment,
and the null pointer is offset zero.
-/

namespace Rmmtos
namespace Init

open Library

abbrev UserMem := Word -> Byte

def readw (m : UserMem) (a : Word) : Word :=
  m (a + 1) ++ m a

def writew (m : UserMem) (a value : Word) : UserMem :=
  Function.update (Function.update m a (value.extractLsb' 0 8)) (a + 1)
    (value.extractLsb' 8 8)

/-!
# Block headers

{lit}`struct BlockHeader`: two pointers and the bit-field {lit}`free`, which is
the lowest bit of the third word.
-/

def headerSize : Word := 6

def prev (m : UserMem) (block : Word) : Word := readw m block

def next (m : UserMem) (block : Word) : Word := readw m (block + 2)

def isFree (m : UserMem) (block : Word) : Bool :=
  (m (block + 4)).getLsbD 0

def setPrev (m : UserMem) (block value : Word) : UserMem :=
  writew m block value

def setNext (m : UserMem) (block value : Word) : UserMem :=
  writew m (block + 2) value

def setFree (m : UserMem) (block : Word) (free : Bool) : UserMem :=
  Function.update m (block + 4)
    (if free then m (block + 4) ||| 1#8 else m (block + 4) &&& ~~~1#8)

/-!
# The allocator
-/

structure UserHeap where
  mem : UserMem
  first : Word
  overblock : Word

/-- Go back while the block before is there and free. -/
def firstFree (m : UserMem) (block : Word) : Result Word :=
  whileLoop .hang
    (fun b => prev m b != 0 && isFree m (prev m b))
    (fun b => .ok (prev m b))
    wordCount block

/-- Go on while the block is free. -/
def lastFree (m : UserMem) (overblock block : Word) : Result Word :=
  whileLoop .hang
    (fun b => b != overblock && isFree m b)
    (fun b => .ok (next m b))
    wordCount block

def mergeFreeBlocks (h : UserHeap) (block : Word) : Result UserHeap := do
  let firstBlock ← firstFree h.mem block
  let lastBlock ← lastFree h.mem h.overblock block
  .ok { h with
    mem := setPrev (setNext h.mem firstBlock lastBlock) lastBlock firstBlock }

def clearMemory (m : UserMem) (ptr size : Word) : UserMem :=
  fillRun (offsetFrom ptr) 0 size.toNat m

def mallocInit (m : UserMem) (start finish : Word) : UserHeap :=
  let overblock := finish + 1
  let size := overblock - start - 1
  let m := clearMemory m start size
  let m := setPrev m start 0
  let m := setNext m start overblock
  let m := setFree m start true
  { mem := m, first := start, overblock := overblock }

inductive Walk where
  | visit (curr : Word)
  | found (curr : Word)
  | ended
deriving DecidableEq, Repr

def Walk.running : Walk -> Bool
  | visit _ => true
  | _ => false

/-- The body of the loop and its condition {lit}`curr=curr->next`. -/
def walkStep (h : UserHeap) (wanted : Word -> Bool) : Walk -> Walk
  | .visit curr =>
      if curr == h.overblock then .ended
      else if wanted curr then .found curr
      else if next h.mem curr == 0 then .ended
      else .visit (next h.mem curr)
  | w => w

/-- The first block of the list that is wanted. -/
def walkBlocks (h : UserHeap) (wanted : Word -> Bool) : Result (Option Word) :=
  whileLoop .hang Walk.running (fun w => .ok (walkStep h wanted w)) wordCount
      (.visit h.first) >>= fun
    | .found curr => .ok (some curr)
    | _ => .ok none

def payloadSize (m : UserMem) (block : Word) : Word :=
  next m block - block - headerSize

def setupHeader (m : UserMem) (newHead next prev : Word) : UserMem :=
  setFree (setPrev (setNext m newHead next) newHead prev) newHead true

def setupNext (m : UserMem) (overblock curr newHead : Word) : UserMem :=
  if next m curr != overblock then setPrev m (next m curr) newHead else m

def splitBlock (h : UserHeap) (curr size : Word) : UserMem :=
  if headerSize + size < payloadSize h.mem curr then
    let newHead := curr + headerSize + size
    let m := setupHeader h.mem newHead (next h.mem curr) curr
    let m := setupNext m h.overblock curr newHead
    setNext m curr newHead
  else h.mem

def allocateMemory (h : UserHeap) (size : Word) : Result (Word × UserHeap) := do
  match ← walkBlocks h
      (fun b => isFree h.mem b && decide (size ≤ payloadSize h.mem b)) with
  | some curr =>
      .ok (curr + headerSize,
        { h with mem := setFree (splitBlock h curr size) curr false })
  | none => .ok (0, h)

def freeMemory (h : UserHeap) (block : Word) : Result UserHeap := do
  match ← walkBlocks h (fun b => b == block - headerSize) with
  | some curr => mergeFreeBlocks { h with mem := setFree h.mem curr true } curr
  | none => .ok h

end Init
end Rmmtos
