import Rmmtos.Boot.Loader
import Rmmtos.Library.Retries

/-!
# The files that are loaded at boot

All of {lit}`boot/boot.s` from its first read on: it reads the allocation table
and the root directory, looks for three files and puts each of them in its
segment.  The drive may fail, and the loader has a number of resets for that.
-/

namespace Rmmtos
namespace Boot

open Library

/-!
# The drive
-/

/-- A disk in a drive.  The {lit}`n`-th request to the drive may fail, and what
it leaves in the buffer is not what it was to read. -/
structure Drive where
  disk : Disk
  fault : Nat -> Option Disk

def Drive.Fails (d : Drive) (n : Nat) : Prop :=
  (d.fault n).isSome = true

instance (d : Drive) : DecidablePred d.Fails :=
  fun n => inferInstanceAs (Decidable ((d.fault n).isSome = true))

/-- The memory, {lit}`resetsleft`, and how many requests the drive has had. -/
structure LoadState where
  mem : Mem
  resetsLeft : Byte
  requests : Nat

/-- The loader prints a message and halts, or it does not come to an end. -/
inductive LoadStop where
  | missing
  | error
  | hang
deriving DecidableEq, Repr

abbrev Load (α : Type) := Except LoadStop α

/-!
# Reading blocks
-/

/-- Interrupt 13h with the carry flag. -/
def readRequest (d : Drive) (al ch dh cl : Byte) (es bx : Word) (s : LoadState) :
    Bool × LoadState :=
  match d.fault s.requests with
  | none =>
      (false, { s with
        mem := biosRead d.disk s.mem al ch dh cl es bx
        requests := s.requests + 1 })
  | some junk =>
      (true, { s with
        mem := writeRun (fun i => linear es (offsetFrom bx i)) junk
          (512 * al.toNat) s.mem
        requests := s.requests + 1 })

/-- Behind a failed request: reset the drive and try again. -/
def retryTurn (request : LoadState -> Bool × LoadState) (x : Bool × LoadState) :
    Load (Bool × LoadState) :=
  let resetsLeft := x.2.resetsLeft - 1
  if resetsLeft = 0 then .error .error
  else .ok (request { x.2 with resetsLeft := resetsLeft })

/-- {lit}`read_blocks` of a drive that may fail. -/
def readBlocksOn (d : Drive) (ax es bx cx : Word) (s : LoadState) :
    Load LoadState :=
  let cl := (ax % sectorsPerTrack).setWidth 8 + 1
  let ax := ax / sectorsPerTrack
  let dh := (ax % headCount).setWidth 8
  let ch := (ax / headCount).setWidth 8
  let request := readRequest d (cx.setWidth 8) ch dh cl es bx
  whileLoop .hang (fun x => x.1) (retryTurn request) 256 (request s) >>= fun x =>
    .ok x.2

/-!
# Looking for a file
-/

/-- {lit}`dir`, the place of the root directory behind the allocation table. -/
def dir : Word := fat + sectorsPerFat * 0x200

def loadRootDir (d : Drive) (s : LoadState) : Load LoadState :=
  readBlocksOn d (reservedSectorCount + fatSectorCount) bootSegment dir
    rootDirSectorCount s

/-- The comparison of the eleven bytes of a name with an entry. -/
def entryMatches (m : Mem) (name : List Byte) (ax : Word) : Bool :=
  (List.range 11).all fun i =>
    name.getD i 0 == peek m bootSegment (offsetFrom ax i)

/-- {lit}`check_entry`, with the count of the remaining entries. -/
def checkEntry (m : Mem) (name : List Byte) : Nat -> Word -> Option Word
  | 0, _ => none
  | n + 1, ax =>
      if entryMatches m name ax then some ax else checkEntry m name n (ax + 32)

def searchDir (m : Mem) (name : List Byte) : Option Word :=
  checkEntry m name rootEntryCount.toNat dir

/-!
# Loading files
-/

structure FileLoad where
  ax : Word
  es : Word
  state : LoadState

def readTurn (d : Drive) (x : FileLoad) : Load FileLoad :=
  readBlocksOn d (clusterLba x.ax) x.es 0 (sectorsPerCluster.setWidth 16) x.state
    >>= fun s => .ok {
      ax := nextCluster s.mem x.ax
      es := x.es + bytesPerSector * sectorsPerCluster.setWidth 16 / 16
      state := s }

/-- {lit}`read_file`, for the directory entry at {lit}`bx`. -/
def readFile (turns : Nat) (d : Drive) (bx es : Word) (s : LoadState) :
    Load LoadState := do
  let x ← readTurn d ⟨peekw s.mem bootSegment (bx + 26), es, s⟩
  let x ← whileLoop .hang (fun x => decide (x.ax < 0xff8)) (readTurn d) turns x
  .ok x.state

structure BootFile where
  name : List Byte
  segment : Word

def ascii (s : String) : List Byte :=
  s.toList.map fun c => BitVec.ofNat 8 c.toNat

def kernelFile : BootFile := ⟨ascii "KERNEL  BIN", 0x0050⟩

def initFile : BootFile := ⟨ascii "INIT    BIN", 0x1050⟩

def symbolsFile : BootFile := ⟨ascii "SYMBOLS BIN", 0x2050⟩

def files : List BootFile := [kernelFile, initFile, symbolsFile]

def loadFile (turns : Nat) (d : Drive) (f : BootFile) (s : LoadState) :
    Load LoadState :=
  match searchDir s.mem f.name with
  | some bx => readFile turns d bx f.segment s
  | none => .error .missing

/-- {lit}`load_files`, for any list of files. -/
def loadFiles (turns : Nat) (d : Drive) (fs : List BootFile) (s : LoadState) :
    Load LoadState :=
  fs.foldlM (fun s f => loadFile turns d f s) s

/-- The loader up to its jump to the kernel. -/
def load (turns : Nat) (d : Drive) (m : Mem) : Load LoadState := do
  let s ← readBlocksOn d reservedSectorCount bootSegment fat sectorsPerFat
    ⟨m, 25, 0⟩
  let s ← loadRootDir d s
  loadFiles turns d files s

/-!
# Reads of a drive that may fail
-/

section Reads

variable {d : Drive} {k : Nat} {s : LoadState}

/-- {lit}`k` reads have been done, and the loader has its other resets left. -/
def Ready (d : Drive) (k : Nat) (s : LoadState) : Prop :=
  Budgeted d.Fails 25 k s.requests s.resetsLeft.toNat

/-- The faults of a drive do not show as long as the loader has resets. -/
abbrev Reads (d : Drive) (k : Nat) {α : Type} (good : Load α -> Prop)
    (x : Load α) : Prop :=
  Outcome d.Fails 25 k LoadStop.error good x

theorem biosRead_over {disk : Disk} {m : Mem} {al ch dh cl : Byte} {es bx : Word}
    (junk : Nat -> Byte) :
    biosRead disk (writeRun (fun i => linear es (offsetFrom bx i)) junk
      (512 * al.toNat) m) al ch dh cl es bx = biosRead disk m al ch dh cl es bx :=
  writeRun_over _ _ _ _ m

def failed (al : Byte) (es bx : Word) (junk : Disk) (s : LoadState) : LoadState :=
  { s with
    mem := writeRun (fun i => linear es (offsetFrom bx i)) junk (512 * al.toNat)
      s.mem
    requests := s.requests + 1 }

theorem readRequest_fails {al ch dh cl : Byte} {es bx : Word} {junk : Disk}
    (h : d.fault s.requests = some junk) :
    readRequest d al ch dh cl es bx s = (true, failed al es bx junk s) := by
  unfold readRequest
  rw [h]
  rfl

theorem readRequest_fine {al ch dh cl : Byte} {es bx : Word}
    (h : d.fault s.requests = none) :
    readRequest d al ch dh cl es bx s = (false, { s with
      mem := biosRead d.disk s.mem al ch dh cl es bx
      requests := s.requests + 1 }) := by
  unfold readRequest
  rw [h]

theorem retries_outcome {al ch dh cl : Byte} {es bx : Word} {m : Mem} {n : Nat}
    (hs : Ready d k s) (hm : biosRead d.disk s.mem al ch dh cl es bx = m)
    (hn : s.resetsLeft.toNat ≤ n) :
    Reads d (k + 1) (Gives fun x => Ready d (k + 1) x.2 ∧ x.2.mem = m)
      (whileLoop .hang (fun x => x.1)
        (retryTurn (readRequest d al ch dh cl es bx)) n
        (readRequest d al ch dh cl es bx s)) := by
  induction n generalizing s with
  | zero => exact absurd hs.pos (by omega)
  | succ n ih =>
      cases hfault : d.fault s.requests with
      | none =>
          have hfine : ¬ d.Fails s.requests := by
            unfold Drive.Fails
            rw [hfault]
            exact Bool.false_ne_true
          have hnext := hs.goesWell hfine
          rw [readRequest_fine hfault]
          exact Or.inr ⟨hnext.not_spent, _, whileLoop_done _ rfl, hnext, hm⟩
      | some junk =>
          have hfails : d.Fails s.requests := by
            unfold Drive.Fails
            rw [hfault]
            rfl
          have hpos := hs.pos
          rw [readRequest_fails hfault]
          by_cases hlast : s.resetsLeft - 1 = 0
          · have hone : s.resetsLeft.toNat = 1 := by bv_omega
            exact Or.inl ⟨hs.spends hfails hone,
              whileLoop_fail n rfl (if_pos hlast)⟩
          · have hne : s.resetsLeft.toNat ≠ 1 := fun hone => hlast (by bv_omega)
            have hleft : (s.resetsLeft - 1).toNat = s.resetsLeft.toNat - 1 := by
              bv_omega
            have hnext := hs.again hfails hne
            rw [← hleft] at hnext
            have hturn : retryTurn (readRequest d al ch dh cl es bx)
                (true, failed al es bx junk s) = .ok (readRequest d al ch dh cl es bx
                  { failed al es bx junk s with resetsLeft := s.resetsLeft - 1 }) :=
              if_neg hlast
            rw [whileLoop_turn n rfl hturn]
            refine ih hnext ((biosRead_over junk).trans hm) ?_
            change (s.resetsLeft - 1).toNat ≤ n
            omega

/-- Faults do not change what is read. -/
theorem readBlocksOn_outcome (ax es bx cx : Word) (hs : Ready d k s) :
    Reads d (k + 1) (Gives fun t => Ready d (k + 1) t ∧
        t.mem = readBlocks d.disk s.mem ax es bx cx)
      (readBlocksOn d ax es bx cx s) := by
  have hleft := s.resetsLeft.isLt
  have hretries := @retries_outcome d k s (cx.setWidth 8)
    ((ax / sectorsPerTrack / headCount).setWidth 8)
    ((ax / sectorsPerTrack % headCount).setWidth 8)
    ((ax % sectorsPerTrack).setWidth 8 + 1) es bx _ 256 hs rfl (by omega)
  refine hretries.bind (Nat.le_refl _) fun x hx => ?_
  exact Or.inr ⟨hx.1.not_spent, x.2, rfl, hx⟩

end Reads

end Boot
end Rmmtos
