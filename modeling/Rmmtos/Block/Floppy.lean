import Rmmtos.Kernel.Uint64

/-!
# The floppy driver

{lit}`floppy_read` of {lit}`block/floppy.c`.  The driver writes bytes to the
ports of the controller and reads what the controller answers.  The answers are
any sequence of bytes.
-/

namespace Rmmtos
namespace Kernel

open Library

def ioDor : Word := 0x3f2
def ioDsr : Word := 0x3f4
def ioMsr : Word := 0x3f4
def ioFifo : Word := 0x3f5
def ioCcr : Word := 0x3f7

def cmdSense : Byte := 0x08
def cmdSpecify : Byte := 0x03
def cmdConfigure : Byte := 0x13
def cmdRecalibrate : Byte := 0x07
def cmdSeek : Byte := 0x0f
def cmdRead : Byte := 0x46
def cmdWrite : Byte := 0x45

/-- The bytes that the ports will give, how many of them have been read, and the
bytes that have been written to the ports.  A C function without a
{lit}`return` leaves an unknown value at each place of the run. -/
structure Controller where
  answer : Nat -> Byte
  reads : Nat
  outs : List (Word × Byte)
  unset : Nat -> Bool

abbrev Driver := StateM Controller

def outb (port : Word) (value : Byte) : Driver Unit :=
  fun f => ((), { f with outs := f.outs ++ [(port, value)] })

def inb (_ : Word) : Driver Byte :=
  fun f => (f.answer f.reads, { f with reads := f.reads + 1 })

/-!
# Single accesses
-/

/-- Wait until the highest two bits of the status are as they should be, for at
most {lit}`n` reads of it. -/
def waitStatus (want : Byte) : Nat -> Driver Bool
  | 0 => pure false
  | n + 1 => do
      let msr ← inb ioMsr
      if msr &&& 0xc0 = want then pure true else waitStatus want n

/-- The loops end when the counter is above 30 after another read. -/
def statusReads : Nat := 32

def floppyWriteCmd (byte : Byte) : Driver Bool := do
  if ← waitStatus 0x80 statusReads then
    outb ioFifo byte
    pure true
  else pure false

/-- No caller uses the byte that is read. -/
def floppyReadResult : Driver Bool := do
  if ← waitStatus 0xc0 statusReads then
    let _ ← inb ioFifo
    pure true
  else pure false

/-!
# Commands

A function that sleeps waits for the interrupt, whether or not its command has
been accepted.
-/

def floppyReset : Driver Bool := do
  outb ioDsr 0x80
  pure true

/-- The function has no {lit}`return`. -/
def floppySetDataRate : Driver Bool := do
  outb ioCcr 0x00
  fun f => (f.unset f.outs.length, f)

def floppySense : Driver Bool :=
  floppyWriteCmd cmdSense <&&> floppyReadResult <&&> floppyReadResult

/-- Only the bit that disables polling is set. -/
def floppyConfigure : Driver Bool :=
  let b2 : Byte := 1 <<< 4
  floppyWriteCmd cmdConfigure <&&> floppyWriteCmd 0 <&&> floppyWriteCmd b2 <&&>
    floppyWriteCmd 0

def stepRate : Byte := 8
def headLoadTime : Byte := 5
def headUnloadTime : Byte := 0
def gapLength : Byte := 0x1b

def floppySpecify : Driver Bool :=
  floppyWriteCmd cmdSpecify <&&>
    floppyWriteCmd (stepRate <<< 4 ||| (headUnloadTime &&& 0xf)) <&&>
    floppyWriteCmd (headLoadTime <<< 1)

def floppySelectDrive : Driver Bool := do
  outb ioDor 0x1c
  pure true

def floppyRecalibrate : Driver Bool :=
  (floppyWriteCmd cmdRecalibrate <&&> floppyWriteCmd 0) <&&> floppySense

def floppySeek (cylinder head : Byte) : Driver Bool :=
  (floppyWriteCmd cmdSeek <&&> floppyWriteCmd (0 ||| (head &&& 0x1) <<< 2) <&&>
    floppyWriteCmd cylinder) <&&> floppySense

inductive Dir where
  | write
  | read
deriving DecidableEq, Repr

def Dir.bits : Dir -> Byte
  | .write => 0x2
  | .read => 0x1

def kernelBase : Word := 0x500

def floppySetDma (buffer count : Word) (dir : Dir) : Driver Bool := do
  let buffer := buffer + kernelBase
  outb 0x0a (0x4 ||| 0x2)
  outb 0x0c 0xff
  outb 0x04 (buffer.extractLsb' 0 8)
  outb 0x04 (buffer.extractLsb' 8 8)
  outb 0x81 0
  outb 0x0c 0xff
  outb 0x05 (count.extractLsb' 0 8)
  outb 0x05 (count.extractLsb' 8 8)
  outb 0x0b (0x01 <<< 6 ||| dir.bits <<< 2 ||| 0x02)
  outb 0x0a 0x2
  pure true

def floppyTransfer (dir : Dir) (cyl head sec : Byte) : Driver Bool :=
  let command := if dir = .write then cmdWrite else cmdRead
  (floppyWriteCmd command <&&> floppyWriteCmd ((head &&& 0x1) <<< 2) <&&>
    floppyWriteCmd cyl <&&> floppyWriteCmd head <&&> floppyWriteCmd sec <&&>
    floppyWriteCmd 0x02 <&&> floppyWriteCmd 1 <&&> floppyWriteCmd gapLength <&&>
    floppyWriteCmd 0xff) <&&>
  floppyReadResult <&&> floppyReadResult <&&> floppyReadResult <&&>
    floppyReadResult <&&> floppyReadResult <&&> floppyReadResult <&&>
    floppyReadResult

/-- The results of the sensing are those of the four drives. -/
def floppyInit2 : Driver Bool :=
  floppyReset <&&>
    (floppySense <&&> floppySense <&&> floppySense <&&> floppySense) <&&>
    floppyConfigure <&&> floppySpecify

/-!
# Reading a block
-/

def sec : Word := 18
def hd : Word := 2

def secSz : Word := 1 <<< 9

/-- One turn of the loop.  The numbers are narrowed when they are passed on. -/
def floppyReadTurn (buffer cylinder head sector : Word) : Driver Bool :=
  floppyInit2 <&&> floppySelectDrive <&&> floppySpecify <&&> floppySetDataRate <&&>
    floppyRecalibrate <&&> floppySeek (cylinder.setWidth 8) (head.setWidth 8) <&&>
    floppySetDma buffer secSz .read <&&>
    floppyTransfer .read (cylinder.setWidth 8) (head.setWidth 8) (sector.setWidth 8)

/-- At most {lit}`n` turns of the loop, which ends after a turn that succeeds. -/
def floppyReadTurns (buffer cylinder head sector : Word) : Nat -> Driver Bool
  | 0 => pure false
  | n + 1 => do
      if ← floppyReadTurn buffer cylinder head sector then pure true
      else floppyReadTurns buffer cylinder head sector n

def floppyRead (buffer : Word) (block : Uint64) (n : Nat) : Driver Bool :=
  let lba := block.i0
  let cylinder := lba / (sec * hd)
  let head := (lba / sec) % hd
  let sector := lba % sec + 1
  floppyReadTurns buffer cylinder head sector n

/-!
# What is written to the ports

A function stops at the first byte that the controller does not accept, so it
writes the beginning of a fixed sequence, or all of it when it succeeds.
-/

def Sends (x : Driver Bool) (outs : List (Word × Byte)) : Prop :=
  forall f, exists part, (x f).2.outs = f.outs ++ part ∧ part <+: outs ∧
    ((x f).1 = true -> part = outs)

section Sends

variable {x y : Driver Bool} {xs ys : List (Word × Byte)}

theorem and_run (x y : Driver Bool) (f : Controller) :
    (x <&&> y) f = if (x f).1 = true then y (x f).2 else (false, (x f).2) := by
  change (match (x f).1 with | true => y | false => pure (x f).1) (x f).2 = _
  cases (x f).1 with
  | true => rfl
  | false => rfl

theorem Sends.and (hx : Sends x xs) (hy : Sends y ys) :
    Sends (x <&&> y) (xs ++ ys) := by
  intro f
  rcases hx f with ⟨part, houts, hpart, htrue⟩
  rw [and_run]
  split
  · next hres =>
      rcases hy (x f).2 with ⟨part', houts', hpart', htrue'⟩
      refine ⟨xs ++ part', ?_, (List.prefix_append_right_inj xs).mpr hpart', ?_⟩
      · rw [houts', houts, htrue hres, List.append_assoc]
      · intro h
        rw [htrue' h]
  · exact ⟨part, houts, hpart.trans (List.prefix_append xs ys), nofun⟩

/-- A function that has written all of its sequence returns true. -/
theorem sends_all (h : forall f, (x f).1 = true ∧ (x f).2.outs = f.outs ++ xs) :
    Sends x xs :=
  fun f => ⟨xs, (h f).2, List.prefix_refl xs, fun _ => rfl⟩

theorem waitStatus_outs (want : Byte) (n : Nat) (f : Controller) :
    (waitStatus want n f).2.outs = f.outs := by
  induction n generalizing f with
  | zero => rfl
  | succ n ih =>
      unfold waitStatus
      change ((if f.answer f.reads &&& 0xc0 = want then (pure true : Driver Bool)
        else waitStatus want n) { f with reads := f.reads + 1 }).2.outs = _
      split
      · rfl
      · exact ih _

theorem sends_after_wait {want : Byte} {n : Nat}
    (h : forall f, (x f).1 = true ∧ (x f).2.outs = f.outs ++ xs) :
    Sends (do if ← waitStatus want n then x else pure false) xs := by
  intro f
  have houts := waitStatus_outs want n f
  change exists part, ((if (waitStatus want n f).1 = true then x else pure false)
      (waitStatus want n f).2).2.outs = _ ∧ _ ∧
    (((if (waitStatus want n f).1 = true then x else pure false)
      (waitStatus want n f).2).1 = true -> _)
  split
  · refine ⟨xs, ?_, List.prefix_refl xs, fun _ => rfl⟩
    rw [(h _).2, houts]
  · exact ⟨[], by rw [List.append_nil]; exact houts, List.nil_prefix, nofun⟩

theorem sends_writeCmd (byte : Byte) :
    Sends (floppyWriteCmd byte) [(ioFifo, byte)] :=
  sends_after_wait fun _ => ⟨rfl, rfl⟩

theorem sends_readResult : Sends floppyReadResult [] :=
  sends_after_wait fun f => ⟨rfl, (List.append_nil f.outs).symm⟩

end Sends

/-!
# The commands of a turn
-/

structure Sector where
  cylinder : Byte
  head : Byte
  sector : Byte
deriving DecidableEq, Repr

def commandOuts (bytes : List Byte) : List (Word × Byte) :=
  bytes.map fun byte => (ioFifo, byte)

def initOuts : List (Word × Byte) :=
  (ioDsr, 0x80) :: commandOuts [cmdSense, cmdSense, cmdSense, cmdSense,
    cmdConfigure, 0, 0x10, 0, cmdSpecify, 0x80, 0x0a]

def driveOuts : List (Word × Byte) :=
  (ioDor, 0x1c) :: commandOuts [cmdSpecify, 0x80, 0x0a] ++
    (ioCcr, 0x00) :: commandOuts [cmdRecalibrate, 0, cmdSense]

def seekOuts (t : Sector) : List (Word × Byte) :=
  commandOuts [cmdSeek, 0 ||| (t.head &&& 0x1) <<< 2, t.cylinder, cmdSense]

def dmaOuts (buffer : Word) : List (Word × Byte) :=
  [(0x0a, 0x06), (0x0c, 0xff), (0x04, (buffer + kernelBase).extractLsb' 0 8),
    (0x04, (buffer + kernelBase).extractLsb' 8 8), (0x81, 0), (0x0c, 0xff),
    (0x05, 0x00), (0x05, 0x02), (0x0b, 0x46), (0x0a, 0x02)]

def transferOuts (t : Sector) : List (Word × Byte) :=
  commandOuts [cmdRead, (t.head &&& 0x1) <<< 2, t.cylinder, t.head, t.sector, 0x02,
    1, gapLength, 0xff]

def prepareOuts (buffer : Word) (t : Sector) : List (Word × Byte) :=
  initOuts ++ (driveOuts ++ (seekOuts t ++ dmaOuts buffer))

def turnOuts (buffer : Word) (t : Sector) : List (Word × Byte) :=
  prepareOuts buffer t ++ transferOuts t

section Turns

variable {buffer cylinder head sector : Word}

theorem sends_sense : Sends floppySense (commandOuts [cmdSense]) :=
  (sends_writeCmd _).and (sends_readResult.and sends_readResult)

theorem sends_specify :
    Sends floppySpecify (commandOuts [cmdSpecify, 0x80, 0x0a]) :=
  (sends_writeCmd _).and ((sends_writeCmd _).and (sends_writeCmd _))

theorem sends_configure :
    Sends floppyConfigure (commandOuts [cmdConfigure, 0, 0x10, 0]) :=
  (sends_writeCmd _).and
    ((sends_writeCmd _).and ((sends_writeCmd _).and (sends_writeCmd _)))

theorem sends_reset : Sends floppyReset [(ioDsr, 0x80)] :=
  sends_all fun _ => ⟨rfl, rfl⟩

theorem sends_init2 : Sends floppyInit2 initOuts :=
  sends_reset.and ((sends_sense.and (sends_sense.and (sends_sense.and sends_sense))).and
    (sends_configure.and sends_specify))

theorem sends_selectDrive : Sends floppySelectDrive [(ioDor, 0x1c)] :=
  sends_all fun _ => ⟨rfl, rfl⟩

/-- The byte is written whatever the caller takes as the result. -/
theorem sends_setDataRate : Sends floppySetDataRate [(ioCcr, 0x00)] :=
  fun _ => ⟨[(ioCcr, 0x00)], rfl, List.prefix_refl _, fun _ => rfl⟩

theorem sends_recalibrate :
    Sends floppyRecalibrate (commandOuts [cmdRecalibrate, 0, cmdSense]) :=
  ((sends_writeCmd _).and (sends_writeCmd _)).and sends_sense

theorem sends_seek (t : Sector) :
    Sends (floppySeek t.cylinder t.head) (seekOuts t) :=
  ((sends_writeCmd _).and ((sends_writeCmd _).and (sends_writeCmd _))).and sends_sense

theorem sends_setDma (buffer : Word) :
    Sends (floppySetDma buffer secSz .read) (dmaOuts buffer) := by
  apply sends_all
  intro f
  refine ⟨rfl, ?_⟩
  change f.outs ++ [_] ++ [_] ++ [_] ++ [_] ++ [_] ++ [_] ++ [_] ++ [_] ++ [_] ++ [_] = _
  simp only [List.append_assoc, List.cons_append, List.nil_append]
  rfl

theorem sends_transfer (t : Sector) :
    Sends (floppyTransfer .read t.cylinder t.head t.sector) (transferOuts t) := by
  have hresults := sends_readResult.and (sends_readResult.and (sends_readResult.and
    (sends_readResult.and (sends_readResult.and (sends_readResult.and
      sends_readResult)))))
  have hcommand := (sends_writeCmd cmdRead).and
    ((sends_writeCmd ((t.head &&& 0x1) <<< 2)).and ((sends_writeCmd t.cylinder).and
      ((sends_writeCmd t.head).and ((sends_writeCmd t.sector).and
        ((sends_writeCmd 0x02).and ((sends_writeCmd 1).and
          ((sends_writeCmd gapLength).and (sends_writeCmd 0xff))))))))
  exact hcommand.and hresults

/-- The sector that the numbers name when they are passed on. -/
def narrowed (cylinder head sector : Word) : Sector :=
  ⟨cylinder.setWidth 8, head.setWidth 8, sector.setWidth 8⟩

theorem sends_readTurn (buffer cylinder head sector : Word) :
    Sends (floppyReadTurn buffer cylinder head sector)
      (turnOuts buffer (narrowed cylinder head sector)) := by
  have hsends := sends_init2.and (sends_selectDrive.and (sends_specify.and
    (sends_setDataRate.and (sends_recalibrate.and
      ((sends_seek (narrowed cylinder head sector)).and ((sends_setDma buffer).and
        (sends_transfer (narrowed cylinder head sector))))))))
  exact hsends

/-- Every turn of the loop writes the same, as far as it comes, and the last one
all of it when the loop ends. -/
theorem readTurns_outs (n : Nat) (f : Controller) :
    exists parts : List (List (Word × Byte)),
      (floppyReadTurns buffer cylinder head sector n f).2.outs =
          f.outs ++ parts.flatten ∧
        (forall part, part ∈ parts ->
          part <+: turnOuts buffer (narrowed cylinder head sector)) ∧
        ((floppyReadTurns buffer cylinder head sector n f).1 = true ->
          exists before, parts =
            before ++ [turnOuts buffer (narrowed cylinder head sector)]) := by
  induction n generalizing f with
  | zero => exact ⟨[], (List.append_nil f.outs).symm, nofun, nofun⟩
  | succ n ih =>
      rcases sends_readTurn buffer cylinder head sector f with
        ⟨part, houts, hpart, htrue⟩
      change exists parts : List (List (Word × Byte)),
        ((if (floppyReadTurn buffer cylinder head sector f).1 = true then pure true
          else floppyReadTurns buffer cylinder head sector n)
            (floppyReadTurn buffer cylinder head sector f).2).2.outs = _ ∧ _ ∧
        (((if (floppyReadTurn buffer cylinder head sector f).1 = true then pure true
          else floppyReadTurns buffer cylinder head sector n)
            (floppyReadTurn buffer cylinder head sector f).2).1 = true -> _)
      split
      · next hres =>
          refine ⟨[part], ?_, ?_, fun _ => ⟨[], by rw [htrue hres]; rfl⟩⟩
          · rw [List.flatten_singleton]
            exact houts
          · intro part' hmem
            rw [List.mem_singleton.mp hmem]
            exact hpart
      · rcases ih (floppyReadTurn buffer cylinder head sector f).2 with
          ⟨parts, houts', hparts, hlast⟩
        refine ⟨part :: parts, ?_, ?_, ?_⟩
        · rw [houts', houts, List.flatten_cons, List.append_assoc]
        · exact List.forall_mem_cons.mpr ⟨hpart, hparts⟩
        · intro hres
          rcases hlast hres with ⟨before, hbefore⟩
          exact ⟨part :: before, by rw [hbefore, List.cons_append]⟩

end Turns

end Kernel
end Rmmtos
