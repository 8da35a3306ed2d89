import Rmmtos.Block.Floppy

/-!
# The sectors of the blocks

The number of a block is cut to a word, and the cylinder to a byte.  So every
block is read from a sector, whether or not it is on the disk.
-/

namespace Rmmtos
namespace Kernel

open Library

/-!
# A controller that is ready
-/

/-- The status is as each wait needs it within its reads, whenever it begins. -/
structure Ready (f : Controller) : Prop where
  write : forall i, exists j, j < statusReads ∧ f.answer (i + j) &&& 0xc0 = 0x80
  read : forall i, exists j, j < statusReads ∧ f.answer (i + j) &&& 0xc0 = 0xc0
  unset : forall i, f.unset i = true

def Succeeds (x : Driver Bool) : Prop :=
  forall f, Ready f -> (x f).1 = true ∧ Ready (x f).2

section Ready

variable {x y : Driver Bool}

theorem Ready.same {f f' : Controller} (h : Ready f) (hanswer : f'.answer = f.answer)
    (hunset : f'.unset = f.unset) : Ready f' := by
  constructor
  · rw [hanswer]
    exact h.write
  · rw [hanswer]
    exact h.read
  · rw [hunset]
    exact h.unset

theorem Succeeds.and (hx : Succeeds x) (hy : Succeeds y) : Succeeds (x <&&> y) := by
  intro f hf
  rcases hx f hf with ⟨hres, hready⟩
  rw [and_run, if_pos hres]
  exact hy _ hready

theorem waitStatus_true {want : Byte} {n j : Nat} {f : Controller} (hj : j < n)
    (h : f.answer (f.reads + j) &&& 0xc0 = want) : (waitStatus want n f).1 = true := by
  induction n generalizing f j with
  | zero => exact absurd hj (Nat.not_lt_zero j)
  | succ n ih =>
      unfold waitStatus
      change ((if f.answer f.reads &&& 0xc0 = want then (pure true : Driver Bool)
        else waitStatus want n) { f with reads := f.reads + 1 }).1 = true
      split
      · rfl
      · next hnot =>
          cases j with
          | zero => exact absurd h hnot
          | succ j =>
              apply ih (Nat.lt_of_succ_lt_succ hj)
              dsimp only
              rw [Nat.succ_add_eq_add_succ]
              exact h

theorem waitStatus_same (want : Byte) (n : Nat) (f : Controller) :
    (waitStatus want n f).2.answer = f.answer ∧
      (waitStatus want n f).2.unset = f.unset := by
  induction n generalizing f with
  | zero => exact ⟨rfl, rfl⟩
  | succ n ih =>
      unfold waitStatus
      change ((if f.answer f.reads &&& 0xc0 = want then (pure true : Driver Bool)
          else waitStatus want n) { f with reads := f.reads + 1 }).2.answer = _ ∧
        ((if f.answer f.reads &&& 0xc0 = want then (pure true : Driver Bool)
          else waitStatus want n) { f with reads := f.reads + 1 }).2.unset = _
      split
      · exact ⟨rfl, rfl⟩
      · exact ih _

theorem succeeds_after_wait {want : Byte}
    (hwait : forall f, Ready f -> (waitStatus want statusReads f).1 = true)
    (hx : Succeeds x) :
    Succeeds (do if ← waitStatus want statusReads then x else pure false) := by
  intro f hf
  rcases waitStatus_same want statusReads f with ⟨hanswer, hunset⟩
  change ((if (waitStatus want statusReads f).1 = true then x else pure false)
      (waitStatus want statusReads f).2).1 = true ∧
    Ready ((if (waitStatus want statusReads f).1 = true then x else pure false)
      (waitStatus want statusReads f).2).2
  rw [if_pos (hwait f hf)]
  exact hx _ (hf.same hanswer hunset)

theorem succeeds_writeCmd (byte : Byte) : Succeeds (floppyWriteCmd byte) := by
  refine succeeds_after_wait (fun f hf => ?_) fun f hf => ⟨rfl, hf.same rfl rfl⟩
  rcases hf.write f.reads with ⟨j, hj, hstatus⟩
  exact waitStatus_true hj hstatus

theorem succeeds_readResult : Succeeds floppyReadResult := by
  refine succeeds_after_wait (fun f hf => ?_) fun f hf => ⟨rfl, hf.same rfl rfl⟩
  rcases hf.read f.reads with ⟨j, hj, hstatus⟩
  exact waitStatus_true hj hstatus

theorem succeeds_sense : Succeeds floppySense :=
  (succeeds_writeCmd _).and (succeeds_readResult.and succeeds_readResult)

theorem succeeds_specify : Succeeds floppySpecify :=
  (succeeds_writeCmd _).and ((succeeds_writeCmd _).and (succeeds_writeCmd _))

theorem succeeds_configure : Succeeds floppyConfigure :=
  (succeeds_writeCmd _).and
    ((succeeds_writeCmd _).and ((succeeds_writeCmd _).and (succeeds_writeCmd _)))

theorem succeeds_init2 : Succeeds floppyInit2 := by
  have hreset : Succeeds floppyReset := fun f hf => ⟨rfl, hf.same rfl rfl⟩
  exact hreset.and ((succeeds_sense.and (succeeds_sense.and
    (succeeds_sense.and succeeds_sense))).and (succeeds_configure.and succeeds_specify))

theorem succeeds_transfer (dir : Dir) (cyl head sec : Byte) :
    Succeeds (floppyTransfer dir cyl head sec) := by
  have hresults := succeeds_readResult.and (succeeds_readResult.and
    (succeeds_readResult.and (succeeds_readResult.and (succeeds_readResult.and
      (succeeds_readResult.and succeeds_readResult)))))
  have hcommand := (succeeds_writeCmd (if dir = .write then cmdWrite else cmdRead)).and
    ((succeeds_writeCmd ((head &&& 0x1) <<< 2)).and ((succeeds_writeCmd cyl).and
      ((succeeds_writeCmd head).and ((succeeds_writeCmd sec).and
        ((succeeds_writeCmd 0x02).and ((succeeds_writeCmd 1).and
          ((succeeds_writeCmd gapLength).and (succeeds_writeCmd 0xff))))))))
  exact hcommand.and hresults

theorem succeeds_readTurn (buffer cylinder head sector : Word) :
    Succeeds (floppyReadTurn buffer cylinder head sector) := by
  have hselect : Succeeds floppySelectDrive := fun f hf => ⟨rfl, hf.same rfl rfl⟩
  have hrate : Succeeds floppySetDataRate :=
    fun f hf => ⟨hf.unset _, hf.same rfl rfl⟩
  have hrecalibrate : Succeeds floppyRecalibrate :=
    ((succeeds_writeCmd _).and (succeeds_writeCmd _)).and succeeds_sense
  have hseek : Succeeds (floppySeek (cylinder.setWidth 8) (head.setWidth 8)) :=
    ((succeeds_writeCmd _).and ((succeeds_writeCmd _).and (succeeds_writeCmd _))).and
      succeeds_sense
  have hdma : Succeeds (floppySetDma buffer secSz .read) :=
    fun f hf => ⟨rfl, hf.same rfl rfl⟩
  exact succeeds_init2.and (hselect.and (succeeds_specify.and (hrate.and
    (hrecalibrate.and (hseek.and (hdma.and (succeeds_transfer .read _ _ _)))))))

theorem floppyRead_returns {f : Controller} (hf : Ready f) (buffer : Word)
    (block : Uint64) (n : Nat) : (floppyRead buffer block (n + 1) f).1 = true := by
  let cylinder := block.i0 / (sec * hd)
  let head := block.i0 / sec % hd
  let sector := block.i0 % sec + 1
  have hturn := (succeeds_readTurn buffer cylinder head sector f hf).1
  change ((if (floppyReadTurn buffer cylinder head sector f).1 = true then pure true
    else floppyReadTurns buffer cylinder head sector n)
      (floppyReadTurn buffer cylinder head sector f).2).1 = true
  rw [if_pos hturn]
  rfl

end Ready

/-!
# The sector that is read
-/

def Transferred (outs : List (Word × Byte)) (t : Sector) : Prop :=
  transferOuts t <:+ outs

/-- The sector is on the disk, and the block is the one with its number. -/
structure Sector.Holds (t : Sector) (b : Nat) : Prop where
  cylinder : t.cylinder.toNat < 80
  head : t.head.toNat < 2
  first : 1 ≤ t.sector.toNat
  last : t.sector.toNat ≤ 18
  place : (t.cylinder.toNat * 2 + t.head.toNat) * 18 + t.sector.toNat - 1 = b

/-- The sector of a block, whose number has been cut to one word. -/
def blockSector (block : Uint64) : Sector :=
  narrowed (block.i0 / (sec * hd)) (block.i0 / sec % hd) (block.i0 % sec + 1)

section Blocks

variable {b b' : Uint64}

theorem Transferred.unique {outs : List (Word × Byte)} {t t' : Sector}
    (h : Transferred outs t) (h' : Transferred outs t') : t = t' := by
  have hsuffix : transferOuts t <:+ transferOuts t' :=
    List.suffix_of_suffix_length_le h h' (Nat.le_refl 9)
  have heq : transferOuts t = transferOuts t' := hsuffix.eq_of_length rfl
  unfold transferOuts commandOuts at heq
  simp only [List.map_cons, List.cons.injEq, Prod.mk.injEq, true_and] at heq
  rcases heq with ⟨_, hcylinder, hhead, hsector, _⟩
  cases t
  cases t'
  rw [Sector.mk.injEq]
  exact ⟨hcylinder, hhead, hsector⟩

theorem floppyRead_transferred {buffer : Word} {n : Nat} {f : Controller}
    (h : (floppyRead buffer b n f).1 = true) :
    Transferred (floppyRead buffer b n f).2.outs (blockSector b) := by
  unfold floppyRead at h ⊢
  rcases readTurns_outs n f with ⟨parts, houts, _, hlast⟩
  rcases hlast h with ⟨before, hbefore⟩
  rw [houts, hbefore, List.flatten_append, List.flatten_singleton]
  unfold Transferred turnOuts
  rw [← List.append_assoc, ← List.append_assoc]
  exact List.suffix_append _ _

theorem i0_toNat (b : Uint64) : b.i0.toNat = b.toNat % 65536 := by
  have h0 := b.i0.isLt
  unfold Uint64.toNat
  omega

theorem blockSector_toNat (b : Uint64) :
    (blockSector b).cylinder.toNat = b.toNat % 65536 / 36 % 256 ∧
      (blockSector b).head.toNat = b.toNat % 65536 / 18 % 2 ∧
      (blockSector b).sector.toNat = b.toNat % 65536 % 18 + 1 := by
  have h0 := b.i0.isLt
  rw [← i0_toNat]
  unfold blockSector narrowed
  refine ⟨?_, ?_, ?_⟩
  · change (BitVec.setWidth 8 (b.i0 / 36)).toNat = _
    rw [BitVec.toNat_setWidth, BitVec.toNat_udiv]
    rfl
  · change (BitVec.setWidth 8 (b.i0 / 18 % 2)).toNat = _
    rw [BitVec.toNat_setWidth, BitVec.toNat_umod, BitVec.toNat_udiv]
    change b.i0.toNat / 18 % 2 % 256 = _
    omega
  · change (BitVec.setWidth 8 (b.i0 % 18 + 1)).toNat = _
    rw [BitVec.toNat_setWidth, BitVec.toNat_add, BitVec.toNat_umod]
    change (b.i0.toNat % 18 + 1) % 65536 % 256 = _
    omega

theorem blockSector_holds_iff (b : Uint64) :
    (blockSector b).Holds b.toNat <-> b.toNat < 2880 := by
  rcases blockSector_toNat b with ⟨hcylinder, hhead, hsector⟩
  constructor
  · intro h
    have hcyl := h.cylinder
    have hhd := h.head
    have hlast := h.last
    have hplace := h.place
    omega
  · intro h
    constructor
    · omega
    · omega
    · omega
    · omega
    · rw [hcylinder, hhead, hsector]
      omega

/-- Blocks whose numbers differ by a multiple of 9216 inside a word are read
from one sector. -/
theorem blockSector_eq_iff (b b' : Uint64) :
    blockSector b = blockSector b' <->
      b.toNat % 65536 % 9216 = b'.toNat % 65536 % 9216 := by
  rcases blockSector_toNat b with ⟨hcylinder, hhead, hsector⟩
  rcases blockSector_toNat b' with ⟨hcylinder', hhead', hsector'⟩
  constructor
  · intro h
    rw [h] at hcylinder hhead hsector
    omega
  · intro h
    have hcyl : (blockSector b).cylinder = (blockSector b').cylinder := by
      apply BitVec.eq_of_toNat_eq
      omega
    have hhd : (blockSector b).head = (blockSector b').head := by
      apply BitVec.eq_of_toNat_eq
      omega
    have hsec : (blockSector b).sector = (blockSector b').sector := by
      apply BitVec.eq_of_toNat_eq
      omega
    calc
      blockSector b =
          ⟨(blockSector b).cylinder, (blockSector b).head, (blockSector b).sector⟩ := rfl
      _ = blockSector b' := by rw [hcyl, hhd, hsec]

/-- Whatever the controller answers, a call that returns has read the sector of
its block only when the block is on the disk; and two calls have read one sector
only when the words of their numbers are the same modulo 9216. -/
theorem floppy_sector_iff {buffer buffer' : Word} {n n' : Nat} {f f' : Controller}
    (h : (floppyRead buffer b n f).1 = true)
    (h' : (floppyRead buffer' b' n' f').1 = true) :
    ((exists t, Transferred (floppyRead buffer b n f).2.outs t ∧ t.Holds b.toNat) <->
        b.toNat < 2880) ∧
      ((exists t, Transferred (floppyRead buffer b n f).2.outs t ∧
          Transferred (floppyRead buffer' b' n' f').2.outs t) <->
        b.toNat % 65536 % 9216 = b'.toNat % 65536 % 9216) := by
  have hsector := floppyRead_transferred h
  have hsector' := floppyRead_transferred h'
  constructor
  · rw [← blockSector_holds_iff]
    constructor
    · intro hholds
      rcases hholds with ⟨t, htransferred, hholds⟩
      rw [hsector.unique htransferred]
      exact hholds
    · intro hholds
      exact ⟨blockSector b, hsector, hholds⟩
  · rw [← blockSector_eq_iff]
    constructor
    · intro hsame
      rcases hsame with ⟨t, htransferred, htransferred'⟩
      rw [hsector.unique htransferred, hsector'.unique htransferred']
    · intro hsame
      exact ⟨blockSector b, hsector, hsame ▸ hsector'⟩

end Blocks

/-- A controller that is ready for a byte and has a byte by turns. -/
def readyController : Controller where
  answer := fun i => if i % 2 = 0 then 0x80 else 0xc0
  reads := 0
  outs := []
  unset := fun _ => true

theorem readyController_ready : Ready readyController := by
  constructor
  · intro i
    refine ⟨i % 2, Nat.lt_trans (Nat.mod_lt i Nat.two_pos) (by decide), ?_⟩
    unfold readyController
    dsimp only
    rw [if_pos (by omega)]
    rfl
  · intro i
    refine ⟨(i + 1) % 2, Nat.lt_trans (Nat.mod_lt _ Nat.two_pos) (by decide), ?_⟩
    unfold readyController
    dsimp only
    rw [if_neg (by omega)]
    rfl
  · intro i
    rfl

/-- The last block of the disk and the first one. -/
theorem floppy_sector_last :
    ((exists t, Transferred (floppyRead 0x9000 (init64 0 0 0 2879) 1 readyController).2.outs
          t ∧ t.Holds (init64 0 0 0 2879).toNat) <->
        (init64 0 0 0 2879).toNat < 2880) ∧
      ((exists t, Transferred
            (floppyRead 0x9000 (init64 0 0 0 2879) 1 readyController).2.outs t ∧
          Transferred (floppyRead 0x9000 (init64 0 0 0 0) 1 readyController).2.outs t) <->
        (init64 0 0 0 2879).toNat % 65536 % 9216 =
          (init64 0 0 0 0).toNat % 65536 % 9216) :=
  floppy_sector_iff (floppyRead_returns readyController_ready _ _ 0)
    (floppyRead_returns readyController_ready _ _ 0)

/-- The block behind the disk is read from a cylinder that the disk does not
have. -/
theorem floppy_sector_behind :
    ¬ forall (b b' : Uint64) (buffer buffer' : Word) (n n' : Nat) (f f' : Controller),
      (floppyRead buffer b n f).1 = true -> (floppyRead buffer' b' n' f').1 = true ->
        (exists t, Transferred (floppyRead buffer b n f).2.outs t ∧ t.Holds b.toNat) ∧
          (b ≠ b' -> ¬ exists t, Transferred (floppyRead buffer b n f).2.outs t ∧
            Transferred (floppyRead buffer' b' n' f').2.outs t) := by
  intro hall
  have hret : (floppyRead 0x9000 (init64 0 0 0 2880) 1 readyController).1 = true :=
    floppyRead_returns readyController_ready _ _ 0
  rcases (hall _ _ _ _ _ _ _ _ hret hret).1 with ⟨t, htransferred, hholds⟩
  rw [← (floppyRead_transferred hret).unique htransferred,
    blockSector_holds_iff] at hholds
  revert hholds
  decide

end Kernel
end Rmmtos
