import Rmmtos.Fs.FatTable
import Rmmtos.Fs.ReadBounds

/-!
# The results of reads

A read puts bytes in the front of its buffer and returns a word.  The word tells
their number when there are fewer than 4096 of them: the field for it has twelve
bits.
-/

namespace Rmmtos
namespace Fs

open Library Kernel

/-!
# What a read does for any buffer
-/

/-- The outcome of a read: its word, the bytes that it puts in the buffer and
their number, and the state. -/
structure Filling (σ : Type) where
  word : Word
  count : Nat
  data : Bytes
  state : σ

/-- The outcome does not depend on what the buffer held. -/
def Fills (read : Bytes -> Result (Word × Bytes × σ)) (r : Filling σ) : Prop :=
  forall buffer, read buffer = .ok (r.word, splice r.data r.count buffer, r.state)

def Fails (read : Bytes -> Result (Word × Bytes × σ)) : Prop :=
  exists e, forall buffer, read buffer = .error e

/-- The word reports no byte that was not read, and it reports all of them when
they are fewer than 4096. -/
structure Filling.Tells (r : Filling σ) (size : Word) : Prop where
  reported : r.word.toNat ≤ r.count
  inside : r.count ≤ size.toNat
  small : r.count < 4096 -> r.word.toNat = r.count

/-- A read that fails, or whose word tells what it read. -/
def ReadsTold (size : Word) (read : Bytes -> Result (Word × Bytes × σ))
    (I : σ -> Prop) : Prop :=
  Fails read ∨ exists r, Fills read r ∧ r.Tells size ∧ I r.state

theorem same_goes {goes : Bytes -> Bool} (b : Bool)
    (h : forall buffer, goes buffer = b) :
    (forall buffer, goes buffer = true) ∨ forall buffer, goes buffer = false := by
  cases b with
  | false => exact Or.inr h
  | true => exact Or.inl h

/-!
# Block devices
-/

section Blocks

variable {f : BlockFile} {read : Uint64 -> Nat -> Byte} {blockFile : Word}
  {position : Uint64} {size : Word} {beginBlock endBlock : Uint64}

def BlockFamily (r : Span) (xs : Bytes -> BlockRead) : Prop :=
  exists b x data, r.first ≤ b ∧ b ≤ r.last + 1 ∧ ReadAt r x b ∧
    forall buffer, xs buffer =
      { x with buffer := splice data x.done.toNat buffer }

theorem BlockFamily.goes {xs : Bytes -> BlockRead}
    (h : BlockFamily (spanOf f position size) xs) :
    (forall buffer, blockReadGoes endBlock size (xs buffer) = true) ∨
      forall buffer, blockReadGoes endBlock size (xs buffer) = false := by
  rcases h with ⟨b, x, data, _, _, _, hxs⟩
  exact same_goes (blockReadGoes endBlock size x) (fun buffer => by rw [hxs]; rfl)

theorem BlockFamily.turn {xs : Bytes -> BlockRead}
    (hin : (spanOf f position size).Inside)
    (hbegin : beginBlock.toNat = (spanOf f position size).first)
    (hend : endBlock.toNat = (spanOf f position size).last)
    (h : BlockFamily (spanOf f position size) xs)
    (hgoes : forall buffer, blockReadGoes endBlock size (xs buffer) = true) :
    (exists e, forall buffer, blockReadTurn read f blockFile beginBlock endBlock
        size (xs buffer) = .error e) ∨
      exists ys, (forall buffer, blockReadTurn read f blockFile beginBlock endBlock
          size (xs buffer) = .ok (ys buffer)) ∧
        BlockFamily (spanOf f position size) ys := by
  rcases h with ⟨b, x, data, hfirst, hlast, hx, hxs⟩
  have hle : b ≤ (spanOf f position size).last := by
    by_contra hbehind
    have heq : b = (spanOf f position size).last + 1 := by
      omega
    rw [heq] at hx
    have hstop : blockReadGoes endBlock size x = false :=
      blockReadGoes_false hin hx
    have hgo := hgoes data
    rw [hxs] at hgo
    exact Bool.false_ne_true (hstop.symm.trans hgo)
  cases hfetch : fetchBlock read f blockFile x.state x.block x.tmp with
  | error e =>
      left
      exists e
      intro buffer
      unfold blockReadTurn
      rw [hxs]
      dsimp only
      rw [hfetch]
      rfl
  | ok fetched =>
      right
      refine ⟨fun buffer => copyPart blockFile (xs buffer)
        (blockPart f beginBlock endBlock size (xs buffer)) fetched, ?_, b + 1,
        copyPart blockFile x (blockPart f beginBlock endBlock size x) fetched,
        copiedBehind data x (blockPart f beginBlock endBlock size x).1 fetched,
        Nat.le_succ_of_le hfirst, Nat.succ_le_succ hle,
        hx.next hin hfirst hle hbegin hend blockFile fetched, ?_⟩
      · intro buffer
        dsimp only
        rw [hxs buffer]
        unfold blockReadTurn
        dsimp only
        rw [hfetch]
        rfl
      · intro buffer
        have hx' : ReadAt (spanOf f position size)
            { x with buffer := splice data x.done.toNat buffer } b :=
          ⟨hx.block, hx.position, hx.done⟩
        have hcopy := @copyPart_splice _ blockFile _ _ _ _ _ _ data buffer hin hx'
          hfirst hle hbegin hend rfl fetched
        dsimp only
        rw [hxs buffer]
        exact congrArg (fun bytes : Bytes => ({ copyPart blockFile x
          (blockPart f beginBlock endBlock size x) fetched with
            buffer := bytes } : BlockRead)) hcopy

theorem blockfileRead_fills (blockFile : Word) (s : BlockState)
    (hread : f.read = some read) (hin : (spanOf f position size).Inside) :
    (exists e, forall buffer,
        blockfileRead f blockFile s position buffer size = .error e) ∨
      exists data t p, forall buffer,
        blockfileRead f blockFile s position buffer size =
          .ok ⟨size, t, p, splice data size.toNat buffer⟩ := by
  have hsmall := f.small
  rcases shr64_eq position (n := f.blockSizeExponent) (by omega) with
    ⟨_, beginBlock, hshift, _⟩
  rcases shr64_eq (add64 position (init64 0 0 0 (size - 1)))
    (n := f.blockSizeExponent) (by omega) with ⟨_, endBlock, hshift', _⟩
  rcases readBlocks_eq hin hshift hshift' with ⟨hbegin, hend⟩
  have hrun := fun buffer => blockfileRead_eq blockFile s buffer hread hshift hshift'
  have hfirst := ((spanOf f position size).first_le_last).resolve_left
    (Nat.ne_of_gt hin.size_pos)
  have hstart : BlockFamily (spanOf f position size)
      (fun buffer => ⟨s, position, beginBlock, 0, 0, none, buffer⟩) := by
    refine ⟨_, ⟨s, position, beginBlock, 0, 0, none, fun _ => 0⟩, fun _ => 0,
      Nat.le_refl _, Nat.le_succ_of_le hfirst,
      readAt_start f s (fun _ => 0) hin hbegin, ?_⟩
    intro buffer
    exact congrArg (BlockRead.mk s position beginBlock 0 0 none)
      (splice_zero _ buffer).symm
  rcases whileLoop_family (e := Stop.hang) (fun xs h => h.goes)
    (fun xs h hgoes => h.turn hin hbegin hend hgoes)
    blockReadTurns hstart with ⟨e, hfail⟩ | ⟨ys, hloop, hys⟩
  · left
    exists e
    intro buffer
    rw [hrun buffer, hfail buffer]
    rfl
  · rcases hys with ⟨b, y, data, hfirst', hlast, hy, hys⟩
    have hexit : blockReadGoes endBlock size y = false := by
      have hstop := (whileLoop_invariant (I := fun _ : BlockRead => True)
        (fun _ _ _ _ _ => trivial) (hloop data) trivial).2
      rw [hys] at hstop
      exact hstop
    have hdone : y.done = size := by
      have hb : b = (spanOf f position size).last + 1 := by
        by_contra hne
        have hgo := blockReadGoes_true hin hy (by omega) hend
        exact Bool.false_ne_true (hexit.symm.trans hgo)
      apply BitVec.eq_of_toNat_eq
      rw [hy.done, hb, Span.done_end hin.k_pos hin.size_pos]
      rfl
    have hdrops : forall buffer, dropBlock (ys buffer) = dropBlock y := by
      intro buffer
      rw [hys buffer]
      rfl
    cases hdrop : dropBlock y with
    | error e =>
        left
        exists e
        intro buffer
        rw [hrun buffer, hloop buffer, ok_bind, hdrops buffer, hdrop]
        rfl
    | ok t =>
        right
        refine ⟨data, t, y.position, ?_⟩
        intro buffer
        rw [hrun buffer, hloop buffer, ok_bind, hdrops buffer, hdrop, ok_bind,
          hys buffer, hdone]

end Blocks

/-!
# FAT files

The parts of the clusters are read behind each other.  A part of 4096 bytes is
counted as none, so that the next one is read in its place.
-/

structure FatGeometry.Near (root : FatGeometry) : Prop where
  pot : root.clusterPot.toNat ≤ 15
  rootEnd : root.rootEnd.toNat < 2 ^ 31

theorem near_of_parseParams {params : Parameters} {root : FatGeometry}
    (hroot : parseParams params = .ok root) : root.Near := by
  rcases parseParams_eq hroot with ⟨_, hbegin, hend, rest, hpot⟩
  constructor
  · generalize params.sectorsPerCluster.setWidth 16 * params.bytesPerSector =
      bytesPerCluster at hpot
    have hne : bytesPerCluster ≠ 0 := by
      intro hzero
      rw [hzero, countPot_zero] at hpot
      cases hpot
    rcases countPot_eq hne with ⟨pot, odd, hcount, hinv, _⟩
    cases hpot.symm.trans hcount
    exact Nat.le_of_lt_succ hinv.2.2
  · have hlt := (params.reservedSectors +
      params.fats.setWidth 16 * params.sectorsPerFat).isLt
    have hroom := ((params.rootEntries * 32 + params.bytesPerSector - 1) /
      params.bytesPerSector * params.bytesPerSector).isLt
    omega

theorem FatGeometry.Near.position {root : FatGeometry} (h : root.Near)
    (currentCluster clusterOffset : Word) :
    (add64_16 (clusterPosition root currentCluster) clusterOffset).toNat <
      2 ^ 33 := by
  have hpot := h.pot
  have hend := h.rootEnd
  have hwidth : (root.clusterPot.setWidth 16).toNat = root.clusterPot.toNat := by
    rw [BitVec.toNat_setWidth]
    exact Nat.mod_eq_of_lt (by omega)
  have hlt := (currentCluster - 2).isLt
  have hoffset := clusterOffset.isLt
  have hprod : (currentCluster - 2).toNat * 2 ^ root.clusterPot.toNat ≤
      65536 * 2 ^ 15 :=
    Nat.mul_le_mul (by omega) (Nat.pow_le_pow_right (by decide) hpot)
  unfold clusterPosition
  rw [add64_16_toNat, add64_toNat_of_lt hend, shl64_toNat,
    Uint64.toNat_init64, hwidth]
  omega

/-- Reads of a volume that keep a property of the state, and whose words tell
what they read where the position does not wrap. -/
structure VolumeCalls.Tell (calls : VolumeCalls σ) (I : σ -> Prop) : Prop where
  keep : calls.Keep I
  told : forall position size s, I s ->
    position.toNat + size.toNat ≤ 2 ^ 64 ->
      ReadsTold size (fun buffer => calls.read buffer size (calls.seek position s)) I

section Fat

variable {σ : Type} {calls : VolumeCalls σ} {I : σ -> Prop}
  {root : FatGeometry} {endOffset count : Word}

/-- The same state of the loop with all buffers: {lit}`n` bytes are in the
buffer, and if they are few they are all counted. -/
def FatFamily (I : σ -> Prop) (count : Word) (xs : Bytes -> FatReadOn σ) : Prop :=
  exists (x : FatReadOn σ) (n : Nat) (data : Bytes),
    I x.state ∧ x.completed.toNat ≤ n ∧ n ≤ count.toNat ∧
    (n < 4096 -> x.completed.toNat = n) ∧
    forall buffer, xs buffer = { x with buffer := splice data n buffer }

theorem FatFamily.goes {xs : Bytes -> FatReadOn σ} (h : FatFamily I count xs) :
    (forall buffer, fatReadGoes count (xs buffer) = true) ∨
      forall buffer, fatReadGoes count (xs buffer) = false := by
  rcases h with ⟨x, n, data, _, _, _, _, hxs⟩
  exact same_goes (fatReadGoes count x) (fun buffer => by rw [hxs]; rfl)

theorem masked_eq {word : Word} (h : word.toNat < 4096) :
    (word &&& fileIoResultSizeMask).toNat = word.toNat := by
  rw [BitVec.toNat_and]
  exact (Nat.and_two_pow_sub_one_eq_mod _ 12).trans (Nat.mod_eq_of_lt h)

theorem counted_part {r : Filling σ} {completed size : Word} {n : Nat}
    (hn : completed.toNat ≤ n) (hle : n ≤ count.toNat)
    (hsmall : n < 4096 -> completed.toNat = n) (hr : r.Tells size)
    (hsize : size.toNat ≤ count.toNat - completed.toNat) :
    (completed + (r.word &&& fileIoResultSizeMask)).toNat ≤
        max n (completed.toNat + r.count) ∧
      max n (completed.toNat + r.count) ≤ count.toNat ∧
      (max n (completed.toNat + r.count) < 4096 ->
        (completed + (r.word &&& fileIoResultSizeMask)).toNat =
          max n (completed.toNat + r.count)) := by
  have hreported := hr.reported
  have hinside := hr.inside
  have hmask := masked_le r.word
  have hlt := count.isLt
  have hsum : (completed + (r.word &&& fileIoResultSizeMask)).toNat =
      completed.toNat + (r.word &&& fileIoResultSizeMask).toNat := by
    rw [BitVec.toNat_add]
    exact Nat.mod_eq_of_lt (by omega)
  rw [hsum]
  refine ⟨by omega, by omega, ?_⟩
  intro hfew
  have hall := hsmall (by omega)
  have hword := hr.small (by omega)
  rw [masked_eq (by omega), hword, ← hall]
  omega

theorem FatFamily.part (hcalls : calls.Tell I) (hroot : root.Near)
    {x : FatReadOn σ} {n : Nat} {data : Bytes} {nextCluster size : Word} {s : σ}
    (hs : I s) (hn : x.completed.toNat ≤ n) (hle : n ≤ count.toNat)
    (hsmall : n < 4096 -> x.completed.toNat = n)
    (hsize : size.toNat ≤ count.toNat - x.completed.toNat) :
    (exists e, forall buffer, readPart calls root nextCluster size
        { x with buffer := splice data n buffer } s = .error e) ∨
      exists ys, (forall buffer, readPart calls root nextCluster size
          { x with buffer := splice data n buffer } s = .ok (ys buffer)) ∧
        FatFamily I count ys := by
  have hnear := hroot.position x.currentCluster x.clusterOffset
  have hlt := size.isLt
  unfold readPart
  dsimp only
  rcases hcalls.told (add64_16 (clusterPosition root x.currentCluster)
    x.clusterOffset) size s hs (by omega) with
    ⟨e, hfail⟩ | ⟨r, hfill, htells, hr⟩
  · left
    refine ⟨e, ?_⟩
    intro buffer
    dsimp only at hfail
    rw [hfail]
    rfl
  · right
    rcases counted_part hn hle hsmall htells hsize with ⟨hn', hle', hsmall'⟩
    refine ⟨_, fun buffer => ?_, ⟨r.state, x.wholeClustersLeft, 0, nextCluster,
      x.completed + (r.word &&& fileIoResultSizeMask), data⟩,
      max n (x.completed.toNat + r.count),
      splice data x.completed.toNat (fun i => splice r.data r.count
        (fun j => data (x.completed.toNat + j)) (i - x.completed.toNat)),
      hr, hn', hle', hsmall', fun _ => rfl⟩
    have hread := hfill fun i => splice data n buffer (x.completed.toNat + i)
    dsimp only at hread
    rw [hread, ok_bind]
    dsimp only
    rw [splice_splice data r.data buffer hn r.count]

theorem FatFamily.turn (hcalls : calls.Tell I) (hroot : root.Near)
    {xs : Bytes -> FatReadOn σ} (h : FatFamily I count xs) :
    (exists e, forall buffer, fatReadTurnOn calls root endOffset count
        (xs buffer) = .error e) ∨
      exists ys, (forall buffer, fatReadTurnOn calls root endOffset count
          (xs buffer) = .ok (ys buffer)) ∧ FatFamily I count ys := by
  rcases h with ⟨x, n, data, hstate, hn, hle, hsmall, hxs⟩
  unfold fatReadTurnOn
  simp only [hxs]
  cases hnext : readNextCluster calls root x.currentCluster x.state with
  | error e => exact Or.inl ⟨e, fun _ => rfl⟩
  | ok next =>
      simp only [ok_bind]
      have hs := readNextCluster_keeps hcalls.keep hstate hnext
      split
      · right
        exact ⟨_, fun _ => rfl, { x with
          state := next.2
          wholeClustersLeft := dec64 x.wholeClustersLeft
          currentCluster := next.1 }, n, data, hs, hn, hle, hsmall, fun _ => rfl⟩
      · exact FatFamily.part hcalls hroot hs hn hle hsmall
          (partSize_le (Nat.le_trans hn hle))

/-- A read of a file, whatever is on its volume. -/
theorem fatReadFileOn_told (hcalls : calls.Tell I) (hroot : root.Near)
    (turns : Nat) (entryPosition position : Uint64) {s : σ} (hs : I s) :
    (exists e, forall buffer, fatReadFileOn turns calls root entryPosition
        position buffer count s = .error e) ∨
      exists xs, (forall buffer, fatReadFileOn turns calls root entryPosition
        position buffer count s = .ok (xs buffer)) ∧ FatFamily I count xs := by
  unfold fatReadFileOn
  cases hoffset : shr64 position (root.clusterPot.setWidth 16) with
  | error e => exact Or.inl ⟨e, fun _ => rfl⟩
  | ok offset =>
      simp only [ok_bind]
      cases hentry : readEntry calls entryPosition s with
      | error e => exact Or.inl ⟨e, fun _ => rfl⟩
      | ok entry =>
          simp only [ok_bind]
          cases hends : shr64 (init64 0 0 0 (entry.1.size.extractLsb' 0 16))
              (root.clusterPot.setWidth 16) with
          | error e => exact Or.inl ⟨e, fun _ => rfl⟩
          | ok ends =>
              simp only [ok_bind]
              have hentryState : I entry.2 := by
                rcases ok_bind_iff.mp hentry with ⟨r, hread, hr⟩
                cases hr
                exact hcalls.keep.read _ _ _ _ _ _
                  (hcalls.keep.seek _ _ (hcalls.keep.leftover _ hs)) hread
              refine whileLoop_family (I := FatFamily I count)
                (fun xs h => h.goes) (fun xs h _ => h.turn hcalls hroot) turns ?_
              refine ⟨⟨entry.2, offset.2, offset.1, entry.1.clusterLo, 0,
                fun _ => 0⟩, 0, fun _ => 0, hentryState, Nat.zero_le _,
                Nat.zero_le _, fun _ => rfl, ?_⟩
              intro buffer
              rw [splice_zero]

end Fat

/-!
# All files
-/

namespace DeviceState

def FatRoots (s : DeviceState) : Prop :=
  forall node, s.fileOps node = .fat -> exists params,
    parseParams params = .ok (s.fatRoot (s.fatFile node).root).geometry

theorem FatRoots.kept {s s' : DeviceState} (h : s.FatRoots)
    (hkept : UserKept s s') : s'.FatRoots := by
  unfold FatRoots
  rw [hkept.fileOps, hkept.fatRoot, hkept.fatFile]
  exact h

theorem fileReadBy_eq (fatRead : ReadOp) (handle : Word) (buffer : Bytes)
    (size : Word) (s : DeviceState) :
    fileReadBy fatRead handle buffer size s =
      match s.fileOps (s.fs.handle handle).node with
      | .block => blockfileRead handle buffer size s
      | .fat => fatRead handle buffer size s
      | .keyboard => keybRead handle buffer size s
      | .none | .ramfs | .screen => .ok (0, buffer, s) := by
  have hguard : forall flags : Word, ¬ flags &&& comparison false ≠ 0 :=
    fun flags hne => hne BitVec.and_zero
  unfold fileReadBy
  dsimp only
  exact (if_neg (hguard _)).trans (if_neg (hguard _))

/-- The bytes of a read that does not look at its buffer. -/
theorem readsTold_nothing (size : Word) (s : DeviceState) :
    ReadsTold size (fun buffer => .ok (0, buffer, s)) (UserKept s) :=
  Or.inr ⟨⟨0, 0, fun _ => 0, s⟩,
    fun buffer => congrArg (fun bytes : Bytes => Except.ok (0, bytes, s))
      (splice_zero _ buffer).symm,
    ⟨Nat.le_refl _, Nat.zero_le _, fun _ => rfl⟩, UserKept.refl s⟩

theorem blockfileRead_skips {s : DeviceState} {handle size : Word}
    {read : Uint64 -> Nat -> Byte}
    (hread : (s.blockFile (s.fs.handle handle).node).read = some read)
    (hnothing : size.toNat = 0 ∨
      2 ^ 64 < (s.fs.handle handle).position.toNat + size.toNat)
    (buffer : Bytes) :
    blockfileRead handle buffer size s =
      .ok (size, buffer, (s.setBlockState s.blockState).setPosition handle
        (s.fs.handle handle).position) := by
  unfold blockfileRead
  dsimp only
  rw [blockfileRead_nothing _ _ buffer hread hnothing, ok_bind]

theorem blockfileRead_reads {s : DeviceState} {handle : Word}
    {read : Uint64 -> Nat -> Byte}
    (hread : (s.blockFile (s.fs.handle handle).node).read = some read)
    (size : Word) :
    Fails (fun buffer => blockfileRead handle buffer size s) ∨
      exists data t, Fills (fun buffer => blockfileRead handle buffer size s)
        ⟨size, if (s.fs.handle handle).position.toNat + size.toNat ≤ 2 ^ 64 then
          size.toNat else 0, data, t⟩ := by
  rcases Decidable.em (size.toNat = 0 ∨
    2 ^ 64 < (s.fs.handle handle).position.toNat + size.toNat) with
    hnothing | hsome
  · right
    refine ⟨fun _ => 0, (s.setBlockState s.blockState).setPosition handle
      (s.fs.handle handle).position, ?_⟩
    intro buffer
    have hcount : (if (s.fs.handle handle).position.toNat + size.toNat ≤ 2 ^ 64
        then size.toNat else 0) = 0 := by
      split
      · next hfits => exact hnothing.resolve_right (Nat.not_lt.mpr hfits)
      · rfl
    dsimp only
    rw [blockfileRead_skips hread hnothing, hcount, splice_zero]
  · push Not at hsome
    have hin := spanOf_inside (s.blockFile (s.fs.handle handle).node)
      (Nat.pos_of_ne_zero hsome.1) hsome.2
    rcases blockfileRead_fills (s.fs.handle handle).node s.blockState hread hin with
      ⟨e, hfail⟩ | ⟨data, t, p, hrun⟩
    · left
      exists e
      intro buffer
      unfold blockfileRead
      dsimp only
      rw [hfail buffer]
      rfl
    · right
      refine ⟨data, (s.setBlockState t).setPosition handle p, ?_⟩
      intro buffer
      unfold blockfileRead
      dsimp only
      rw [hrun buffer, ok_bind, if_pos hsome.2]

theorem blockfileRead_told {s : DeviceState} {handle size : Word}
    (hfits : (s.fs.handle handle).position.toNat + size.toNat ≤ 2 ^ 64) :
    ReadsTold size (fun buffer => blockfileRead handle buffer size s)
      (UserKept s) := by
  have hkept : forall r, Fills (fun buffer => blockfileRead handle buffer size s) r ->
      UserKept s r.state :=
    fun r h => blockfileRead_user _ _ _ _ _ _ _ (h fun _ => 0)
  cases hread : (s.blockFile (s.fs.handle handle).node).read with
  | none =>
      right
      refine ⟨⟨0, 0, fun _ => 0, (s.setBlockState s.blockState).setPosition handle
        (s.fs.handle handle).position⟩, ?_,
        ⟨Nat.le_refl _, Nat.zero_le _, fun _ => rfl⟩,
        ⟨rfl, rfl, rfl, rfl, fun _ _ => rfl⟩⟩
      intro buffer
      unfold blockfileRead
      dsimp only
      rw [blockfileRead_none _ _ buffer hread, ok_bind, splice_zero]
  | some read =>
      rcases blockfileRead_reads hread size with hfail | ⟨data, t, hfill⟩
      · exact Or.inl hfail
      · rw [if_pos hfits] at hfill
        exact Or.inr ⟨_, hfill,
          ⟨Nat.le_refl _, Nat.le_refl _, fun _ => rfl⟩, hkept _ hfill⟩

theorem keybRead_fills (handle size : Word) (s : DeviceState) :
    Fills (fun buffer => keybRead handle buffer size s)
      ⟨(Kernel.keybRead s.keyb (fun _ => 0) size).size,
        min size.toNat s.keyb.bufferUsed.toNat, s.keyb.keybBuf,
        { s with keyb := (Kernel.keybRead s.keyb (fun _ => 0) size).keyb }⟩ := by
  intro buffer
  have hsize := keybRead_size s.keyb buffer size
  have hbytes := (keybRead_eq s.keyb buffer size).1
  rw [writeRun_front, hsize] at hbytes
  exact congrArg (fun bytes : Bytes => Except.ok
    ((Kernel.keybRead s.keyb buffer size).size, bytes,
      { s with keyb := (Kernel.keybRead s.keyb buffer size).keyb })) hbytes

theorem keybRead_told (handle size : Word) (s : DeviceState) :
    ReadsTold size (fun buffer => keybRead handle buffer size s) (UserKept s) := by
  have hsize := keybRead_size s.keyb (fun _ => 0) size
  exact Or.inr ⟨_, keybRead_fills handle size s,
    ⟨Nat.le_of_eq hsize, Nat.min_le_left _ _, fun _ => hsize⟩,
    ⟨rfl, rfl, rfl, rfl, fun _ _ => rfl⟩⟩

/-- A read operation whose words tell what it reads, wherever the position does
not wrap. -/
def Told (read : ReadOp) : Prop :=
  forall s handle size, s.FatRoots ->
    (s.fs.handle handle).position.toNat + size.toNat ≤ 2 ^ 64 ->
      ReadsTold size (fun buffer => read handle buffer size s) (UserKept s)

theorem volumeCalls_tell {read : ReadOp} (hread : Told read)
    (hkeep : KeepsUser read) (handle : Word) {s : DeviceState} (hs : s.FatRoots) :
    (volumeCalls read handle).Tell (UserKept s) where
  keep := volumeCalls_user hkeep handle s
  told := by
    intro position size t ht hfits
    have hseek := ht.trans (setPosition_user t handle position)
    have hposition : ((t.setPosition handle position).fs.handle handle).position =
        position := by
      change (Function.update t.fs.handle handle _ handle).position = position
      rw [Function.update_self]
    rcases hread (t.setPosition handle position) handle size (hs.kept hseek)
      (by rw [hposition]; exact hfits) with hfail | ⟨r, hfill, htells, hr⟩
    · exact Or.inl hfail
    · exact Or.inr ⟨r, hfill, htells, hseek.trans hr⟩

theorem fatReadFile_told {read : ReadOp} (hread : Told read)
    (hkeep : KeepsUser read) (turns : Nat) {s : DeviceState} {handle : Word}
    (size : Word) (hs : s.FatRoots)
    (hfile : s.fileOps (s.fs.handle handle).node = .fat) :
    ReadsTold size (fun buffer => fatReadFile turns read handle buffer size s)
      (UserKept s) := by
  rcases hs _ hfile with ⟨params, hparams⟩
  have hroot := near_of_parseParams hparams
  unfold fatReadFile
  dsimp only
  rcases fatReadFileOn_told (volumeCalls_tell hread hkeep
      (s.fatRoot (s.fatFile (s.fs.handle handle).node).root).handle hs) hroot turns
      (s.fatFile (s.fs.handle handle).node).entryPosition
      (s.fs.handle handle).position (UserKept.refl s) with
    ⟨e, hfail⟩ | ⟨xs, hrun, x, n, data, hx, hn, hle, hsmall, hxs⟩
  · left
    exists e
    intro buffer
    dsimp only
    rw [hfail buffer]
    rfl
  · right
    refine ⟨⟨x.completed, n, data, x.state.setPosition handle
      (add64_16 (x.state.fs.handle handle).position x.completed)⟩, ?_,
      ⟨hn, hle, hsmall⟩, hx.trans (setPosition_user ..)⟩
    intro buffer
    dsimp only
    rw [hrun buffer, ok_bind, hxs buffer]

theorem fileReadBy_told {fatRead : ReadOp}
    (hfat : forall s handle size, s.FatRoots ->
      s.fileOps (s.fs.handle handle).node = .fat ->
        ReadsTold size (fun buffer => fatRead handle buffer size s) (UserKept s)) :
    Told (fileReadBy fatRead) := by
  intro s handle size hs hfits
  simp only [fileReadBy_eq]
  split
  · exact blockfileRead_told hfits
  · next hfile => exact hfat s handle size hs hfile
  · exact keybRead_told handle size s
  all_goals exact readsTold_nothing size s

theorem fileRead_eq (turns depth : Nat) : exists fatRead,
    fileRead turns depth = fileReadBy fatRead ∧
      forall s handle size, s.FatRoots ->
        s.fileOps (s.fs.handle handle).node = .fat ->
          ReadsTold size (fun buffer => fatRead handle buffer size s)
            (UserKept s) := by
  induction depth with
  | zero => exact ⟨_, rfl, fun s handle size _ _ => Or.inl ⟨.hang, fun _ => rfl⟩⟩
  | succ depth ih =>
      rcases ih with ⟨fatRead, heq, hfat⟩
      have htold : Told (fileRead turns depth) := by
        rw [heq]
        exact fileReadBy_told hfat
      exact ⟨_, rfl, fun s handle size hs hfile =>
        fatReadFile_told htold (fileRead_user turns depth) turns size hs hfile⟩

end DeviceState

/-!
# Words and numbers
-/

def fileIoStatusSuccess : Word := 0

/-- A word that its readers take for a successful read of {lit}`n` bytes. -/
def Decodes (word : Word) (n : Nat) : Prop :=
  word &&& fileIoResultStatusMask = fileIoStatusSuccess ∧
    (word &&& fileIoResultSizeMask).toNat = n

theorem decodes_iff {word : Word} {n : Nat} :
    Decodes word n <-> word.toNat = n ∧ n < 4096 := by
  have hsize : (word &&& fileIoResultSizeMask).toNat = word.toNat % 4096 := by
    rw [BitVec.toNat_and]
    exact Nat.and_two_pow_sub_one_eq_mod _ 12
  have hstatus : word &&& fileIoResultStatusMask = fileIoStatusSuccess <->
      word.toNat < 4096 := by
    have hmask : fileIoResultStatusMask = BitVec.allOnes 16 <<< 12 := by decide
    have hlt := word.isLt
    rw [hmask, ← BitVec.shiftLeft_ushiftRight]
    constructor
    · intro hzero
      have hnat := congrArg BitVec.toNat hzero
      rw [BitVec.toNat_shiftLeft, BitVec.toNat_ushiftRight, Nat.shiftLeft_eq,
        Nat.shiftRight_eq_div_pow] at hnat
      change _ = 0 at hnat
      omega
    · intro hless
      apply BitVec.eq_of_toNat_eq
      rw [BitVec.toNat_shiftLeft, BitVec.toNat_ushiftRight, Nat.shiftLeft_eq,
        Nat.shiftRight_eq_div_pow, Nat.div_eq_of_lt hless]
      rfl
  unfold Decodes
  rw [hstatus, hsize]
  omega

/-- A read that puts {lit}`n` bytes in the front of any buffer, and no more,
and returns a word. -/
def Transfers (read : Bytes -> Result (Word × Bytes × σ)) (n : Nat) (word : Word) :
    Prop :=
  exists data t, Fills read ⟨word, n, data, t⟩

theorem Fills.count_le {read : Bytes -> Result (Word × Bytes × σ)}
    {r r' : Filling σ} (h : Fills read r) (h' : Fills read r') :
    r.count ≤ r'.count := by
  by_contra hless
  have hbyte : forall b : Byte, r.data r'.count = b := by
    intro b
    have heq := (h fun _ => b).symm.trans (h' fun _ => b)
    have hbytes := congrFun (congrArg (fun z => z.2.1) (Except.ok.inj heq)) r'.count
    dsimp only at hbytes
    rw [splice_before (by omega), splice_behind (Nat.le_refl _)] at hbytes
    exact hbytes
  exact absurd ((hbyte 0).symm.trans (hbyte 1)) (by decide)

theorem Transfers.unique {read : Bytes -> Result (Word × Bytes × σ)}
    {n n' : Nat} {word word' : Word} (h : Transfers read n word)
    (h' : Transfers read n' word') : n = n' ∧ word = word' := by
  rcases h with ⟨data, t, h⟩
  rcases h' with ⟨data', t', h'⟩
  constructor
  · exact Nat.le_antisymm (h.count_le h') (h'.count_le h)
  · have heq := (h fun _ => 0).symm.trans (h' fun _ => 0)
    exact congrArg Prod.fst (Except.ok.inj heq)

namespace DeviceState

/-- What has to hold of a read of {lit}`n` bytes for its word to decode.  A block
device has to be asked for less than 4096 bytes in a range that does not wrap, or
for nothing. -/
def DecodesWhen (s : DeviceState) (handle size : Word) (n : Nat) : Prop :=
  let file := s.fs.handle handle
  match s.fileOps file.node with
  | .block => (s.blockFile file.node).read = none ∨ size.toNat = 0 ∨
      size.toNat < 4096 ∧ file.position.toNat + size.toNat ≤ 2 ^ 64
  | .fat => n < 4096
  | _ => True

theorem blockfileRead_idle {s : DeviceState} {handle : Word}
    (hread : (s.blockFile (s.fs.handle handle).node).read = none) (size : Word) :
    Transfers (fun buffer => blockfileRead handle buffer size s) 0 0 := by
  refine ⟨fun _ => 0, (s.setBlockState s.blockState).setPosition handle
    (s.fs.handle handle).position, ?_⟩
  intro buffer
  unfold blockfileRead
  dsimp only
  rw [blockfileRead_none _ _ buffer hread, ok_bind, splice_zero]

theorem blockfileRead_transfers (s : DeviceState) (handle size : Word) :
    Fails (fun buffer => blockfileRead handle buffer size s) ∨
      exists n word, n ≤ size.toNat ∧
        Transfers (fun buffer => blockfileRead handle buffer size s) n word := by
  cases hread : (s.blockFile (s.fs.handle handle).node).read with
  | none => exact Or.inr ⟨0, 0, Nat.zero_le _, blockfileRead_idle hread size⟩
  | some read =>
      rcases blockfileRead_reads hread size with hfail | ⟨data, t, hfill⟩
      · exact Or.inl hfail
      · refine Or.inr ⟨_, _, ?_, data, t, hfill⟩
        split
        · exact Nat.le_refl _
        · exact Nat.zero_le _

theorem blockfileRead_decodes {s : DeviceState} {handle size word : Word} {n : Nat}
    (h : Transfers (fun buffer => blockfileRead handle buffer size s) n word) :
    Decodes word n <->
      (s.blockFile (s.fs.handle handle).node).read = none ∨ size.toNat = 0 ∨
        size.toNat < 4096 ∧
          (s.fs.handle handle).position.toNat + size.toNat ≤ 2 ^ 64 := by
  rw [decodes_iff]
  cases hread : (s.blockFile (s.fs.handle handle).node).read with
  | none =>
      rcases h.unique (blockfileRead_idle hread size) with ⟨rfl, rfl⟩
      exact ⟨fun _ => Or.inl rfl, fun _ => ⟨rfl, by decide⟩⟩
  | some read =>
      rcases blockfileRead_reads hread size with ⟨e, hfail⟩ | ⟨data, t, hfill⟩
      · rcases h with ⟨data, t, hfill⟩
        cases (hfail fun _ => 0).symm.trans (hfill fun _ => 0)
      · rcases h.unique ⟨data, t, hfill⟩ with ⟨hn, hword⟩
        rw [hn, hword]
        split
        · next hfits =>
            refine ⟨fun h => Or.inr (Or.inr ⟨h.2, hfits⟩), ?_⟩
            rintro (hnone | hzero | ⟨hless, _⟩)
            · cases hnone
            · exact ⟨rfl, by omega⟩
            · exact ⟨rfl, hless⟩
        · next hwraps =>
            refine ⟨fun h => Or.inr (Or.inl h.1), ?_⟩
            rintro (hnone | hzero | ⟨_, hfits⟩)
            · cases hnone
            · exact ⟨hzero, by decide⟩
            · exact absurd hfits hwraps

/-- The word of a read decodes to the number of bytes exactly when it is below
4096, except on a block device whose range wraps; a read that is asked for fewer
bytes never transfers more. -/
theorem read_results_decode (turns depth : Nat) {s : DeviceState}
    (hroots : s.FatRoots) (hkeyb : s.keyb.bufferUsed ≤ bufSize)
    (handle size : Word) :
    (Fails (fun buffer => fileRead turns depth handle buffer size s) ∨
      exists n word, Transfers
        (fun buffer => fileRead turns depth handle buffer size s) n word) ∧
    forall n word, Transfers
        (fun buffer => fileRead turns depth handle buffer size s) n word ->
      n ≤ size.toNat ∧ (Decodes word n <-> s.DecodesWhen handle size n) := by
  rcases fileRead_eq turns depth with ⟨fatRead, heq, hfat⟩
  rw [heq]
  unfold DecodesWhen
  simp only [fileReadBy_eq]
  cases hfile : s.fileOps (s.fs.handle handle).node with
  | block =>
      dsimp only
      have hsome := blockfileRead_transfers s handle size
      refine ⟨hsome.imp_right fun ⟨n, word, _, h⟩ => ⟨n, word, h⟩, ?_⟩
      intro n word h
      refine ⟨?_, blockfileRead_decodes h⟩
      rcases hsome with ⟨e, hfail⟩ | ⟨n', word', hle, h'⟩
      · rcases h with ⟨data, t, hfill⟩
        cases (hfail fun _ => 0).symm.trans (hfill fun _ => 0)
      · rw [(h.unique h').1]
        exact hle
  | fat =>
      dsimp only
      rcases hfat s handle size hroots hfile with ⟨e, hfail⟩ | ⟨r, hfill, htells, _⟩
      · refine ⟨Or.inl ⟨e, hfail⟩, ?_⟩
        rintro n word ⟨data, t, hfill⟩
        cases (hfail fun _ => 0).symm.trans (hfill fun _ => 0)
      · have hr : Transfers (fun buffer => fatRead handle buffer size s) r.count
            r.word := ⟨r.data, r.state, hfill⟩
        refine ⟨Or.inr ⟨_, _, hr⟩, ?_⟩
        intro n word h
        rcases h.unique hr with ⟨rfl, rfl⟩
        rw [decodes_iff]
        exact ⟨htells.inside, And.right, fun hless => ⟨htells.small hless, hless⟩⟩
  | keyboard =>
      dsimp only
      have hsize := keybRead_size s.keyb (fun _ => 0) size
      have hr : Transfers (fun buffer => keybRead handle buffer size s) _ _ :=
        ⟨_, _, keybRead_fills handle size s⟩
      refine ⟨Or.inr ⟨_, _, hr⟩, ?_⟩
      intro n word h
      rcases h.unique hr with ⟨rfl, rfl⟩
      refine ⟨Nat.min_le_left _ _, fun _ => trivial, fun _ => decodes_iff.mpr ⟨hsize, ?_⟩⟩
      have hfew : s.keyb.bufferUsed.toNat ≤ 8 := hkeyb
      omega
  | none | ramfs | screen =>
      dsimp only
      have hr : Transfers (fun buffer : Bytes =>
          (.ok (0, buffer, s) : Result (Word × Bytes × DeviceState))) 0 0 :=
        ⟨fun _ => 0, s, fun buffer =>
          congrArg (fun bytes : Bytes => Except.ok (0, bytes, s))
            (splice_zero _ buffer).symm⟩
      refine ⟨Or.inr ⟨_, _, hr⟩, ?_⟩
      intro n word h
      rcases h.unique hr with ⟨rfl, rfl⟩
      exact ⟨Nat.zero_le _, fun _ => trivial, fun _ => decodes_iff.mpr ⟨rfl, by decide⟩⟩

/-!
# A small kernel

The first task has one open file, and it asks for bytes at the place {lit}`0` of
its segment.
-/

theorem smallDevice_roots (position : Uint64) (size : Word) :
    (smallDevice .block position size).FatRoots := by
  intro node hfile
  cases hfile

theorem read_results_decode_512 :
    (Fails (fun buffer => fileRead 9 1 16 buffer 512
        (smallDevice .block (init64 0 0 0 0) 512)) ∨
      exists n word, Transfers (fun buffer => fileRead 9 1 16 buffer 512
        (smallDevice .block (init64 0 0 0 0) 512)) n word) ∧
    forall n word, Transfers (fun buffer => fileRead 9 1 16 buffer 512
        (smallDevice .block (init64 0 0 0 0) 512)) n word ->
      n ≤ (512 : Word).toNat ∧ (Decodes word n <->
        (smallDevice .block (init64 0 0 0 0) 512).DecodesWhen 16 512 n) :=
  read_results_decode 9 1 (smallDevice_roots _ _) (by decide) 16 512

/-- A block device is read in full by a read of 4096 bytes, and the word says
that it failed. -/
theorem full_read_not_decoded : exists n word,
    Transfers (fun buffer => fileRead 9 1 16 buffer 4096
      (smallDevice .block (init64 0 0 0 0) 4096)) n word ∧
      n = 4096 ∧ word &&& fileIoResultStatusMask ≠ fileIoStatusSuccess ∧
      ¬ Decodes word n := by
  have hread : ((smallDevice .block (init64 0 0 0 0) 4096).blockFile 8).read =
      some fun block _ => block.i0.setWidth 8 := rfl
  have hreads := @blockfileRead_reads _ 16 _ hread 4096
  rcases hreads with ⟨e, hfail⟩ | ⟨data, t, hfill⟩
  · have hok : (blockfileRead 16 (fun _ => 0) 4096
        (smallDevice .block (init64 0 0 0 0) 4096)).toOption.isSome = true := by
      decide +kernel
    have herror := hfail fun _ => 0
    dsimp only at herror
    rw [herror] at hok
    cases hok
  · refine ⟨4096, 4096, ⟨data, t, hfill⟩, rfl, by decide, ?_⟩
    intro hdecodes
    exact absurd (decodes_iff.mp hdecodes).2 (by decide)

end DeviceState

end Fs
end Rmmtos
