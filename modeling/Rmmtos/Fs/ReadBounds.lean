import Rmmtos.Fs.BlockPieces
import Rmmtos.Fs.File

/-!
# Reads inside their buffers

A read writes to no byte behind the size that it is given, and returns no more
than that size, whatever the disk, the cache and the position are like.
-/

namespace Rmmtos
namespace Fs

open Library Library.Zones Kernel

structure StaysInside (buffer : Bytes) (size word : Word) (bytes : Bytes) :
    Prop where
  word_le : word.toNat ≤ size.toNat
  behind : forall i, size.toNat ≤ i -> bytes i = buffer i

theorem StaysInside.nothing (buffer : Bytes) (size : Word) :
    StaysInside buffer size 0 buffer :=
  ⟨Nat.zero_le _, fun _ _ => rfl⟩

/-!
# Block devices
-/

/-- A state of the loop of {lit}`blockfile_read`: the buffer holds what was
copied and behind it what it held before. -/
def BlockCopied (r : Span) (buffer : Bytes) (x : BlockRead) : Prop :=
  exists b data, r.first ≤ b ∧ b ≤ r.last + 1 ∧ ReadAt r x b ∧
    x.buffer = splice data x.done.toNat buffer

theorem BlockCopied.inside {r : Span} {buffer : Bytes} {x : BlockRead}
    (h : BlockCopied r buffer x) :
    x.done.toNat ≤ r.size ∧ forall i, r.size ≤ i -> x.buffer i = buffer i := by
  rcases h with ⟨b, data, hfirst, hlast, hx, hbuffer⟩
  have hdone : x.done.toNat ≤ r.size := by
    rw [hx.done]
    unfold Span.done
    omega
  refine ⟨hdone, ?_⟩
  intro i hi
  rw [hbuffer, splice_behind (by omega)]

section Blocks

variable {f : BlockFile} {read : Uint64 -> Nat -> Byte} {blockFile : Word}
  {position : Uint64} {size : Word} {beginBlock endBlock : Uint64}

def copiedBehind (data : Bytes) (x : BlockRead) (partBegin : Word)
    (fetched : Word × Option (Fin cachedBlocks) × BlockState) : Bytes :=
  splice data x.done.toNat fun i => peek fetched.2.2.mem kernelSegment
    (offsetFrom (fetched.1 + partBegin) (i - x.done.toNat))

theorem copyPart_splice {x : BlockRead} {b : Nat} {data buffer : Bytes}
    (hin : (spanOf f position size).Inside)
    (hx : ReadAt (spanOf f position size) x b)
    (hfirst : (spanOf f position size).first ≤ b)
    (hlast : b ≤ (spanOf f position size).last)
    (hbegin : beginBlock.toNat = (spanOf f position size).first)
    (hend : endBlock.toNat = (spanOf f position size).last)
    (hbuffer : x.buffer = splice data x.done.toNat buffer)
    (fetched : Word × Option (Fin cachedBlocks) × BlockState) :
    (copyPart blockFile x (blockPart f beginBlock endBlock size x) fetched).buffer =
      splice (copiedBehind data x (blockPart f beginBlock endBlock size x).1 fetched)
        (copyPart blockFile x (blockPart f beginBlock endBlock size x)
          fetched).done.toNat buffer := by
  have hnext := hx.next hin hfirst hlast hbegin hend blockFile fetched
  have hpart := (blockPart_eq hin hx hfirst hlast hbegin hend).2
  have hmore := ((spanOf f position size).part hin.k_pos hin.size_pos hfirst
    hlast).1
  have hsum : x.done.toNat + (blockPart f beginBlock endBlock size x).2.toNat =
      (copyPart blockFile x (blockPart f beginBlock endBlock size x)
        fetched).done.toNat := by
    rw [hnext.done, hx.done, hpart]
    omega
  rw [← hsum]
  unfold copyPart
  dsimp only
  rw [hbuffer]
  exact writeRun_splice ..

theorem BlockCopied.turn {buffer : Bytes} {x y : BlockRead}
    (hin : (spanOf f position size).Inside)
    (hbegin : beginBlock.toNat = (spanOf f position size).first)
    (hend : endBlock.toNat = (spanOf f position size).last)
    (h : BlockCopied (spanOf f position size) buffer x)
    (hgoes : blockReadGoes endBlock size x = true)
    (hturn : blockReadTurn read f blockFile beginBlock endBlock size x = .ok y) :
    BlockCopied (spanOf f position size) buffer y := by
  rcases h with ⟨b, data, hfirst, hlast, hx, hbuffer⟩
  have hle : b ≤ (spanOf f position size).last := by
    by_contra hbehind
    have heq : b = (spanOf f position size).last + 1 := by
      omega
    rw [heq] at hx
    rw [blockReadGoes_false hin hx] at hgoes
    cases hgoes
  rcases blockReadTurn_eq hturn with ⟨fetched, _, hy⟩
  rw [hy]
  exact ⟨b + 1, _, Nat.le_succ_of_le hfirst, Nat.succ_le_succ hle,
    hx.next hin hfirst hle hbegin hend blockFile fetched,
    copyPart_splice hin hx hfirst hle hbegin hend hbuffer fetched⟩

theorem blockCopied_start (s : BlockState) (buffer : Bytes)
    (hin : (spanOf f position size).Inside)
    (hbegin : beginBlock.toNat = (spanOf f position size).first) :
    BlockCopied (spanOf f position size) buffer
      ⟨s, position, beginBlock, 0, 0, none, buffer⟩ :=
  ⟨_, buffer, Nat.le_refl _,
    Nat.le_succ_of_le (((spanOf f position size).first_le_last).resolve_left
      (Nat.ne_of_gt hin.size_pos)),
    readAt_start f s buffer hin hbegin, (splice_zero buffer buffer).symm⟩

theorem readBlocks_eq {o o' : Word}
    (hin : (spanOf f position size).Inside)
    (hshift : shr64 position f.blockSizeExponent = .ok (o, beginBlock))
    (hshift' : shr64 (add64 position (init64 0 0 0 (size - 1)))
      f.blockSizeExponent = .ok (o', endBlock)) :
    beginBlock.toNat = (spanOf f position size).first ∧
      endBlock.toNat = (spanOf f position size).last := by
  have hsmall := f.small
  have hsize : 1 ≤ size.toNat := hin.size_pos
  rcases shr64_eq position (n := f.blockSizeExponent) (by omega) with
    ⟨_, _, heq, hbegin, _⟩
  rcases shr64_eq (add64 position (init64 0 0 0 (size - 1)))
    (n := f.blockSizeExponent) (by omega) with ⟨_, _, heq', hend, _⟩
  cases hshift.symm.trans heq
  cases hshift'.symm.trans heq'
  refine ⟨hbegin, ?_⟩
  rw [hend, add64_before hsize hin.fits]
  rfl

theorem ReadLoop.inside {s : BlockState} {buffer : Bytes} {xs : List BlockRead}
    {x : BlockRead} (h : ReadLoop f read blockFile s position buffer size
      beginBlock endBlock xs x) :
    x.done.toNat ≤ size.toNat ∧
      forall i, size.toNat ≤ i -> x.buffer i = buffer i := by
  rcases h.begins with ⟨o, hshift⟩
  rcases h.ends with ⟨o', hshift'⟩
  by_cases hnothing : size.toNat = 0 ∨ 2 ^ 64 < position.toNat + size.toNat
  · have hstop := blockReadGoes_nothing s buffer hshift hshift' hnothing
    cases h.turns with
    | none => exact ⟨Nat.zero_le _, fun _ _ => rfl⟩
    | turn hgoes _ _ =>
        rw [hstop] at hgoes
        cases hgoes
  · push Not at hnothing
    have hin := spanOf_inside f (Nat.pos_of_ne_zero hnothing.1) hnothing.2
    rcases readBlocks_eq hin hshift hshift' with ⟨hbegin, hend⟩
    have hx := h.turns.invariant
      (I := BlockCopied (spanOf f position size) buffer)
      (fun _ _ hx hgoes hturn => hx.turn hin hbegin hend hgoes hturn)
      (blockCopied_start s buffer hin hbegin)
    exact hx.inside

theorem blockfileRead_inside {s : BlockState} {buffer : Bytes}
    {r : BlockReadResult}
    (hrun : blockfileRead f blockFile s position buffer size = .ok r) :
    StaysInside buffer size r.size r.buffer := by
  cases hread : f.read with
  | none =>
      rw [blockfileRead_none blockFile s buffer hread] at hrun
      rw [← Except.ok.inj hrun]
      exact StaysInside.nothing buffer size
  | some read =>
      by_cases hnothing : size.toNat = 0 ∨ 2 ^ 64 < position.toNat + size.toNat
      · rw [blockfileRead_nothing blockFile s buffer hread hnothing] at hrun
        rw [← Except.ok.inj hrun]
        exact ⟨Nat.le_refl _, fun _ _ => rfl⟩
      · push Not at hnothing
        have hin := spanOf_inside f (Nat.pos_of_ne_zero hnothing.1) hnothing.2
        have hsmall := f.small
        rcases shr64_eq position (n := f.blockSizeExponent) (by omega) with
          ⟨_, _, hshift, _⟩
        rcases shr64_eq (add64 position (init64 0 0 0 (size - 1)))
          (n := f.blockSizeExponent) (by omega) with ⟨_, _, hshift', _⟩
        rcases readBlocks_eq hin hshift hshift' with ⟨hbegin, hend⟩
        rw [blockfileRead_eq blockFile s buffer hread hshift hshift'] at hrun
        rcases ok_bind_iff.mp hrun with ⟨x, hloop, hrest⟩
        rcases ok_bind_iff.mp hrest with ⟨s', _, hr⟩
        have hx := (whileLoop_invariant
          (I := BlockCopied (spanOf f position size) buffer)
          (fun _ _ hx hgoes hturn => hx.turn hin hbegin hend hgoes hturn) hloop
          (blockCopied_start s buffer hin hbegin)).1
        rw [← Except.ok.inj hr]
        exact ⟨Nat.le_refl _, hx.inside.2⟩

end Blocks

/-!
# FAT files

The calls on the volume stay inside the buffers that the driver gives them.
Nothing else is asked of them, nor of what they read.
-/

def VolumeCalls.StayInside (calls : VolumeCalls σ) : Prop :=
  forall buffer size s word bytes s',
    calls.read buffer size s = .ok (word, bytes, s') ->
      StaysInside buffer size word bytes

structure FatInside (buffer : Bytes) (count : Word) (x : FatReadOn σ) :
    Prop where
  completed : x.completed.toNat ≤ count.toNat
  behind : forall i, count.toNat ≤ i -> x.buffer i = buffer i

section Fat

variable {σ : Type} {calls : VolumeCalls σ} {root : FatGeometry}
  {endOffset count : Word} {buffer : Bytes}

theorem partSize_le {clusterOffset completed nextCluster : Word}
    (h : completed.toNat ≤ count.toNat) :
    (partSize root endOffset count clusterOffset completed nextCluster).toNat ≤
      count.toNat - completed.toNat := by
  have hsub : (count - completed).toNat = count.toNat - completed.toNat :=
    BitVec.toNat_sub_of_le h
  have hleast : forall size : Word,
      (if count - completed < size then count - completed else size).toNat ≤
        (count - completed).toNat := by
    intro size
    split
    · exact Nat.le_refl _
    · next hmore => exact BitVec.not_lt.mp hmore
  rw [← hsub]
  exact hleast _

theorem masked_le (word : Word) :
    (word &&& fileIoResultSizeMask).toNat ≤ word.toNat := by
  rw [BitVec.toNat_and]
  exact Nat.and_le_left

theorem FatInside.turn (hcalls : calls.StayInside) {x y : FatReadOn σ}
    (hx : FatInside buffer count x)
    (hturn : fatReadTurnOn calls root endOffset count x = .ok y) :
    FatInside buffer count y := by
  rcases ok_bind_iff.mp hturn with ⟨next, _, hrest⟩
  split at hrest
  · rw [← Except.ok.inj hrest]
    exact ⟨hx.completed, hx.behind⟩
  · rcases ok_bind_iff.mp hrest with ⟨r, hread, hy⟩
    have hle : (partSize root endOffset count x.clusterOffset x.completed
        next.1).toNat ≤ count.toNat - x.completed.toNat :=
      partSize_le hx.completed
    have hr := hcalls _ _ _ _ _ _ hread
    have hword := hr.word_le
    have hmask := masked_le r.1
    have hcompleted := hx.completed
    rw [← Except.ok.inj hy]
    constructor
    · dsimp only
      rw [BitVec.toNat_add]
      exact Nat.le_trans (Nat.mod_le _ _) (by omega)
    · intro i hi
      dsimp only
      rw [splice_behind (by omega), hr.behind _ (by omega),
        Nat.add_sub_cancel' (by omega)]
      exact hx.behind i hi

theorem fatLoop_inside (hcalls : calls.StayInside) {s x : FatReadOn σ}
    {xs : List (FatReadOn σ)} (hs : s.completed = 0) (hbuffer : s.buffer = buffer)
    (h : Turns (fatReadGoes count) (fatReadTurnOn calls root endOffset count)
      s xs x) : FatInside buffer count x := by
  refine h.invariant (I := FatInside buffer count)
    (fun _ _ hx _ hturn => hx.turn hcalls hturn) ?_
  constructor
  · rw [hs]
    exact Nat.zero_le _
  · intro i _
    rw [hbuffer]

theorem fatReadFileOn_inside (hcalls : calls.StayInside) {turns : Nat}
    {entryPosition position : Uint64} {s : σ} {x : FatReadOn σ}
    (hrun : fatReadFileOn turns calls root entryPosition position buffer count s =
      .ok x) : StaysInside buffer count x.completed x.buffer := by
  rcases ok_bind_iff.mp hrun with ⟨offset, _, hrest⟩
  rcases ok_bind_iff.mp hrest with ⟨entry, _, hrest⟩
  rcases ok_bind_iff.mp hrest with ⟨ends, _, hloop⟩
  have hx := (whileLoop_invariant (I := FatInside buffer count)
    (fun _ _ hx _ hturn => hx.turn hcalls hturn) hloop
    ⟨Nat.zero_le _, fun _ _ => rfl⟩).1
  exact ⟨hx.completed, hx.behind⟩

end Fat

/-!
# What a read keeps

A read changes the positions of handles, the cache, the heap and the keyboard,
and of the memory only the kernel's own.
-/

structure VolumeCalls.Keep (calls : VolumeCalls σ) (I : σ -> Prop) : Prop where
  seek : forall position s, I s -> I (calls.seek position s)
  leftover : forall s, I s -> I (calls.leftover s).2
  read : forall buffer size s word bytes s', I s ->
    calls.read buffer size s = .ok (word, bytes, s') -> I s'

section Keep

variable {σ : Type} {calls : VolumeCalls σ} {I : σ -> Prop}
  {root : FatGeometry} {endOffset count : Word} {buffer : Bytes}

theorem readNextCluster_keeps (hcalls : calls.Keep I) {currentCluster : Word}
    {s : σ} {r : Word × σ} (hs : I s)
    (hrun : readNextCluster calls root currentCluster s = .ok r) : I r.2 := by
  rcases ok_bind_iff.mp hrun with ⟨entry, hread, hr⟩
  rw [← Except.ok.inj hr]
  exact hcalls.read _ _ _ _ _ _ (hcalls.seek _ _ (hcalls.leftover _ hs)) hread

theorem fatReadTurnOn_keeps (hcalls : calls.Keep I) {x y : FatReadOn σ}
    (hx : I x.state) (hturn : fatReadTurnOn calls root endOffset count x = .ok y) :
    I y.state := by
  rcases ok_bind_iff.mp hturn with ⟨next, hnext, hrest⟩
  have hs := readNextCluster_keeps hcalls hx hnext
  split at hrest
  · rw [← Except.ok.inj hrest]
    exact hs
  · rcases ok_bind_iff.mp hrest with ⟨r, hread, hy⟩
    rw [← Except.ok.inj hy]
    exact hcalls.read _ _ _ _ _ _ (hcalls.seek _ _ hs) hread

theorem fatReadFileOn_keeps (hcalls : calls.Keep I) {turns : Nat}
    {entryPosition position : Uint64} {s : σ} {x : FatReadOn σ} (hs : I s)
    (hrun : fatReadFileOn turns calls root entryPosition position buffer count s =
      .ok x) : I x.state := by
  rcases ok_bind_iff.mp hrun with ⟨offset, _, hrest⟩
  rcases ok_bind_iff.mp hrest with ⟨entry, hentry, hrest⟩
  rcases ok_bind_iff.mp hrest with ⟨ends, _, hloop⟩
  rcases ok_bind_iff.mp hentry with ⟨r, hread, hr⟩
  cases hr
  refine (whileLoop_invariant (I := fun x => I x.state)
    (fun _ _ hx _ hturn => fatReadTurnOn_keeps hcalls hx hturn) hloop ?_).1
  exact hcalls.read _ _ _ _ _ _ (hcalls.seek _ _ (hcalls.leftover _ hs)) hread

end Keep

def OutsideKernel (a : Nat) : Prop :=
  forall off, a ≠ linear kernelSegment off

section BlockKeeps

variable {f : BlockFile} {read : Uint64 -> Nat -> Byte} {blockFile : Word}
  {position : Uint64} {size : Word} {s : BlockState} {a : Nat}

theorem fetchBlock_outside (ha : OutsideKernel a) {block : Uint64} {tmp : Word}
    {r : Word × Option (Fin cachedBlocks) × BlockState}
    (hrun : fetchBlock read f blockFile s block tmp = .ok r) :
    r.2.2.mem a = s.mem a := by
  unfold fetchBlock at hrun
  dsimp only at hrun
  split at hrun
  all_goals
    split at hrun
    · rcases ok_bind_iff.mp hrun with ⟨x, _, hx⟩
      rw [← Except.ok.inj hx]
      exact writeRun_other fun i _ => ha _
    · rw [← Except.ok.inj hrun]

theorem putBlock_mem (block : Uint64)
    (x : Word × Option (Fin cachedBlocks) × BlockState) :
    (putBlock blockFile block x).2.mem = x.2.2.mem := by
  unfold putBlock
  split
  · rfl
  · split <;> rfl

theorem blockfileRead_outside (ha : OutsideKernel a) {buffer : Bytes}
    {r : BlockReadResult}
    (hrun : blockfileRead f blockFile s position buffer size = .ok r) :
    r.state.mem a = s.mem a := by
  cases hread : f.read with
  | none =>
      rw [blockfileRead_none blockFile s buffer hread] at hrun
      rw [← Except.ok.inj hrun]
  | some read =>
      have hsmall := f.small
      rcases shr64_eq position (n := f.blockSizeExponent) (by omega) with
        ⟨_, _, hshift, _⟩
      rcases shr64_eq (add64 position (init64 0 0 0 (size - 1)))
        (n := f.blockSizeExponent) (by omega) with ⟨_, _, hshift', _⟩
      rw [blockfileRead_eq blockFile s buffer hread hshift hshift'] at hrun
      rcases ok_bind_iff.mp hrun with ⟨x, hloop, hrest⟩
      rcases ok_bind_iff.mp hrest with ⟨s', hdrop, hr⟩
      have hx : x.state.mem a = s.mem a := by
        refine (whileLoop_invariant (I := fun x => x.state.mem a = s.mem a) ?_
          hloop rfl).1
        intro x y hx _ hturn
        rcases blockReadTurn_eq hturn with ⟨fetched, hfetch, hy⟩
        rw [hy]
        unfold copyPart
        dsimp only
        rw [putBlock_mem, fetchBlock_outside ha hfetch]
        exact hx
      rw [← Except.ok.inj hr, ← hx]
      unfold dropBlock at hdrop
      split at hdrop
      · rcases ok_bind_iff.mp hdrop with ⟨heap, _, hs'⟩
        rw [← Except.ok.inj hs']
      · rw [← Except.ok.inj hdrop]

end BlockKeeps

/-!
# All files
-/

namespace DeviceState

/-- A read operation that stays inside its buffer in every state. -/
def StaysInside (read : ReadOp) : Prop :=
  forall handle buffer size s word bytes s',
    read handle buffer size s = .ok (word, bytes, s') ->
      Fs.StaysInside buffer size word bytes

theorem blockfileRead_inside : StaysInside blockfileRead := by
  intro handle buffer size s word bytes s' hrun
  rcases ok_bind_iff.mp hrun with ⟨r, hread, hr⟩
  cases hr
  exact Fs.blockfileRead_inside hread

theorem keybRead_inside : StaysInside keybRead := by
  intro handle buffer size s word bytes s' hrun
  cases hrun
  have hsize := keybRead_size s.keyb buffer size
  constructor
  · omega
  · intro i hi
    rw [(keybRead_eq s.keyb buffer size).1]
    exact writeRun_other fun j hj => by omega

theorem fatReadFile_inside {read : ReadOp} (hread : StaysInside read)
    (turns : Nat) : StaysInside (fatReadFile turns read) := by
  intro handle buffer size s word bytes s' hrun
  rcases ok_bind_iff.mp hrun with ⟨x, hfat, hx⟩
  cases hx
  exact fatReadFileOn_inside
    (fun buffer size s word bytes s' h => hread _ buffer size s word bytes s' h)
    hfat

theorem fileReadBy_inside {fatRead : ReadOp} (hfat : StaysInside fatRead) :
    StaysInside (fileReadBy fatRead) := by
  intro handle buffer size s word bytes s' hrun
  unfold fileReadBy at hrun
  dsimp only at hrun
  split at hrun
  · cases hrun
  · split at hrun
    · cases hrun
    · split at hrun
      · exact blockfileRead_inside _ _ _ _ _ _ _ hrun
      · exact hfat _ _ _ _ _ _ _ hrun
      · exact keybRead_inside _ _ _ _ _ _ _ hrun
      all_goals
        cases hrun
        exact StaysInside.nothing buffer size

theorem fileRead_inside (turns depth : Nat) :
    StaysInside (fileRead turns depth) := by
  induction depth with
  | zero =>
      apply fileReadBy_inside
      intro handle buffer size s word bytes s' hrun
      cases hrun
  | succ depth ih => exact fileReadBy_inside (fatReadFile_inside ih turns)

/-- A read operation that goes from a state to a related one. -/
def Keeps (R : DeviceState -> DeviceState -> Prop) (read : ReadOp) : Prop :=
  forall handle buffer size s word bytes s',
    read handle buffer size s = .ok (word, bytes, s') -> R s s'

/-- A relation that the steps of a read keep. -/
structure ReadFrame (R : DeviceState -> DeviceState -> Prop) : Prop where
  refl : forall s, R s s
  trans : forall {s t u}, R s t -> R t u -> R s u
  position : forall s handle position, R s (s.setPosition handle position)
  lookup : forall s : DeviceState, R s { s with lookups := s.lookups + 1 }
  block : Keeps R blockfileRead
  keyb : Keeps R keybRead

section Frames

variable {R : DeviceState -> DeviceState -> Prop}

theorem volumeCalls_keep (hR : ReadFrame R) {read : ReadOp} (hread : Keeps R read)
    (handle : Word) (s : DeviceState) : (volumeCalls read handle).Keep (R s) where
  seek := fun position _ h => hR.trans h (hR.position _ handle position)
  leftover := fun _ h => hR.trans h (hR.lookup _)
  read := fun _ _ _ _ _ _ h hrun => hR.trans h (hread _ _ _ _ _ _ _ hrun)

theorem fatReadFile_keeps (hR : ReadFrame R) {read : ReadOp} (hread : Keeps R read)
    (turns : Nat) : Keeps R (fatReadFile turns read) := by
  intro handle buffer size s word bytes s' hrun
  rcases ok_bind_iff.mp hrun with ⟨x, hfat, hx⟩
  cases hx
  have hkeep : (volumeCalls read (s.fatRoot (s.fatFile
      (s.fs.handle handle).node).root).handle).Keep (R s) :=
    volumeCalls_keep hR hread _ s
  exact hR.trans (fatReadFileOn_keeps hkeep (hR.refl s) hfat) (hR.position ..)

theorem fileReadBy_keeps (hR : ReadFrame R) {fatRead : ReadOp}
    (hfat : Keeps R fatRead) : Keeps R (fileReadBy fatRead) := by
  intro handle buffer size s word bytes s' hrun
  unfold fileReadBy at hrun
  dsimp only at hrun
  split at hrun
  · cases hrun
  · split at hrun
    · cases hrun
    · split at hrun
      · exact hR.block _ _ _ _ _ _ _ hrun
      · exact hfat _ _ _ _ _ _ _ hrun
      · exact hR.keyb _ _ _ _ _ _ _ hrun
      all_goals
        cases hrun
        exact hR.refl s

/-- What every step of a read keeps, a read keeps. -/
theorem fileRead_keeps (hR : ReadFrame R) (turns depth : Nat) :
    Keeps R (fileRead turns depth) := by
  induction depth with
  | zero =>
      apply fileReadBy_keeps hR
      intro handle buffer size s word bytes s' hrun
      cases hrun
  | succ depth ih => exact fileReadBy_keeps hR (fatReadFile_keeps hR ih turns)

end Frames

structure UserKept (s s' : DeviceState) : Prop where
  task : s'.task = s.task
  fileOps : s'.fileOps = s.fileOps
  fatRoot : s'.fatRoot = s.fatRoot
  fatFile : s'.fatFile = s.fatFile
  mem : forall a, OutsideKernel a -> s'.mem a = s.mem a

theorem UserKept.refl (s : DeviceState) : UserKept s s :=
  ⟨rfl, rfl, rfl, rfl, fun _ _ => rfl⟩

theorem UserKept.trans {s s' s'' : DeviceState} (h : UserKept s s')
    (h' : UserKept s' s'') : UserKept s s'' where
  task := h'.task.trans h.task
  fileOps := h'.fileOps.trans h.fileOps
  fatRoot := h'.fatRoot.trans h.fatRoot
  fatFile := h'.fatFile.trans h.fatFile
  mem := fun a ha => (h'.mem a ha).trans (h.mem a ha)

def KeepsUser (read : ReadOp) : Prop :=
  forall handle buffer size s word bytes s',
    read handle buffer size s = .ok (word, bytes, s') -> UserKept s s'

theorem blockfileRead_user : KeepsUser blockfileRead := by
  intro handle buffer size s word bytes s' hrun
  rcases ok_bind_iff.mp hrun with ⟨r, hread, hr⟩
  cases hr
  exact ⟨rfl, rfl, rfl, rfl,
    fun a ha => blockfileRead_outside (s := s.blockState) ha hread⟩

theorem keybRead_user : KeepsUser keybRead := by
  intro handle buffer size s word bytes s' hrun
  cases hrun
  exact ⟨rfl, rfl, rfl, rfl, fun _ _ => rfl⟩

theorem setPosition_user (s : DeviceState) (handle : Word) (position : Uint64) :
    UserKept s (s.setPosition handle position) :=
  ⟨rfl, rfl, rfl, rfl, fun _ _ => rfl⟩

theorem userKept_frame : ReadFrame UserKept where
  refl := UserKept.refl
  trans := UserKept.trans
  position := setPosition_user
  lookup := fun _ => ⟨rfl, rfl, rfl, rfl, fun _ _ => rfl⟩
  block := blockfileRead_user
  keyb := keybRead_user

theorem volumeCalls_user {read : ReadOp} (hread : KeepsUser read) (handle : Word)
    (s : DeviceState) : (volumeCalls read handle).Keep (UserKept s) :=
  volumeCalls_keep userKept_frame hread handle s

theorem fileRead_user (turns depth : Nat) : KeepsUser (fileRead turns depth) :=
  fileRead_keeps userKept_frame turns depth

/-!
# The system call
-/

def askedSize (s : DeviceState) (task : Word) : Word :=
  taskGetRegister s.toKernelState task regDX

/-- The addresses of the buffer that a task gives to {lit}`sys_read_file`. -/
def userBuffer (s : DeviceState) (task : Word) (i : Nat) : Nat :=
  linear (s.task task).segment
    (offsetFrom (taskGetRegister s.toKernelState task regCX) i)

/-- What {lit}`sys_read_file` leaves of its size, the memory of the tasks and
the kernel's buffer. -/
structure SysReadInside (s : DeviceState) (task : Word) (word : Word)
    (s' : DeviceState) : Prop where
  word_le : word.toNat ≤ (s.askedSize task).toNat
  user : forall a, OutsideKernel a ->
    (forall i, i < (s.askedSize task).toNat -> a ≠ s.userBuffer task i) ->
      s'.mem a = s.mem a
  kernel : forall buffer t, s.malloc (s.askedSize task) = .ok (buffer, t) ->
    exists b, buffer = s.fs.heap.address b ∧ s.fs.heap.taken b = false ∧
      (s.askedSize task).toNat ≤ blockSize s.fs.heap.layout b

theorem sysReadFile_cases {turns depth : Nat} {before : Bytes} {task word : Word}
    {s s' : DeviceState}
    (hrun : sysReadFile turns depth before task s = .ok (word, s')) :
    (word = 0 ∧ UserKept s s') ∨
      exists bytes t u, UserKept s t ∧
        fileRead turns depth (taskGetHandle s.toKernelState task
          (taskGetRegister s.toKernelState task regBX)) before
          (s.askedSize task) t = .ok (word, bytes, u) ∧
        UserKept (taskSetMemory u task
          (taskGetRegister s.toKernelState task regCX) bytes word) s' := by
  unfold sysReadFile at hrun
  dsimp only at hrun
  split at hrun
  · cases hrun
    exact Or.inl ⟨rfl, UserKept.refl s⟩
  · rcases ok_bind_iff.mp hrun with ⟨r, hmalloc, hrest⟩
    have ht : UserKept s r.2 := by
      rcases ok_bind_iff.mp hmalloc with ⟨v, hv, hr⟩
      rcases ok_bind_iff.mp hv with ⟨fs, _, hfs⟩
      rw [← Except.ok.inj hr, ← Except.ok.inj hfs]
      exact ⟨rfl, rfl, rfl, rfl, fun _ _ => rfl⟩
    split at hrest
    · cases hrest
      exact Or.inl ⟨rfl, ht⟩
    · rcases ok_bind_iff.mp hrest with ⟨x, hread, hrest⟩
      rcases ok_bind_iff.mp hrest with ⟨u, hfree, hs'⟩
      cases hs'
      refine Or.inr ⟨x.2.1, r.2, x.2.2, ht, hread, ?_⟩
      rcases ok_bind_iff.mp hfree with ⟨v, hv, hu⟩
      rcases ok_bind_iff.mp hv with ⟨fs, _, hfs⟩
      rw [← Except.ok.inj hu, ← Except.ok.inj hfs]
      exact ⟨rfl, rfl, rfl, rfl, fun _ _ => rfl⟩

theorem malloc_fits {s : DeviceState} {size buffer : Word} {t : DeviceState}
    (hheap : HeapInv s.fs.heap) (hrun : s.malloc size = .ok (buffer, t)) :
    exists b, buffer = s.fs.heap.address b ∧ s.fs.heap.taken b = false ∧
      size.toNat ≤ blockSize s.fs.heap.layout b := by
  rcases ok_bind_iff.mp hrun with ⟨v, hv, hr⟩
  rcases ok_bind_iff.mp hv with ⟨w, hw, hvw⟩
  rcases ok_bind_iff.mp hw with ⟨x, hx, hxw⟩
  cases hr
  cases hvw
  cases hxw
  rcases malloc_eq hheap.zoneTable size with ⟨b, hskip, hb, hfree, _, hmalloc⟩ | ⟨_, hpanic⟩
  · rw [hmalloc] at hx
    rw [← Except.ok.inj hx]
    exact ⟨b, rfl, hfree, le_blockSize_of_sorted hheap.sizes_sorted hskip hb⟩
  · rw [hpanic] at hx
    cases hx

theorem sysReadFile_inside {turns depth : Nat} {before : Bytes} {task word : Word}
    {s s' : DeviceState} (hheap : HeapInv s.fs.heap)
    (hrun : sysReadFile turns depth before task s = .ok (word, s')) :
    SysReadInside s task word s' := by
  refine ⟨?_, ?_, fun buffer t h => malloc_fits hheap h⟩
  · rcases sysReadFile_cases hrun with ⟨hzero, _⟩ | ⟨bytes, t, u, _, hread, _⟩
    · rw [hzero]
      exact Nat.zero_le _
    · exact (fileRead_inside turns depth _ _ _ _ _ _ _ hread).word_le
  · intro a ha hnot
    rcases sysReadFile_cases hrun with ⟨_, hkept⟩ | ⟨bytes, t, u, ht, hread, hkept⟩
    · exact hkept.mem a ha
    · have hu := ht.trans (fileRead_user turns depth _ _ _ _ _ _ _ hread)
      have hword := (fileRead_inside turns depth _ _ _ _ _ _ _ hread).word_le
      rw [hkept.mem a ha, ← hu.mem a ha]
      apply writeRun_other
      intro i hi
      rw [hu.task]
      exact hnot i (Nat.lt_of_lt_of_le hi hword)

end DeviceState

/-!
# Every read
-/

/-- A read through any handle stays inside its buffer and so does each state of
its loop, on a device in any state and on a volume whose calls do; the system
call writes to no place behind the size that its task asks for. -/
theorem reads_stay_inside :
    (forall turns depth, DeviceState.StaysInside
      (DeviceState.fileRead turns depth)) ∧
    (forall f read blockFile s position buffer size beginBlock endBlock xs x,
      ReadLoop f read blockFile s position buffer size beginBlock endBlock xs x ->
        x.done.toNat ≤ size.toNat ∧
          forall i, size.toNat ≤ i -> x.buffer i = buffer i) ∧
    (forall (σ : Type) (calls : VolumeCalls σ) root endOffset count buffer state
        wholeClustersLeft clusterOffset currentCluster xs x,
      calls.StayInside ->
      Turns (fatReadGoes count) (fatReadTurnOn calls root endOffset count)
        ⟨state, wholeClustersLeft, clusterOffset, currentCluster, 0, buffer⟩ xs x ->
        x.completed.toNat ≤ count.toNat ∧
          forall i, count.toNat ≤ i -> x.buffer i = buffer i) ∧
    (forall (σ : Type) (calls : VolumeCalls σ) turns root entryPosition position
        buffer count s x,
      calls.StayInside ->
      fatReadFileOn turns calls root entryPosition position buffer count s =
        .ok x ->
        StaysInside buffer count x.completed x.buffer) ∧
    forall turns depth before task s word s',
      HeapInv s.fs.heap ->
      DeviceState.sysReadFile turns depth before task s = .ok (word, s') ->
        DeviceState.SysReadInside s task word s' := by
  refine ⟨DeviceState.fileRead_inside, ?_, ?_, ?_, ?_⟩
  · intro f read blockFile s position buffer size beginBlock endBlock xs x h
    exact h.inside
  · intro σ calls root endOffset count buffer state wholeClustersLeft
      clusterOffset currentCluster xs x hcalls h
    have hx := fatLoop_inside hcalls rfl rfl h
    exact ⟨hx.completed, hx.behind⟩
  · intro σ calls turns root entryPosition position buffer count s x hcalls hrun
    exact fatReadFileOn_inside hcalls hrun
  · intro turns depth before task s word s' hheap hrun
    exact DeviceState.sysReadFile_inside hheap hrun

/-!
# A small device
-/

namespace DeviceState

def smallDevice (ops : FileOps) (position : Uint64) (size : Word) : DeviceState where
  toVfsState := {
    toKernelState := { smallBoot with
      fs := { smallBoot.fs with handle := fun _ => ⟨0x8001, 8, position⟩ }
      mem := fun a => if a = 0x1050a then 1
        else if a = 0x10506 ∨ a = 0x10507 then wordByte size (a - 0x10506) else 0
      task := fun _ => { smallBoot.task 0 with
        segment := firstSegment
        handleCount := 1 }
      handleTable := fun _ _ => 16 }
    vfsRoot := 0
    devfsRoot := 0
    fileOps := fun _ => ops
    content := fun _ _ => 0
    fatRoot := fun _ => ⟨⟨init64 0 0 0 0, init64 0 0 0 0, init64 0 0 0 0, 0⟩, 0⟩
    fatFile := fun _ => ⟨0, init64 0 0 0 0, fun _ => 0⟩
    stack := fun _ _ => 0
    lookups := 0 }
  blockFile := fun _ => countingFile
  cachedBlock := emptyCache
  keyb := Keyb.boot

end DeviceState

def onesCalls : VolumeCalls Unit where
  seek _ s := s
  read buffer size s := .ok (size, splice (fun _ => 1) size.toNat buffer, s)
  leftover s := (fun _ => 0, s)

def onesRoot : FatGeometry where
  rootBegin := init64 0 0 0 0x2600
  rootEnd := init64 0 0 0 0x4200
  fatBegin := init64 0 0 0 0x200
  clusterPot := 9

theorem onesCalls_inside : onesCalls.StayInside := by
  intro buffer size s word bytes s' hrun
  cases hrun
  exact ⟨Nat.le_refl _, fun i hi => splice_behind hi⟩

/-- A read of a cold device comes to a state behind its first block, one of the volume
of ones fills its buffer, and the system call returns. -/
theorem reads_stay_inside_small :
    (exists x, ReadLoop countingFile (fun block _ => block.i0.setWidth 8) 8 coldState
        (init64 0 0 0 500) (fun _ => 0) 100 (init64 0 0 0 0) (init64 0 0 0 1)
        [⟨coldState, init64 0 0 0 500, init64 0 0 0 0, 0, 0, none, fun _ => 0⟩] x ∧
      x.done.toNat ≤ 100 ∧ forall i, 100 ≤ i -> x.buffer i = 0) ∧
    (exists xs x, onesCalls.StayInside ∧
      Turns (fatReadGoes 100) (fatReadTurnOn onesCalls onesRoot 100 100)
        ⟨(), init64 0 0 0 0, 0, 2, 0, fun _ => 0⟩ xs x ∧ xs.length = 1 ∧
      x.completed.toNat ≤ 100 ∧ forall i, 100 ≤ i -> x.buffer i = 0) ∧
    (exists x, fatReadFileOn 9 onesCalls onesRoot (init64 0 0 0 0x2600)
        (init64 0 0 0 0) (fun _ => 0) 100 () = .ok x ∧
      StaysInside (fun _ => 0) 100 x.completed x.buffer) ∧
    exists word s', DeviceState.sysReadFile 9 1 (fun _ => 0) 0
        (DeviceState.smallDevice .block (init64 0 0 0 0) 512) = .ok (word, s') ∧
      DeviceState.SysReadInside (DeviceState.smallDevice .block (init64 0 0 0 0) 512)
        0 word s' := by
  rcases reads_stay_inside with ⟨_, hloop, hturns, hfat, hsys⟩
  refine ⟨?_, ?_, ?_, ?_⟩
  · rcases ok_of_isSome (r := blockReadTurn (fun block _ => block.i0.setWidth 8)
      countingFile 8 (init64 0 0 0 0) (init64 0 0 0 1) 100
      ⟨coldState, init64 0 0 0 500, init64 0 0 0 0, 0, 0, none, fun _ => 0⟩)
      (by decide +kernel) with ⟨x, hx⟩
    have hread : ReadLoop countingFile (fun block _ => block.i0.setWidth 8) 8 coldState
        (init64 0 0 0 500) (fun _ => 0) 100 (init64 0 0 0 0) (init64 0 0 0 1)
        [⟨coldState, init64 0 0 0 500, init64 0 0 0 0, 0, 0, none, fun _ => 0⟩] x :=
      ⟨⟨_, rfl⟩, ⟨_, rfl⟩, .turn rfl hx (.none x)⟩
    exact ⟨x, hread, hloop _ _ _ _ _ _ _ _ _ _ _ hread⟩
  · rcases ok_of_isSome (r := fatReadTurnOn onesCalls onesRoot 100 100
      ⟨(), init64 0 0 0 0, 0, 2, 0, fun _ => 0⟩) (by decide +kernel) with ⟨x, hx⟩
    have hturn : Turns (fatReadGoes 100) (fatReadTurnOn onesCalls onesRoot 100 100)
        ⟨(), init64 0 0 0 0, 0, 2, 0, fun _ => 0⟩ _ x := .turn rfl hx (.none x)
    exact ⟨_, x, onesCalls_inside, hturn, rfl,
      hturns _ _ _ _ _ _ _ _ _ _ _ _ onesCalls_inside hturn⟩
  · rcases ok_of_isSome (r := fatReadFileOn 9 onesCalls onesRoot (init64 0 0 0 0x2600)
      (init64 0 0 0 0) (fun _ => 0) 100 ()) (by decide +kernel) with ⟨x, hx⟩
    exact ⟨x, hx, hfat _ _ _ _ _ _ _ _ _ _ onesCalls_inside hx⟩
  · rcases ok_of_isSome (r := DeviceState.sysReadFile 9 1 (fun _ => 0) 0
      (DeviceState.smallDevice .block (init64 0 0 0 0) 512)) (by decide +kernel) with
      ⟨⟨word, s'⟩, hx⟩
    exact ⟨word, s', hx, hsys _ _ _ _ _ _ _ smallBoot_boot.heap hx⟩

end Fs
end Rmmtos
