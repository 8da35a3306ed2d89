import Rmmtos.Fs.ReadResults
import Rmmtos.Kernel.HeapCalls
import Rmmtos.Memory

/-!
# Stale memory

What {lit}`sys_read_file` gives to a task should not depend on what was in the
kernel's buffer before.  A block device that is read in a range that wraps
returns the size of the range and reads nothing, so the task gets the old bytes
of the buffer.
-/

namespace Rmmtos
namespace Fs

open Library Library.Zones Kernel

namespace DeviceState

/-!
# Reads that report what they read
-/

/-- A read of a block device that reports bytes it has not read. -/
def Unread (s : DeviceState) (handle size : Word) : Prop :=
  s.fileOps (s.fs.handle handle).node = .block ∧
    (s.blockFile (s.fs.handle handle).node).read ≠ none ∧
    2 ^ 64 < (s.fs.handle handle).position.toNat + size.toNat

/-- A read that fails, or reports no more than it has read. -/
def Reports (read : Bytes -> Result (Word × Bytes × DeviceState)) : Prop :=
  Fails read ∨ exists r, Fills read r ∧ r.word.toNat ≤ r.count

theorem ReadsTold.reports {size : Word}
    {read : Bytes -> Result (Word × Bytes × DeviceState)}
    {I : DeviceState -> Prop} (h : ReadsTold size read I) : Reports read :=
  h.imp_right fun ⟨r, hfill, htells, _⟩ => ⟨r, hfill, htells.reported⟩

theorem fileRead_reports (turns depth : Nat) {s : DeviceState}
    (hroots : s.FatRoots) {handle size : Word} (h : ¬ s.Unread handle size) :
    Reports (fun buffer => fileRead turns depth handle buffer size s) := by
  rcases fileRead_eq turns depth with ⟨fatRead, heq, hfat⟩
  rw [heq]
  simp only [fileReadBy_eq]
  cases hfile : s.fileOps (s.fs.handle handle).node with
  | block =>
      dsimp only
      rcases Nat.lt_or_ge (2 ^ 64)
        ((s.fs.handle handle).position.toNat + size.toNat) with hwraps | hfits
      · have hread : (s.blockFile (s.fs.handle handle).node).read = none := by
          by_contra hne
          exact h ⟨hfile, hne, hwraps⟩
        rcases blockfileRead_idle hread size with ⟨data, t, hfill⟩
        exact Or.inr ⟨_, hfill, Nat.le_refl _⟩
      · exact ReadsTold.reports (blockfileRead_told hfits)
  | fat => exact ReadsTold.reports (hfat s handle size hroots hfile)
  | keyboard => exact ReadsTold.reports (keybRead_told handle size s)
  | none | ramfs | screen => exact ReadsTold.reports (readsTold_nothing size s)

/-!
# The block of the buffer

The kernel's buffer is a block of the heap that is in use while the file is
read, so no block that is read lies in it, unless a slot of the cache holds it
before.
-/

end DeviceState

def OtherBlock (h : Heap) (b : Nat) (p : Word) : Prop :=
  exists c, c < blockCount h.layout ∧ c ≠ b ∧ p = h.address c

/-- Block {lit}`b` is taken, and no slot of the cache holds it. -/
structure BlockApart (b : Nat) (s : BlockState) : Prop where
  table : HeapTable s.heap
  pool_fits : s.heap.poolStart.toNat + byteCount s.heap.layout < 65536
  block : b < blockCount s.heap.layout
  taken : s.heap.taken b = true
  slots : forall i, (s.cachedBlock i).buffer ≠ 0 ->
    OtherBlock s.heap b (s.cachedBlock i).buffer

structure BlockStays (b : Nat) (s s' : BlockState) : Prop where
  apart : BlockApart b s'
  zones : SameZones s.heap s'.heap
  bytes : forall i, i < blockSize s.heap.layout b ->
    peek s'.mem kernelSegment (offsetFrom (s.heap.address b) i) =
      peek s.mem kernelSegment (offsetFrom (s.heap.address b) i)

section BlockApart

variable {f : BlockFile} {read : Uint64 -> Nat -> Byte} {blockFile tmp : Word}
  {block position : Uint64} {size : Word} {b c : Nat} {s s' s'' : BlockState}

theorem BlockStays.refl (h : BlockApart b s) : BlockStays b s s :=
  ⟨h, ⟨rfl, rfl, rfl⟩, fun _ _ => rfl⟩

theorem BlockStays.trans (h : BlockStays b s s') (h' : BlockStays b s' s'') :
    BlockStays b s s'' := by
  refine ⟨h'.apart, h.zones.trans h'.zones, ?_⟩
  intro i hi
  have hbytes := h'.bytes i (by rw [h.zones.layout]; exact hi)
  rw [h.zones.address] at hbytes
  exact hbytes.trans (h.bytes i hi)

theorem OtherBlock.same {h h' : Heap} {p : Word} (hp : OtherBlock h b p)
    (hsame : SameZones h h') : OtherBlock h' b p := by
  rcases hp with ⟨c, hc, hne, heq⟩
  refine ⟨c, ?_, hne, ?_⟩
  · rw [hsame.layout]
    exact hc
  · rw [hsame.address]
    exact heq

theorem BlockApart.heap (h : BlockApart b s) {heap : Heap} {mem : Mem}
    (hsame : SameZones s.heap heap) (htaken : heap.taken b = true) :
    BlockApart b { s with heap := heap, mem := mem } where
  table := hsame.table h.table
  pool_fits := by
    rw [hsame.poolStart, hsame.layout]
    exact h.pool_fits
  block := by
    rw [hsame.layout]
    exact h.block
  taken := htaken
  slots := fun i hi => (h.slots i hi).same hsame

theorem BlockApart.bytes_ne (h : BlockApart b s)
    (hc : c < blockCount s.heap.layout) (hne : c ≠ b) {i j : Nat}
    (hi : i < blockSize s.heap.layout b) (hj : j < blockSize s.heap.layout c) :
    offsetFrom (s.heap.address b) i ≠ offsetFrom (s.heap.address c) j := by
  have hfit := h.pool_fits
  have hb := blockEnd_le_byteCount h.block
  have hend := blockEnd_le_byteCount hc
  have hbaddr := address_toNat_of_fits hfit h.block
  have hcaddr := address_toNat_of_fits hfit hc
  have hapart : blockStart s.heap.layout b + i ≠
      blockStart s.heap.layout c + j := by
    rcases Nat.lt_or_gt_of_ne hne with hlt | hgt
    · have hbefore := blockEnd_le_blockStart hlt h.block
      omega
    · have hbehind := blockEnd_le_blockStart hgt hc
      omega
  intro heq
  have hnat := congrArg BitVec.toNat heq
  rw [offsetFrom_toNat (by unfold wordCount; omega),
    offsetFrom_toNat (by unfold wordCount; omega)] at hnat
  omega

theorem fetchBlock_stays (h : BlockApart b s)
    (htmp : tmp ≠ 0 -> OtherBlock s.heap b tmp)
    {r : Word × Option (Fin cachedBlocks) × BlockState}
    (hrun : fetchBlock read f blockFile s block tmp = .ok r) :
    BlockStays b s r.2.2 ∧ OtherBlock r.2.2.heap b r.1 := by
  have hpointed : forall p : Word, (p ≠ 0 -> OtherBlock s.heap b p) ->
      forall u : Option (Fin cachedBlocks),
      (if p = 0 then malloc s.heap f.blockSize >>= fun x =>
          .ok (x.1, u, { s with
            heap := x.2
            mem := readInto read f x.1 block s.mem })
        else .ok (p, u, s)) = .ok r ->
      BlockStays b s r.2.2 ∧ OtherBlock r.2.2.heap b r.1 := by
    intro p hp u hrun
    split at hrun
    · rcases ok_bind_iff.mp hrun with ⟨⟨q, heap⟩, hmalloc, hr⟩
      cases hr
      rcases malloc_block h.table.toZoneTable hmalloc with
        ⟨c, hskip, hc, hfree, rfl, rfl⟩
      have hlarge := le_blockSize_of_sorted h.table.sizes_sorted hskip hc
      have hne : c ≠ b := by
        intro heq
        rw [heq, h.taken] at hfree
        cases hfree
      refine ⟨⟨h.heap ⟨rfl, rfl, rfl⟩ ?_, ⟨rfl, rfl, rfl⟩, ?_⟩, c, hc, hne, rfl⟩
      · rw [take_taken, h.taken, Bool.true_or]
      · intro i hi
        apply writeRun_other
        intro j hj heq
        exact h.bytes_ne hc hne hi (Nat.lt_of_lt_of_le hj hlarge)
          (linear_injective heq)
    · next hne =>
      cases hrun
      exact ⟨BlockStays.refl h, hp hne⟩
  unfold fetchBlock at hrun
  dsimp only at hrun
  split at hrun
  · exact hpointed _ (h.slots _) _ hrun
  · exact hpointed _ htmp _ hrun

theorem putBlock_stays (blockFile : Word) (block : Uint64)
    {x : Word × Option (Fin cachedBlocks) × BlockState}
    (h : BlockApart b x.2.2) (hx : OtherBlock x.2.2.heap b x.1) :
    BlockStays b x.2.2 (putBlock blockFile block x).2 ∧
      (putBlock blockFile block x).2.heap = x.2.2.heap := by
  unfold putBlock
  split
  · exact ⟨BlockStays.refl h, rfl⟩
  · split
    · next i _ =>
      refine ⟨⟨⟨h.table, h.pool_fits, h.block, h.taken, ?_⟩, ⟨rfl, rfl, rfl⟩,
        fun _ _ => rfl⟩, rfl⟩
      intro j hj
      dsimp only at hj ⊢
      by_cases hji : j = i
      · subst hji
        rw [Function.update_self]
        exact hx
      · rw [Function.update_of_ne hji] at hj ⊢
        exact h.slots j hj
    · exact ⟨BlockStays.refl h, rfl⟩

theorem dropBlock_stays {x : BlockRead} (h : BlockApart b x.state)
    (htmp : x.tmp ≠ 0 -> OtherBlock x.state.heap b x.tmp)
    (hrun : dropBlock x = .ok s') : BlockStays b x.state s' := by
  unfold dropBlock at hrun
  split at hrun
  · next hdrop =>
    rcases ok_bind_iff.mp hrun with ⟨heap, hfree, hs'⟩
    cases hs'
    rcases htmp hdrop.1 with ⟨c, hc, hne, heq⟩
    rw [heq, free_address h.table hc] at hfree
    cases hfree
    refine ⟨h.heap ⟨rfl, rfl, rfl⟩ ?_, ⟨rfl, rfl, rfl⟩, fun _ _ => rfl⟩
    rw [release_taken, h.taken, decide_eq_false (Ne.symm hne), Bool.xor_false]
  · cases hrun
    exact BlockStays.refl h

theorem blockfileRead_stays (h : BlockApart b s) {buffer : Bytes}
    {r : BlockReadResult}
    (hrun : blockfileRead f blockFile s position buffer size = .ok r) :
    BlockStays b s r.state := by
  cases hread : f.read with
  | none =>
      rw [blockfileRead_none blockFile s buffer hread] at hrun
      cases hrun
      exact BlockStays.refl h
  | some read =>
      have hsmall := f.small
      rcases shr64_eq position (n := f.blockSizeExponent) (by omega) with
        ⟨_, _, hshift, _⟩
      rcases shr64_eq (add64 position (init64 0 0 0 (size - 1)))
        (n := f.blockSizeExponent) (by omega) with ⟨_, _, hshift', _⟩
      rw [blockfileRead_eq blockFile s buffer hread hshift hshift'] at hrun
      rcases ok_bind_iff.mp hrun with ⟨x, hloop, hrest⟩
      rcases ok_bind_iff.mp hrest with ⟨s', hdrop, hr⟩
      cases hr
      have hx := (whileLoop_invariant (I := fun x : BlockRead =>
        BlockStays b s x.state ∧ (x.tmp ≠ 0 -> OtherBlock x.state.heap b x.tmp))
        ?_ hloop ⟨BlockStays.refl h, fun hne => absurd rfl hne⟩).1
      · exact hx.1.trans (dropBlock_stays hx.1.apart hx.2 hdrop)
      · intro x y hx _ hturn
        rcases blockReadTurn_eq hturn with ⟨fetched, hfetch, hy⟩
        rcases fetchBlock_stays hx.1.apart hx.2 hfetch with ⟨hstays, hother⟩
        have hput := putBlock_stays blockFile x.block hstays.apart hother
        rw [hy]
        refine ⟨hx.1.trans (hstays.trans hput.1), fun _ => ?_⟩
        change OtherBlock (putBlock blockFile x.block fetched).2.heap b fetched.1
        rw [hput.2]
        exact hother

end BlockApart

namespace DeviceState

theorem blockStays_frame (b : Nat) : ReadFrame fun s t =>
    BlockApart b s.blockState -> BlockStays b s.blockState t.blockState where
  refl := fun _ h => BlockStays.refl h
  trans := fun h h' hs => (h hs).trans (h' (h hs).apart)
  position := fun _ _ _ h => BlockStays.refl h
  lookup := fun _ h => BlockStays.refl h
  block := by
    intro handle buffer size s word bytes s' hrun h
    rcases ok_bind_iff.mp hrun with ⟨r, hread, hr⟩
    cases hr
    exact blockfileRead_stays h hread
  keyb := by
    intro handle buffer size s word bytes s' hrun h
    cases hrun
    exact BlockStays.refl h

/-- Every slot that is used holds a block that is taken. -/
def SlotsTaken (s : DeviceState) : Prop :=
  forall i, (s.cachedBlock i).buffer ≠ 0 -> s.fs.heap.Live (s.cachedBlock i).buffer

theorem malloc_took {s t : DeviceState} {size buffer : Word}
    (hheap : HeapInv s.fs.heap) (hmalloc : s.malloc size = .ok (buffer, t)) :
    exists b, b < blockCount s.fs.heap.layout ∧ s.fs.heap.taken b = false ∧
      size.toNat ≤ blockSize s.fs.heap.layout b ∧
      buffer = s.fs.heap.address b ∧
      t = s.setBlockState { s.blockState with heap := s.fs.heap.take b } := by
  rcases ok_bind_iff.mp hmalloc with ⟨v, hv, hr⟩
  rcases ok_bind_iff.mp hv with ⟨w, hw, hvw⟩
  rcases ok_bind_iff.mp hw with ⟨x, hx, hxw⟩
  cases hr
  cases hvw
  cases hxw
  rcases malloc_block hheap.zoneTable hx with ⟨b, hskip, hb, hfree, hp, hheap'⟩
  refine ⟨b, hb, hfree,
    le_blockSize_of_sorted hheap.sizes_sorted hskip hb, hp, ?_⟩
  rw [← hheap']
  rfl

theorem BlockApart.malloc {s t : DeviceState} {size buffer : Word}
    (hheap : HeapInv s.fs.heap) (hslots : s.SlotsTaken)
    (hmalloc : s.malloc size = .ok (buffer, t)) :
    exists b, BlockApart b t.blockState ∧ buffer = t.fs.heap.address b ∧
      size.toNat ≤ blockSize t.fs.heap.layout b := by
  rcases malloc_took hheap hmalloc with ⟨b, hb, hfree, hsize, hp, ht⟩
  subst ht
  refine ⟨b, ⟨hheap.table.take, hheap.pool_fits, hb, ?_, ?_⟩, hp, hsize⟩
  · change (s.fs.heap.take b).taken b = true
    rw [take_taken, decide_eq_true rfl, Bool.or_true]
  · intro i hi
    rcases hslots i hi with ⟨c, hc, htaken, heq⟩
    refine ⟨c, hc, ?_, heq⟩
    intro hcb
    rw [hcb, hfree] at htaken
    cases htaken

def namedHandle (s : DeviceState) (task : Word) : Word :=
  taskGetHandle s.toKernelState task (taskGetRegister s.toKernelState task regBX)

/-- While the file is read no slot of the cache comes to hold the buffer, and no
block is read into it; the buffer can be freed behind the read. -/
def BufferApart (turns depth : Nat) (s : DeviceState) (task : Word) : Prop :=
  forall buffer t, s.malloc (s.askedSize task) = .ok (buffer, t) ->
    forall before word bytes u,
      fileRead turns depth (s.namedHandle task) before (s.askedSize task) t =
        .ok (word, bytes, u) ->
      (forall i, (u.cachedBlock i).buffer ≠ 0 ->
        (u.cachedBlock i).buffer ≠ buffer) ∧
      u.fs.heap.Live buffer ∧
      forall i, i < (s.askedSize task).toNat ->
        peek u.mem kernelSegment (offsetFrom buffer i) =
          peek t.mem kernelSegment (offsetFrom buffer i)

theorem bufferApart (turns depth : Nat) {s : DeviceState} (task : Word)
    (hheap : HeapInv s.fs.heap) (hslots : s.SlotsTaken) :
    BufferApart turns depth s task := by
  intro buffer t hmalloc before word bytes u hread
  rcases BlockApart.malloc hheap hslots hmalloc with ⟨b, hapart, rfl, hsize⟩
  have hstays := fileRead_keeps (blockStays_frame b) turns depth _ _ _ _ _ _ _
    hread hapart
  have haddress := hstays.zones.address b
  refine ⟨?_, ⟨b, hstays.apart.block, hstays.apart.taken, haddress.symm⟩, ?_⟩
  · intro i hi heq
    rcases hstays.apart.slots i hi with ⟨c, hc, hne, hcaddr⟩
    exact hne (address_injective hstays.apart.table hc hstays.apart.block
      (hcaddr.symm.trans (heq.trans haddress.symm)))
  · intro i hi
    exact hstays.bytes i (Nat.lt_of_lt_of_le hi hsize)

/-!
# The system call
-/

def readToTask (turns depth : Nat) (before : Bytes) (task buffer : Word)
    (s t : DeviceState) : Result (Word × DeviceState) :=
  fileRead turns depth (s.namedHandle task) before (s.askedSize task) t >>= fun x =>
    (taskSetMemory x.2.2 task (taskGetRegister s.toKernelState task regCX) x.2.1
      x.1).free buffer >>= fun u => .ok (x.1, u)

theorem sysReadFile_eq (turns depth : Nat) (before : Bytes) (task : Word)
    (s : DeviceState) :
    sysReadFile turns depth before task s =
      if s.namedHandle task = 0 then .ok (0, s)
      else s.malloc (s.askedSize task) >>= fun r =>
        if r.1 = 0 then .ok (0, r.2)
        else readToTask turns depth before task r.1 s r.2 := rfl

/-- The calls whose task gets old bytes: there is memory for the buffer, and the
named file is a device that is read in a range that wraps. -/
def GivesStale (s : DeviceState) (task : Word) : Prop :=
  s.namedHandle task ≠ 0 ∧
    (exists buffer t, s.malloc (s.askedSize task) = .ok (buffer, t) ∧ buffer ≠ 0) ∧
    s.Unread (s.namedHandle task) (s.askedSize task)

/-- The outcome of a call does not depend on the old bytes of its buffer. -/
def NoStale (turns depth : Nat) (s : DeviceState) (task : Word) : Prop :=
  forall before before', sysReadFile turns depth before task s =
    sysReadFile turns depth before' task s

theorem fileRead_unread (turns depth : Nat) {s : DeviceState} {handle size : Word}
    (h : s.Unread handle size) (before : Bytes) :
    fileRead turns depth handle before size s =
      .ok (size, before, (s.setBlockState s.blockState).setPosition handle
        (s.fs.handle handle).position) := by
  rcases h with ⟨hfile, hread, hwraps⟩
  rcases Option.ne_none_iff_exists'.mp hread with ⟨read, hread⟩
  rcases fileRead_eq turns depth with ⟨fatRead, heq, _⟩
  rw [heq, fileReadBy_eq, hfile]
  exact blockfileRead_skips hread (Or.inr hwraps) before

theorem malloc_freed {s t : DeviceState} {size buffer : Word}
    (hheap : HeapInv s.fs.heap) (hmalloc : s.malloc size = .ok (buffer, t)) :
    exists heap heap', t = s.setBlockState { s.blockState with heap := heap } ∧
      Kernel.free heap buffer = .ok heap' := by
  rcases malloc_took hheap hmalloc with ⟨b, hb, hfree, _, rfl, ht⟩
  exact ⟨_, _, ht, free_address (take_inv hheap hb hfree).table hb⟩

theorem userBuffer_injective {s : DeviceState} {task size : Word} (i j : Nat)
    (hi : i < size.toNat) (hj : j < size.toNat)
    (h : s.userBuffer task i = s.userBuffer task j) : i = j := by
  have hlt : size.toNat < wordCount := size.isLt
  exact offsetFrom_injective (by omega) (by omega) (linear_injective h)

/-- A task gets bytes that were read, where the word reports no others. -/
theorem noStale_of_reports {turns depth : Nat} {s : DeviceState} {task : Word}
    (hreports : s.namedHandle task ≠ 0 -> forall buffer t,
      s.malloc (s.askedSize task) = .ok (buffer, t) -> buffer ≠ 0 ->
        Reports fun before => fileRead turns depth (s.namedHandle task) before
          (s.askedSize task) t) :
    NoStale turns depth s task := by
  intro before before'
  rw [sysReadFile_eq, sysReadFile_eq]
  split
  · rfl
  · next hhandle =>
    cases hmalloc : s.malloc (s.askedSize task) with
    | error e => rfl
    | ok r =>
        rw [ok_bind, ok_bind]
        split
        · rfl
        · next hbuffer =>
          unfold readToTask
          rcases hreports hhandle r.1 r.2 hmalloc hbuffer with ⟨e, hfail⟩ | ⟨x, hfill, hle⟩
          · have hone := hfail before
            have hother := hfail before'
            dsimp only at hone hother
            rw [hone, hother]
          · have hone := hfill before
            have hother := hfill before'
            dsimp only at hone hother
            rw [hone, hother, ok_bind, ok_bind]
            have hsame : forall bytes : Bytes,
                taskSetMemory x.state task (taskGetRegister s.toKernelState task
                  regCX) (splice x.data x.count bytes) x.word =
                taskSetMemory x.state task (taskGetRegister s.toKernelState task
                  regCX) x.data x.word := by
              intro bytes
              unfold taskSetMemory
              rw [writeRun_congr fun i hi => splice_before (Nat.lt_of_lt_of_le hi hle)]
            dsimp only
            rw [hsame, hsame]

theorem stale_of_unread (turns depth : Nat) {s : DeviceState} {task : Word}
    (hheap : HeapInv s.fs.heap) (h : s.GivesStale task) (before : Bytes) :
    exists t, sysReadFile turns depth before task s = .ok (s.askedSize task, t) ∧
      forall i, i < (s.askedSize task).toNat ->
        t.mem (s.userBuffer task i) = before i := by
  rcases h with ⟨hhandle, ⟨buffer, t, hmalloc, hbuffer⟩, hunread⟩
  rcases malloc_freed hheap hmalloc with ⟨heap, heap', ht, hfree⟩
  have hsame : t.Unread (s.namedHandle task) (s.askedSize task) := by
    rw [ht]
    exact hunread
  rw [sysReadFile_eq, if_neg hhandle, hmalloc, ok_bind, if_neg hbuffer]
  unfold readToTask
  rw [fileRead_unread turns depth hsame, ok_bind, ht]
  unfold DeviceState.free VfsState.free FsState.free
  dsimp only [taskSetMemory, setPosition, VfsState.setPosition, FsState.setHandle,
    setBlockState, blockState]
  rw [hfree]
  refine ⟨_, rfl, ?_⟩
  intro i hi
  exact writeRun_at userBuffer_injective hi

/-- Where the cache holds no block that is free, the buffer of a call lies apart
from the blocks that are read.  The outcome depends on what was in the buffer
before exactly when the call reads a block device in a range that wraps; then
every byte that its task gets is an old one. -/
theorem no_stale_memory_iff (turns depth : Nat) {s : DeviceState} (task : Word)
    (hheap : HeapInv s.fs.heap) (hroots : s.FatRoots) (hslots : s.SlotsTaken) :
    BufferApart turns depth s task ∧
    (NoStale turns depth s task <-> ¬ s.GivesStale task) ∧
    (s.GivesStale task -> 0 < (s.askedSize task).toNat ∧
      forall before, exists t,
        sysReadFile turns depth before task s = .ok (s.askedSize task, t) ∧
          forall i, i < (s.askedSize task).toNat ->
            t.mem (s.userBuffer task i) = before i) := by
  have hstale := fun h : s.GivesStale task => stale_of_unread turns depth hheap h
  have hsize : s.GivesStale task -> 0 < (s.askedSize task).toNat := by
    intro h
    have hwraps := h.2.2.2.2
    have hlt := (s.fs.handle (s.namedHandle task)).position.toNat_lt
    omega
  refine ⟨bufferApart turns depth task hheap hslots, ⟨?_, ?_⟩,
    fun h => ⟨hsize h, hstale h⟩⟩
  · intro hsame h
    rcases hstale h (fun _ => 0) with ⟨t, ht, hzero⟩
    rcases hstale h (fun _ => 1) with ⟨t', ht', hone⟩
    have heq := ht.symm.trans ((hsame _ _).trans ht')
    have hmem := congrArg (fun z => z.2.mem (s.userBuffer task 0))
      (Except.ok.inj heq)
    dsimp only at hmem
    rw [hzero 0 (hsize h), hone 0 (hsize h)] at hmem
    exact absurd hmem (by decide)
  · intro hnot
    apply noStale_of_reports
    intro hhandle buffer t hmalloc hbuffer
    rcases malloc_freed hheap hmalloc with ⟨heap, heap', ht, _⟩
    have hkept : UserKept s t := by
      rw [ht]
      exact ⟨rfl, rfl, rfl, rfl, fun _ _ => rfl⟩
    apply fileRead_reports turns depth (hroots.kept hkept)
    intro hunread
    rw [ht] at hunread
    exact hnot ⟨hhandle, ⟨buffer, t, hmalloc, hbuffer⟩, hunread⟩

def smallBlock : Nat :=
  skipCount 512 smallBoot.fs.heap.layout

def cachedDevice : DeviceState :=
  (smallDevice .block (init64 0 0 0 0) 512).setBlockState {
    heap := smallBoot.fs.heap.take smallBlock
    mem := (smallDevice .block (init64 0 0 0 0) 512).mem
    cachedBlock := Function.update emptyCache ⟨0, by decide⟩
      ⟨init64 0 0 0 3, 8, smallBoot.fs.heap.address smallBlock⟩ }

theorem smallBlock_free : smallBlock < blockCount smallBoot.fs.heap.layout ∧
    smallBoot.fs.heap.taken smallBlock = false := by
  decide +kernel

theorem cachedDevice_slots : cachedDevice.SlotsTaken := by
  intro i hi
  by_cases hzero : i = ⟨0, by decide⟩
  · subst hzero
    refine ⟨smallBlock, smallBlock_free.1, ?_, rfl⟩
    change (smallBoot.fs.heap.take smallBlock).taken smallBlock = true
    rw [take_taken, decide_eq_true rfl, Bool.or_true]
  · have hempty : cachedDevice.cachedBlock i = emptyCache i :=
      Function.update_of_ne hzero ..
    rw [hempty] at hi
    exact absurd rfl hi

theorem no_stale_memory_iff_cached :
    BufferApart 9 1 cachedDevice 0 ∧
    (NoStale 9 1 cachedDevice 0 <-> ¬ cachedDevice.GivesStale 0) ∧
    (cachedDevice.GivesStale 0 -> 0 < (cachedDevice.askedSize 0).toNat ∧
      forall before, exists t,
        sysReadFile 9 1 before 0 cachedDevice = .ok (cachedDevice.askedSize 0, t) ∧
        forall i, i < (cachedDevice.askedSize 0).toNat ->
          t.mem (cachedDevice.userBuffer 0 i) = before i) :=
  no_stale_memory_iff 9 1 0
    (take_inv smallBoot_boot.heap smallBlock_free.1 smallBlock_free.2)
    (smallDevice_roots (init64 0 0 0 0) 512) cachedDevice_slots

def lastPosition : Uint64 := init64 0xffff 0xffff 0xffff 0xffff

/-- Of a device that is read over the end of the 64-bit positions the task gets
what was in the buffer before. -/
theorem wrapped_read_gives_stale : exists before before' t t',
    sysReadFile 9 1 before 0 (smallDevice .block lastPosition 512) = .ok (512, t) ∧
      sysReadFile 9 1 before' 0 (smallDevice .block lastPosition 512) =
        .ok (512, t') ∧
      t.mem ((smallDevice .block lastPosition 512).userBuffer 0 0) ≠
        t'.mem ((smallDevice .block lastPosition 512).userBuffer 0 0) := by
  have hasked : (smallDevice .block lastPosition 512).askedSize 0 = 512 := by
    decide +kernel
  have hmalloc : ((smallDevice .block lastPosition 512).malloc 512).toOption.any
      (fun r => r.1 != 0) = true := by
    decide +kernel
  have hstale : (smallDevice .block lastPosition 512).GivesStale 0 := by
    refine ⟨by decide +kernel, ?_, rfl, Option.some_ne_none _, ?_⟩
    · rw [hasked]
      cases hrun : (smallDevice .block lastPosition 512).malloc 512 with
      | error e =>
          rw [hrun] at hmalloc
          cases hmalloc
      | ok r =>
          rw [hrun] at hmalloc
          exact ⟨r.1, r.2, rfl, bne_iff_ne.mp hmalloc⟩
    · rw [hasked]
      decide +kernel
  rcases stale_of_unread 9 1 smallBoot_boot.heap hstale (fun _ => 0) with
    ⟨t, ht, hzero⟩
  rcases stale_of_unread 9 1 smallBoot_boot.heap hstale (fun _ => 1) with
    ⟨t', ht', hone⟩
  rw [hasked] at ht ht' hzero hone
  refine ⟨_, _, t, t', ht, ht', ?_⟩
  rw [hzero 0 (by decide), hone 0 (by decide)]
  decide

end DeviceState

end Fs
end Rmmtos
