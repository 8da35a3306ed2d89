import Rmmtos.Fs.Calls
import Rmmtos.Fs.PathResolution
import Rmmtos.Fs.StorageStack

/-!
# Calls that read files

Tasks read files of volumes on block devices through handles of their own, and
share the handles of the volumes and the cache of blocks.  In any order of their
calls each of them gets the bytes of its file, as if the files were lists in
memory.
-/

namespace Rmmtos
namespace Fs

open Library Library.Zones Kernel

/-!
# Files as lists
-/

/-- The files behind handles and how far the handles have come. -/
structure FileStore where
  bytes : Word -> List Byte
  position : Word -> Nat

inductive FileEvent where
  | others
  | read (handle : Word) (size : Nat) (bytes : List Byte)
  | seek (handle : Word) (position : Nat)

namespace FileStore

def next (f : FileStore) (handle : Word) (size : Nat) : List Byte :=
  ((f.bytes handle).drop (f.position handle)).take size

def moveTo (f : FileStore) (handle : Word) (position : Nat) : FileStore :=
  { f with position := Function.update f.position handle position }

inductive Step : FileStore -> FileEvent -> FileStore -> Prop where
  | others (f : FileStore) : Step f .others f
  | read (f : FileStore) (handle : Word) (size : Nat) :
      Step f (.read handle size (f.next handle size))
        (f.moveTo handle (f.position handle + (f.next handle size).length))
  | seek (f : FileStore) (handle : Word) (position : Nat) :
      position ≤ (f.bytes handle).length ->
      Step f (.seek handle position) (f.moveTo handle position)

end FileStore

namespace DeviceState

/-!
# Files that stay
-/

def bytesOf (s : DeviceState) (node : Word) : List Byte :=
  (List.range (s.entryOf node).size.toNat).map (s.byteOf node)

structure SameFile (s s' : DeviceState) (node : Word) : Prop where
  fileOps : s'.fileOps node = s.fileOps node
  rootOf : s'.rootOf node = s.rootOf node
  entryPosition : s'.entryPositionOf node = s.entryPositionOf node
  device : s'.deviceOf node = s.deviceOf node
  deviceOps : s'.fileOps (s.deviceOf node) = s.fileOps (s.deviceOf node)
  blockFile : s'.blockFile (s.deviceOf node) = s.blockFile (s.deviceOf node)

section SameFile

variable {s s' s'' : DeviceState} {node : Word}

theorem SameFile.imageOf (h : SameFile s s' node) :
    s'.imageOf node = s.imageOf node := by
  unfold DeviceState.imageOf
  rw [h.device, h.blockFile]

theorem SameFile.clusterOf (h : SameFile s s' node) :
    s'.clusterOf node = s.clusterOf node := by
  unfold DeviceState.clusterOf
  rw [h.rootOf]

theorem SameFile.entryOf (h : SameFile s s' node) :
    s'.entryOf node = s.entryOf node := by
  unfold DeviceState.entryOf
  rw [h.imageOf, h.entryPosition]

theorem SameFile.bytesOf (h : SameFile s s' node) :
    s'.bytesOf node = s.bytesOf node := by
  unfold DeviceState.bytesOf DeviceState.byteOf
  rw [h.imageOf, h.rootOf, h.clusterOf, h.entryOf]

theorem SameFile.onDevice (h : SameFile s s' node) (hs : s.OnDevice node) :
    s'.OnDevice node where
  fat := h.fileOps.trans hs.fat
  block := by
    rw [h.device, h.deviceOps]
    exact hs.block
  device := by
    rw [h.device]
    exact hs.device
  reads := by
    rw [h.device, h.blockFile]
    exact hs.reads
  laid := by
    rw [h.rootOf, h.imageOf]
    exact hs.laid
  file := by
    rw [h.imageOf, h.rootOf, h.clusterOf, h.entryOf]
    exact hs.file
  inBlocks := by
    rw [h.device, h.blockFile, h.imageOf, h.rootOf, h.clusterOf, h.entryPosition]
    exact hs.inBlocks

theorem SameFile.trans (h : SameFile s s' node) (h' : SameFile s' s'' node) :
    SameFile s s'' node where
  fileOps := h'.fileOps.trans h.fileOps
  rootOf := h'.rootOf.trans h.rootOf
  entryPosition := h'.entryPosition.trans h.entryPosition
  device := h'.device.trans h.device
  deviceOps := by
    rw [← h.deviceOps, ← h.device]
    exact h'.deviceOps
  blockFile := by
    rw [← h.blockFile, ← h.device]
    exact h'.blockFile

theorem FileKept.sameFile (h : FileKept s s') (hblocks : s'.blockFile = s.blockFile)
    (node : Word) : SameFile s s' node := by
  have hroot : s'.rootOf node = s.rootOf node := by
    unfold DeviceState.rootOf
    rw [h.fatFile, h.fatRoot]
  have hdevice : s'.deviceOf node = s.deviceOf node := by
    unfold DeviceState.deviceOf
    rw [hroot, h.target]
  refine ⟨?_, hroot, ?_, hdevice, ?_, ?_⟩
  · rw [h.fileOps]
  · unfold DeviceState.entryPositionOf
    rw [h.fatFile]
  · rw [h.fileOps]
  · rw [hblocks]

end SameFile

/-!
# The cache stays
-/

/-- The blocks of the cache are not touched: they stay taken, with their bytes. -/
structure CacheKept (s s' : DeviceState) : Prop where
  cachedBlock : s'.cachedBlock = s.cachedBlock
  blockFile : s'.blockFile = s.blockFile
  heap : HeapInv s'.fs.heap
  zones : s'.fs.heap.zones = s.fs.heap.zones
  poolStart : s'.fs.heap.poolStart = s.fs.heap.poolStart
  taken : forall i b, s.fs.heap.taken b = true ->
    s.fs.heap.address b = (s.cachedBlock i).buffer -> s'.fs.heap.taken b = true
  bytes : forall i j, (s.cachedBlock i).buffer ≠ 0 ->
    j < 2 ^ (s.blockFile (s.cachedBlock i).blockFile).blockSizeExponent.toNat ->
    peek s'.mem kernelSegment (offsetFrom (s.cachedBlock i).buffer j) =
      peek s.mem kernelSegment (offsetFrom (s.cachedBlock i).buffer j)

section Cache

variable {s s' : DeviceState} {label : Word -> Option BlockUser} {p : Word}

open Classical in
/-- The users of the blocks in the cache. -/
noncomputable def slotUsers (s : DeviceState) (label : Word -> Option BlockUser) :
    Word -> Option BlockUser := fun p =>
  if exists i, (s.cachedBlock i).buffer = p ∧ p ≠ 0 then label p else none

theorem CacheKept.inv (h : CacheKept s s')
    (hs : CacheInv s.blockFile s.blockState label) :
    CacheInv s'.blockFile s'.blockState (slotUsers s label) := by
  have haddress : forall b, s'.fs.heap.address b = s.fs.heap.address b := by
    intro b
    unfold Heap.address Heap.layout
    rw [h.zones, h.poolStart]
  have hlayout : s'.fs.heap.layout = s.fs.heap.layout := by
    unfold Heap.layout
    rw [h.zones]
  refine ⟨⟨h.heap, ?_⟩, ?_, ?_, ?_⟩
  · intro p o hp
    unfold slotUsers at hp
    split at hp
    · next hslot =>
        rcases hslot with ⟨i, hi, _⟩
        rcases hs.owned.taken p o hp with ⟨b, hb, hbp, hsize⟩
        refine ⟨b, h.taken i b hb (hbp.trans hi.symm), (haddress b).trans hbp, ?_⟩
        change _ ≤ blockSize s'.fs.heap.layout b
        rw [hlayout]
        exact hsize
    · cases hp
  · change 0 < s'.fs.heap.poolStart.toNat
    rw [h.poolStart]
    exact hs.pool_pos
  · intro i hi
    change (s'.cachedBlock i).blockFile = 0
    change (s'.cachedBlock i).buffer = 0 at hi
    rw [h.cachedBlock] at hi ⊢
    exact hs.unused i hi
  · intro i hi
    change (s'.cachedBlock i).buffer ≠ 0 at hi
    rw [h.cachedBlock] at hi
    have hslot := hs.used i hi
    constructor
    · change slotUsers s label (s'.cachedBlock i).buffer = some (some i,
        2 ^ (s'.blockFile (s'.cachedBlock i).blockFile).blockSizeExponent.toNat)
      rw [h.cachedBlock, h.blockFile]
      unfold slotUsers
      rw [if_pos ⟨i, rfl, hi⟩]
      exact hslot.owned
    · change Holds (s'.blockFile (s'.cachedBlock i).blockFile) s'.mem
        (s'.cachedBlock i).buffer (s'.cachedBlock i).block
      rw [h.cachedBlock, h.blockFile]
      rcases hslot.holds with ⟨read, hread, hbytes⟩
      refine ⟨read, hread, fun j hj => ?_⟩
      rw [h.bytes i j hi hj]
      exact hbytes j hj

end Cache

end DeviceState

/-!
# Steps
-/

/-- A task whose program lies outside the kernel's segment. -/
def Outside (s : KernelState) (task : Word) : Prop :=
  forall off, OutsideKernel (linear (s.task task).segment off)

def PathState.fileOf (s : PathState) (handle : Word) : Word :=
  (s.fs.handle handle).node

def askedHandle (s : KernelState) (task : Word) : Word :=
  taskGetHandle s task (taskGetRegister s task regBX)

def userBytes (s s' : DeviceState) (task : Word) (n : Nat) : List Byte :=
  (List.range n).map fun i => s'.mem (s.userBuffer task i)

/-- The calls on the files of some handles.  Whatever goes on between them leaves
these files and the blocks of the cache alone. -/
inductive FileStep (turns depth : Nat) (before : Bytes) (handles : Set Word) :
    PathState -> FileEvent -> PathState -> Prop where
  | others {s s' : PathState} :
      (forall handle, handle ∈ handles ->
        s'.fs.handle handle = s.fs.handle handle ∧
          DeviceState.SameFile s.toDeviceState s'.toDeviceState
            (s.fileOf handle)) ->
      DeviceState.CacheKept s.toDeviceState s'.toDeviceState ->
      FileStep turns depth before handles s .others s'
  | read {s s' : PathState} {task word : Word} :
      askedHandle s.toKernelState task ∈ handles ->
      Outside s.toKernelState task ->
      s.sysReadFile (DeviceState.fileRead turns (depth + 1)) before task =
        .ok (word, s') ->
      FileStep turns depth before handles s
        (.read (askedHandle s.toKernelState task)
          (s.toDeviceState.askedSize task).toNat
          (userBytes s.toDeviceState s'.toDeviceState task word.toNat)) s'
  | seek {s s' : PathState} {task word : Word} {position : Uint64} :
      askedHandle s.toKernelState task ∈ handles ->
      position = PathState.uint64At (s.taskMemory task
        (taskGetRegister s.toKernelState task DeviceState.regCX)) ->
      position.toNat ≤
        (s.toDeviceState.entryOf
          (s.fileOf (askedHandle s.toKernelState task))).size.toNat ->
      s.sysSeek task = .ok (word, s') ->
      FileStep turns depth before handles s
        (.seek (askedHandle s.toKernelState task) position.toNat) s'

/-- The files of the handles are those of the store, and the cache is as it
should be. -/
structure Serves (handles : Set Word) (s : PathState) (f : FileStore) : Prop where
  cache : exists label, CacheInv s.blockFile s.toDeviceState.blockState label
  some : forall handle, handle ∈ handles -> handle ≠ 0
  file : forall handle, handle ∈ handles -> s.toDeviceState.OnDevice (s.fileOf handle)
  apart : forall handle handle', handle ∈ handles -> handle' ∈ handles ->
    handle' ≠ (s.toDeviceState.rootOf (s.fileOf handle)).handle
  bytes : forall handle, handle ∈ handles ->
    f.bytes handle = s.toDeviceState.bytesOf (s.fileOf handle)
  position : forall handle, handle ∈ handles ->
    f.position handle = (s.fs.handle handle).position.toNat
  inside : forall handle, handle ∈ handles ->
    f.position handle ≤ (f.bytes handle).length

def PathState.withHeap (s : PathState) (heap : Heap) : PathState :=
  { s with fs := { s.fs with heap := heap } }

section Steps

variable {turns depth : Nat} {before : Bytes} {handles : Set Word}
  {s s' : PathState} {f : FileStore} {task : Word}
  {label : Word -> Option BlockUser}

theorem CacheInv.outside {files : Word -> BlockFile} {b : BlockState}
    (h : CacheInv files b label) {m : Mem}
    (hm : forall off, m (linear kernelSegment off) = b.mem (linear kernelSegment off)) :
    CacheInv files { b with mem := m } label := by
  refine ⟨h.owned, h.pool_pos, h.unused, fun i hi => ?_⟩
  have hslot := h.used i hi
  rcases hslot.holds with ⟨read, hread, hbytes⟩
  refine ⟨hslot.owned, read, hread, fun j hj => ?_⟩
  rw [← hbytes j hj]
  exact hm _

theorem malloc_cache (size : Word)
    (h : CacheInv s.blockFile s.toDeviceState.blockState label) :
    s.malloc size = panic .outOfMem ∨
      exists p heap, s.malloc size =
          .ok (p, s.withHeap heap) ∧
        p ≠ 0 ∧ label p = none ∧
        (forall q, NotFree s.fs.heap q -> q ≠ p ∧ NotFree heap q) ∧
        CacheInv s.blockFile (s.withHeap heap).toDeviceState.blockState
          (Function.update label p (some (none, size.toNat))) := by
  rw [path_malloc_eq]
  cases hrun : Kernel.malloc s.fs.heap size with
  | error e =>
      left
      rcases malloc_eq h.owned.heap.zoneTable size with
        ⟨b, _, _, _, _, hok⟩ | ⟨_, hpanic⟩
      · rw [show s.toDeviceState.blockState.heap = s.fs.heap from rfl, hrun] at hok
        cases hok
      · rw [show s.toDeviceState.blockState.heap = s.fs.heap from rfl, hrun] at hpanic
        rw [hpanic]
        rfl
  | ok r =>
      right
      rcases r with ⟨p, heap⟩
      rcases h.owned.malloc (o := (none, size.toNat)) hrun (Nat.le_refl _) with
        ⟨hnone, howned⟩
      have hstart := malloc_poolStart hrun
      refine ⟨p, heap, rfl, malloc_ne_zero h.owned.heap h.pool_pos hrun, hnone, ?_,
        howned, ?_, h.unused, fun i hi => ?_⟩
      · intro q hq
        rcases malloc_block h.owned.heap.zoneTable hrun with
          ⟨b, _, hb, hfree, rfl, rfl⟩
        exact ⟨hq b hb hfree, hq.take⟩
      · change 0 < heap.poolStart.toNat
        rw [hstart]
        exact h.pool_pos
      · have hslot := h.used i hi
        refine ⟨?_, hslot.holds⟩
        have hne : (s.cachedBlock i).buffer ≠ p := by
          intro hsame
          have howner := hslot.owned
          change label (s.cachedBlock i).buffer = _ at howner
          rw [hsame, hnone] at howner
          cases howner
        change Function.update label p _ (s.cachedBlock i).buffer = _
        rw [Function.update_of_ne hne]
        exact hslot.owned

theorem free_cache {p : Word} {n : Nat}
    (h : CacheInv s.blockFile s.toDeviceState.blockState label)
    (hp : label p = some (none, n)) :
    exists heap, s.free p = .ok (s.withHeap heap) ∧
      CacheInv s.blockFile (s.withHeap heap).toDeviceState.blockState
        (Function.update label p none) := by
  rcases h.owned.free hp with ⟨heap, hfree, howned⟩
  have hstart := free_poolStart hfree
  refine ⟨heap, ?_, howned, ?_, h.unused, fun i hi => ?_⟩
  · unfold PathState.free FsState.free
    rw [show Kernel.free s.fs.heap p = .ok heap from hfree]
    rfl
  · change 0 < heap.poolStart.toNat
    rw [hstart]
    exact h.pool_pos
  · have hslot := h.used i hi
    refine ⟨?_, hslot.holds⟩
    have hne : (s.cachedBlock i).buffer ≠ p := by
      intro hsame
      have howner := hslot.owned
      change label (s.cachedBlock i).buffer = _ at howner
      rw [hsame, hp] at howner
      cases howner
    change Function.update label p none (s.cachedBlock i).buffer = _
    rw [Function.update_of_ne hne]
    exact hslot.owned

theorem take_drop_range {α : Type} (g : Nat -> α) (n start size : Nat) :
    (((List.range n).map g).drop start).take size =
      (List.range (min size (n - start))).map fun i => g (start + i) := by
  apply List.ext_getElem
  · simp
  · intro i hi hi'
    simp

theorem sameFile_withHeap (s : PathState) (heap : Heap) (node : Word) :
    DeviceState.SameFile s.toDeviceState (s.withHeap heap).toDeviceState node :=
  ⟨rfl, rfl, rfl, rfl, rfl, rfl⟩

theorem Serves.next_eq (h : Serves handles s f) {handle : Word}
    (hhandle : handle ∈ handles) (size : Nat) :
    f.next handle size =
      (List.range (min size ((s.toDeviceState.entryOf (s.fileOf handle)).size.toNat -
        (s.fs.handle handle).position.toNat))).map fun i =>
          s.toDeviceState.byteOf (s.fileOf handle) ((s.fs.handle handle).position.toNat + i) := by
  unfold FileStore.next
  rw [h.bytes handle hhandle, h.position handle hhandle]
  exact take_drop_range _ _ _ _

theorem Serves.position_le (h : Serves handles s f) {handle : Word}
    (hhandle : handle ∈ handles) :
    (s.fs.handle handle).position.toNat ≤
      (s.toDeviceState.entryOf (s.fileOf handle)).size.toNat := by
  have hinside := h.inside handle hhandle
  rw [h.position handle hhandle, h.bytes handle hhandle] at hinside
  unfold DeviceState.bytesOf at hinside
  rwa [List.length_map, List.length_range] at hinside

theorem Serves.move (h : Serves handles s f) {handle : Word} {n : Nat}
    (hcache : exists label, CacheInv s'.blockFile s'.toDeviceState.blockState label)
    (hfile : forall p, p ∈ handles -> s'.fileOf p = s.fileOf p ∧
      DeviceState.SameFile s.toDeviceState s'.toDeviceState (s.fileOf p))
    (hmoved : (s'.fs.handle handle).position.toNat = n)
    (hle : n ≤ (f.bytes handle).length)
    (hother : forall p, p ∈ handles -> p ≠ handle ->
      (s'.fs.handle p).position = (s.fs.handle p).position) :
    Serves handles s' (f.moveTo handle n) where
  cache := hcache
  some := h.some
  file p hp := by
    rw [(hfile p hp).1]
    exact (hfile p hp).2.onDevice (h.file p hp)
  apart p p' hp hp' := by
    rw [(hfile p hp).1, (hfile p hp).2.rootOf]
    exact h.apart p p' hp hp'
  bytes p hp := by
    rw [(hfile p hp).1, (hfile p hp).2.bytesOf]
    exact h.bytes p hp
  position p hp := by
    unfold FileStore.moveTo
    by_cases hsame : p = handle
    · rw [hsame, hmoved]
      exact Function.update_self ..
    · rw [hother p hp hsame, ← h.position p hp]
      exact Function.update_of_ne hsame ..
  inside p hp := by
    unfold FileStore.moveTo
    by_cases hsame : p = handle
    · rw [hsame]
      change Function.update f.position handle n handle ≤ _
      rw [Function.update_self]
      exact hle
    · change Function.update f.position handle n p ≤ _
      rw [Function.update_of_ne hsame]
      exact h.inside p hp

theorem returned {d : DeviceState} {addr word p : Word} {n : Nat} (bytes : Bytes)
    (hinv : CacheInv d.blockFile d.blockState label) (hp : label p = some (none, n))
    (hout : Outside d.toKernelState task) :
    exists t, PathState.free { s with
        toDeviceState := DeviceState.taskSetMemory d task addr bytes word } p = .ok t ∧
      (exists users, CacheInv t.blockFile t.toDeviceState.blockState users) ∧
      (forall p, DeviceState.SameFile d t.toDeviceState p ∧
        (t.fs.handle p).position = (d.fs.handle p).position ∧
        (t.fs.handle p).node = (d.fs.handle p).node) ∧
      forall i, i < word.toNat ->
        t.mem (linear (d.task task).segment (offsetFrom addr i)) = bytes i := by
  have hkernel : forall off, (DeviceState.taskSetMemory d task addr bytes word).mem
      (linear kernelSegment off) = d.mem (linear kernelSegment off) :=
    fun off => writeRun_other fun i _ heq => hout _ off heq.symm
  have hinv' := hinv.outside hkernel
  rcases free_cache (s := { s with
    toDeviceState := DeviceState.taskSetMemory d task addr bytes word }) hinv' hp with
    ⟨heap, hfree, hfreed⟩
  refine ⟨_, hfree, ⟨_, hfreed⟩, fun _ => ⟨⟨rfl, rfl, rfl, rfl, rfl, rfl⟩, rfl, rfl⟩, ?_⟩
  intro i hi
  have hlt := word.isLt
  have hinj : forall i j, i < word.toNat -> j < word.toNat ->
      linear (d.task task).segment (offsetFrom addr i) =
        linear (d.task task).segment (offsetFrom addr j) -> i = j := by
    intro i j hi hj h
    exact offsetFrom_injective (by unfold wordCount; omega)
      (by unfold wordCount; omega) (linear_injective h)
  exact writeRun_at hinj hi

/-- What {lit}`sys_read_file` does for a task. -/
theorem sysReadFile_serves (hturns : wordCount ≤ turns) (h : Serves handles s f)
    (hhandle : askedHandle s.toKernelState task ∈ handles)
    (hout : Outside s.toKernelState task) :
    s.sysReadFile (DeviceState.fileRead turns (depth + 1)) before task =
        panic .outOfMem ∨
      exists word s',
        s.sysReadFile (DeviceState.fileRead turns (depth + 1)) before task =
          .ok (word, s') ∧
        userBytes s.toDeviceState s'.toDeviceState task word.toNat =
          f.next (askedHandle s.toKernelState task)
            (s.toDeviceState.askedSize task).toNat ∧
        Serves handles s' (f.moveTo (askedHandle s.toKernelState task)
          (f.position (askedHandle s.toKernelState task) +
            (f.next (askedHandle s.toKernelState task)
              (s.toDeviceState.askedSize task).toNat).length)) := by
  generalize hasked : askedHandle s.toKernelState task = handle at *
  have hask : taskGetHandle s.toKernelState task
      (taskGetRegister s.toKernelState task regBX) = handle := hasked
  rcases h.cache with ⟨label, hcache⟩
  unfold PathState.sysReadFile
  dsimp only
  rw [hask, if_neg (h.some handle hhandle)]
  change s.malloc (s.toDeviceState.askedSize task) >>= _ = _ ∨ exists word s',
    s.malloc (s.toDeviceState.askedSize task) >>= _ = _ ∧ _
  rcases malloc_cache (s.toDeviceState.askedSize task) hcache with
    hpanic | ⟨p, heap, hmalloc, hne, _, _, htaken⟩
  · left
    rw [hpanic]
    rfl
  · rw [hmalloc, ok_bind]
    dsimp only
    rw [if_neg hne]
    have hsame := sameFile_withHeap s heap
    rcases DeviceState.fileRead_onDevice depth ⟨_, htaken, UsersStay.refl _⟩
      (rfl : (s.withHeap heap).fileOf handle = s.fileOf handle)
      ((hsame _).onDevice (h.file handle hhandle)) (h.apart handle handle hhandle hhandle)
      (by
        rw [(hsame _).entryOf]
        exact h.position_le hhandle) hturns before (s.toDeviceState.askedSize task) with
      hpanic | ⟨word, d, hread, hword, hmoves⟩
    · left
      change DeviceState.fileRead turns (depth + 1) handle before
        (s.toDeviceState.askedSize task) (s.withHeap heap).toDeviceState >>= _ = _
      rw [hpanic]
      rfl
    · change DeviceState.fileRead turns (depth + 1) handle before
          (s.toDeviceState.askedSize task) (s.withHeap heap).toDeviceState >>= _ = _ ∨
        exists word s', DeviceState.fileRead turns (depth + 1) handle before
          (s.toDeviceState.askedSize task) (s.withHeap heap).toDeviceState >>= _ = _ ∧ _
      rw [hread, ok_bind]
      dsimp only
      right
      rcases hmoves.cache with ⟨users, hinv, hstay⟩
      have htask : d.task = s.task := hmoves.kept.task
      have hout' : Outside d.toKernelState task := by
        intro off
        rw [htask]
        exact hout off
      rcases returned (s := s.withHeap heap) _ hinv
        (hstay _ _ (Function.update_self ..)) hout' with
        ⟨t, hfree, hcache', hsame', hcopied⟩
      rw [hfree, ok_bind]
      have hfile : forall q, t.fileOf q = s.fileOf q ∧
          DeviceState.SameFile s.toDeviceState t.toDeviceState (s.fileOf q) := fun q =>
        ⟨(hsame' q).2.2.trans (hmoves.kept.target q),
          ((hsame _).trans (hmoves.kept.sameFile hmoves.blockFile _)).trans
            (hsame' (s.fileOf q)).1⟩
      have hword' : word.toNat = min (s.toDeviceState.askedSize task).toNat
          ((s.toDeviceState.entryOf (s.fileOf handle)).size.toNat -
            (s.fs.handle handle).position.toNat) := hword
      have hnext := h.next_eq hhandle (s.toDeviceState.askedSize task).toNat
      rw [← hword'] at hnext
      have hlength : (f.next handle (s.toDeviceState.askedSize task).toNat).length =
          word.toNat := by
        rw [hnext, List.length_map, List.length_range]
      refine ⟨word, t, rfl, ?_, h.move hcache' (fun q _ => hfile q) ?_ ?_ ?_⟩
      · rw [hnext]
        apply List.map_congr_left
        intro i hi
        rw [List.mem_range] at hi
        have hbyte := hcopied i hi
        rw [htask, splice_before hi] at hbyte
        exact hbyte
      · rw [(hsame' handle).2.1, hmoves.position, hlength, h.position handle hhandle]
        rfl
      · have hinside := h.inside handle hhandle
        unfold FileStore.next
        rw [List.length_take, List.length_drop]
        omega
      · intro q hq hne'
        rw [(hsame' q).2.1]
        exact hmoves.others q hne' (h.apart handle q hhandle hq)

theorem Serves.length_eq (h : Serves handles s f) {handle : Word}
    (hhandle : handle ∈ handles) :
    (f.bytes handle).length = (s.toDeviceState.entryOf (s.fileOf handle)).size.toNat := by
  rw [h.bytes handle hhandle]
  unfold DeviceState.bytesOf
  rw [List.length_map, List.length_range]

theorem sysSeek_serves {word : Word} {position : Uint64} (h : Serves handles s f)
    (hhandle : askedHandle s.toKernelState task ∈ handles)
    (hasked : position = PathState.uint64At (s.taskMemory task
      (taskGetRegister s.toKernelState task DeviceState.regCX)))
    (hle : position.toNat ≤
      (s.toDeviceState.entryOf
        (s.fileOf (askedHandle s.toKernelState task))).size.toNat)
    (hrun : s.sysSeek task = .ok (word, s')) :
    Serves handles s'
      (f.moveTo (askedHandle s.toKernelState task) position.toNat) := by
  have hseek : s.sysSeek task = .ok (0, { s with
      toDeviceState := s.toDeviceState.setPosition
        (askedHandle s.toKernelState task) position }) := by
    rw [hasked]
    exact if_pos (h.some _ hhandle)
  rw [hseek] at hrun
  cases hrun
  have hkept := DeviceState.setPosition_kept s.toDeviceState
    (askedHandle s.toKernelState task) position
  refine h.move h.cache (fun q _ => ⟨hkept.target q, hkept.sameFile rfl _⟩) ?_ ?_ ?_
  · exact congrArg Uint64.toNat (DeviceState.setPosition_self ..)
  · rw [h.length_eq hhandle]
    exact hle
  · intro q _ hne
    exact congrArg Handle.position (DeviceState.setPosition_other _ _ hne)

theorem same_fileOf {handle : Word}
    (h : s'.fs.handle handle = s.fs.handle handle) : s'.fileOf handle = s.fileOf handle :=
  congrArg Handle.node h

theorem others_serves (h : Serves handles s f)
    (hfiles : forall handle, handle ∈ handles ->
      s'.fs.handle handle = s.fs.handle handle ∧
        DeviceState.SameFile s.toDeviceState s'.toDeviceState (s.fileOf handle))
    (hcache : DeviceState.CacheKept s.toDeviceState s'.toDeviceState) :
    Serves handles s' f where
  cache := by
    rcases h.cache with ⟨label, hinv⟩
    exact ⟨_, hcache.inv hinv⟩
  some := h.some
  file p hp := by
    rw [same_fileOf (hfiles p hp).1]
    exact (hfiles p hp).2.onDevice (h.file p hp)
  apart p p' hp hp' := by
    rw [same_fileOf (hfiles p hp).1, (hfiles p hp).2.rootOf]
    exact h.apart p p' hp hp'
  bytes p hp := by
    rw [same_fileOf (hfiles p hp).1, (hfiles p hp).2.bytesOf]
    exact h.bytes p hp
  position p hp := by
    rw [(hfiles p hp).1]
    exact h.position p hp
  inside := h.inside

/-- Every step is one on the lists. -/
theorem FileStep.refines {e : FileEvent} (hturns : wordCount ≤ turns)
    (h : Serves handles s f) (hstep : FileStep turns depth before handles s e s') :
    exists f', FileStore.Step f e f' ∧ Serves handles s' f' := by
  cases hstep with
  | others hfiles hcache => exact ⟨f, .others f, others_serves h hfiles hcache⟩
  | @read s' task word hhandle hout hrun =>
      rcases @sysReadFile_serves turns depth before handles s f task hturns h hhandle hout
        with hpanic | ⟨word', t, hok, hbytes, hserves⟩
      · rw [hpanic] at hrun
        cases hrun
      · rw [hok] at hrun
        cases hrun
        rw [hbytes]
        exact ⟨_, .read f _ _, hserves⟩
  | @seek s' task word position hhandle hasked hle hrun =>
      refine ⟨_, .seek f _ _ ?_, sysSeek_serves h hhandle hasked hle hrun⟩
      rw [h.length_eq hhandle]
      exact hle

/-- In any order of their calls the tasks read what they would read of lists in
memory, and a call does not come back only when there is no memory for it. -/
theorem calls_read_files {es : List FileEvent} (hturns : wordCount ≤ turns)
    (h : Serves handles s f)
    (hrun : Trace (FileStep turns depth before handles) s es s') :
    exists f', Trace FileStore.Step f es f' ∧ Serves handles s' f' ∧
      forall task, askedHandle s'.toKernelState task ∈ handles ->
        Outside s'.toKernelState task ->
        s'.sysReadFile (DeviceState.fileRead turns (depth + 1)) before task =
            panic .outOfMem ∨
          exists word t,
            s'.sysReadFile (DeviceState.fileRead turns (depth + 1)) before task =
              .ok (word, t) ∧
            userBytes s'.toDeviceState t.toDeviceState task word.toNat =
              f'.next (askedHandle s'.toKernelState task)
                (s'.toDeviceState.askedSize task).toNat := by
  have hstep : forall s e s' f, Serves handles s f ->
      FileStep turns depth before handles s e s' ->
        exists f', FileStore.Step f e f' ∧ Serves handles s' f' :=
    fun _ _ _ _ hs hstep => FileStep.refines hturns hs hstep
  rcases Trace.refines hstep h hrun with ⟨f', htrace, h'⟩
  refine ⟨f', htrace, h', fun task hhandle hout => ?_⟩
  rcases @sysReadFile_serves turns depth before handles s' f' task hturns h' hhandle hout
    with hpanic | ⟨word, t, hok, hbytes, _⟩
  · exact Or.inl hpanic
  · exact Or.inr ⟨word, t, hok, hbytes⟩

end Steps

/-!
# A small file
-/

def seekBytes : List Byte :=
  [0, 0, 0, 0, 0, 0, 2, 0, 12, 0, 1, 0, 2]

/-- A file of three bytes at 20, on a volume on the device at 28.  The handle of
the file is at 32, and that of the volume at 36. -/
def openFile : PathState :=
  { smallPaths with
    fs := { smallPaths.fs with
      handle := fun p =>
        if p = 32 then ⟨fileFlag ||| handleRead, 20, init64 0 0 0 0⟩
        else ⟨fileFlag ||| handleRead, 28, init64 0 0 0 0⟩ }
    mem := fun i => seekBytes.getD (i - 0x10500) 0
    task := fun _ => ⟨0, 0, 0x1050, .running, 0, 0, 0, 5, 0⟩
    handleTable := fun _ _ => 32
    fileOps := fun p => if p = 20 then .fat else .block
    fatRoot := fun _ => ⟨bootRoot, 36⟩
    fatFile := fun _ => ⟨24, firstEntry, fun _ => 0⟩
    blockFile := fun _ => ⟨9,
      some fun block j => oneFile (3, 0) (block.toNat * 512 + j), countingFile.small⟩ }

theorem openFile_image {q : Nat} (hq : q < 2 ^ 64) :
    openFile.toDeviceState.imageOf 20 q = oneFile (3, 0) q := by
  change oneFile (3, 0) ((Uint64.ofNat (q / 512)).toNat * 512 + q % 512) = _
  rw [Uint64.toNat_ofNat, Nat.mod_eq_of_lt (by omega), Nat.div_add_mod']

theorem openFile_entry : openFile.toDeviceState.entryOf 20 =
    fileEntry (oneFile (3, 0)) firstEntry := by
  have hdata : Volume.data ⟨openFile.toDeviceState.imageOf 20, firstEntry⟩ =
      Volume.data ⟨oneFile (3, 0), firstEntry⟩ := by
    funext i
    exact openFile_image (Nat.mod_lt _ (by decide))
  exact congrArg directoryEntry hdata

theorem openFile_size : (openFile.toDeviceState.entryOf 20).size.toNat = 3 := by
  rw [openFile_entry, (oneFile_entry (3, 0)).2]
  rfl

theorem openFile_chain (start : Word) (i : Nat) :
    chain (openFile.toDeviceState.imageOf 20) bootRoot start i =
      chain (oneFile (3, 0)) bootRoot start i := by
  induction i with
  | zero => rfl
  | succ i ih =>
      unfold chain
      rw [ih]
      have hlt := (chain (oneFile (3, 0)) bootRoot start i).isLt
      have hplace : bootRoot.fatBegin.toNat = 512 := by decide
      unfold tableEntry wordAt
      rw [openFile_image (by omega), openFile_image (by omega)]

theorem openFile_laid :
    bootRoot = (parametersOf (openFile.toDeviceState.imageOf 20)).layout := by
  have hsector : parametersOf (openFile.toDeviceState.imageOf 20) =
      parametersOf (oneFile (3, 0)) :=
    parametersOf_congr fun i hi => openFile_image (by omega)
  rw [hsector]
  exact (oneFile_layout (3, 0)).symm

theorem openFile_onDevice : openFile.toDeviceState.OnDevice 20 := by
  have hsize : (fileEntry (oneFile (3, 0)) firstEntry).size.toNat = 3 := by
    rw [← openFile_entry]
    exact openFile_size
  have hone := @oneFile_file (3, 0) (by omega) (by omega)
  have hfile : ChainedFile (openFile.toDeviceState.imageOf 20) bootRoot 512
      (openFile.toDeviceState.entryOf 20) := by
    rw [openFile_entry]
    refine ⟨fun i hi => ?_, fun hpos => ?_, hone.empty⟩
    · rw [openFile_chain]
      exact hone.inside i hi
    · rw [openFile_chain]
      exact hone.ends hpos
  refine ⟨rfl, rfl, by decide, rfl, openFile_laid,
    ⟨⟨rfl, by decide, by decide, by decide⟩,
    hfile, ?_, by decide⟩, ⟨by decide, by decide, by decide, by decide, ?_⟩⟩
  · rw [openFile_size]
    decide
  · intro i hi
    change i < clustersOf 512 (openFile.toDeviceState.entryOf 20).size.toNat at hi
    rw [openFile_size] at hi
    have hzero : i = 0 := Nat.lt_one_iff.mp hi
    rw [hzero]
    change OneBlock _ (fatPosition bootRoot
      (openFile.toDeviceState.entryOf 20).clusterLo) 2
    rw [openFile_entry, (oneFile_entry (3, 0)).1]
    decide

def openStore : FileStore where
  bytes _ := openFile.toDeviceState.bytesOf 20
  position _ := 0

theorem openFile_serves : Serves {32} openFile openStore where
  cache := ⟨fun _ => none, ⟨⟨smallBoot_boot.heap, fun _ _ h => by cases h⟩, by decide,
    fun _ _ => rfl, fun _ h => absurd rfl h⟩⟩
  some := by
    rintro handle rfl
    decide
  file := by
    rintro handle rfl
    exact openFile_onDevice
  apart := by
    rintro handle handle' rfl rfl
    decide
  bytes := by
    rintro handle rfl
    rfl
  position := by
    rintro handle rfl
    rfl
  inside _ _ := Nat.zero_le _

def soughtFile : PathState :=
  { openFile with toDeviceState := openFile.toDeviceState.setPosition 32 (Uint64.ofNat 2) }

theorem calls_read_files_small : exists f,
    Trace FileStore.Step openStore [.seek 32 2] f ∧ Serves {32} soughtFile f ∧
      forall task, askedHandle soughtFile.toKernelState task ∈ ({32} : Set Word) ->
        Outside soughtFile.toKernelState task ->
        soughtFile.sysReadFile (DeviceState.fileRead wordCount 1) (fun _ => 0) task =
            panic .outOfMem ∨
          exists word t,
            soughtFile.sysReadFile (DeviceState.fileRead wordCount 1) (fun _ => 0)
              task = .ok (word, t) ∧
            userBytes soughtFile.toDeviceState t.toDeviceState task word.toNat =
              f.next (askedHandle soughtFile.toKernelState task)
                (soughtFile.toDeviceState.askedSize task).toNat := by
  have hseek : FileStep wordCount 0 (fun _ => 0) {32} openFile (.seek 32 2) soughtFile := by
    have hle : (Uint64.ofNat 2).toNat ≤
        (openFile.toDeviceState.entryOf 20).size.toNat := by
      rw [openFile_size]
      decide
    have hstep := @FileStep.seek wordCount 0 (fun _ => 0) {32} openFile soughtFile 24 0
      (Uint64.ofNat 2) rfl rfl hle rfl
    exact hstep
  exact calls_read_files (Nat.le_refl _) openFile_serves (.step hseek (.none _))

end Fs
end Rmmtos
