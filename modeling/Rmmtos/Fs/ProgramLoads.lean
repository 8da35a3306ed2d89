import Rmmtos.Fs.FileCalls
import Rmmtos.Fs.HandlerFrames
import Rmmtos.Kernel.Exec

/-!
# Programs from the disk

{lit}`sys_exec` reads a file to the beginning of the segment of its task, in
parts that go through a buffer of the kernel, and makes the stack of the new
program at the end of the segment.
-/

namespace Rmmtos
namespace Fs

open Library Kernel

/-!
# Parts of a program
-/

def DeviceState.sizeOf (s : DeviceState) (node : Word) : Nat :=
  (s.entryOf node).size.toNat

structure PartLoaded (label : Word -> Option BlockUser) (s : DeviceState)
    (task handle node : Word) (x : PathState.ProgramLoad) : Prop where
  cache : DeviceState.CacheSound label x.state.toDeviceState
  blockFile : x.state.blockFile = s.blockFile
  kept : DeviceState.FileKept s x.state.toDeviceState
  position : (x.state.fs.handle handle).position.toNat = x.addr.toNat
  others : forall p, p ≠ handle -> p ≠ (s.rootOf node).handle ->
    (x.state.fs.handle p).position = (s.fs.handle p).position
  inside : x.addr.toNat ≤ s.sizeOf node
  program : forall j, j < x.addr.toNat ->
    x.state.mem (linear (s.task task).segment (BitVec.ofNat 16 j)) = s.byteOf node j
  rest : forall a, OutsideKernel a ->
    (forall j, j < x.addr.toNat ->
      a ≠ linear (s.task task).segment (BitVec.ofNat 16 j)) ->
    x.state.mem a = s.mem a

/-- The result of the last read, which is nothing only at the end of the file. -/
structure PartRead (s : DeviceState) (node : Word) (x : PathState.ProgramLoad) :
    Prop where
  small : x.result.toNat ≤ 512
  ends : x.result = 0 -> x.addr.toNat = s.sizeOf node

section Loads

variable {turns depth : Nat} {label : Word -> Option BlockUser}
  {s : DeviceState} {task handle node : Word} {x : PathState.ProgramLoad}

theorem place_injective {i j : Nat} (hi : i < wordCount) (hj : j < wordCount)
    (h : BitVec.ofNat 16 i = BitVec.ofNat 16 j) : i = j := by
  have hnat := congrArg BitVec.toNat h
  unfold wordCount at hi hj
  rw [BitVec.toNat_ofNat, BitVec.toNat_ofNat, Nat.mod_eq_of_lt hi,
    Nat.mod_eq_of_lt hj] at hnat
  exact hnat

theorem part_places (segment addr : Word) (n : Nat) {v : Bytes} {m : Mem} :
    writeRun (fun i => linear segment (offsetFrom addr i)) v n m =
      writeRun (fun i => linear segment (BitVec.ofNat 16 (addr.toNat + i))) v n m := by
  have hplace : (fun i => linear segment (offsetFrom addr i)) =
      fun i => linear segment (BitVec.ofNat 16 (addr.toNat + i)) := by
    funext i
    unfold offsetFrom
    rw [BitVec.ofNat_add, BitVec.ofNat_toNat, BitVec.setWidth_eq]
  rw [hplace]

theorem DeviceState.CacheSound.setMemory {d : DeviceState} {addr word : Word}
    {bytes : Bytes} (h : d.CacheSound label)
    (hout : forall off, OutsideKernel (linear (d.task task).segment off)) :
    (DeviceState.taskSetMemory d task addr bytes word).CacheSound label := by
  rcases h with ⟨label', hinv, hstay⟩
  refine ⟨label', hinv.outside ?_, hstay⟩
  exact fun off => writeRun_other fun i _ heq => hout _ off heq.symm

theorem DeviceState.FileKept.setMemory {d : DeviceState} (h : DeviceState.FileKept s d)
    (task addr : Word) (bytes : Bytes) (word : Word) :
    DeviceState.FileKept s (DeviceState.taskSetMemory d task addr bytes word) :=
  ⟨h.node, h.flags, h.target, h.task, h.taskList, h.handleTable, h.vfsRoot, h.devfsRoot,
    h.fileOps, h.fatRoot, h.fatFile⟩

theorem DeviceState.SameFile.byteOf {s s' : DeviceState}
    (h : DeviceState.SameFile s s' node) : s'.byteOf node = s.byteOf node := by
  unfold DeviceState.byteOf
  rw [h.imageOf, h.rootOf, h.clusterOf, h.entryOf]

theorem part_mask {word : Word} (h : word.toNat ≤ 512) :
    word &&& fileIoResultSizeMask = word ∧ word &&& fileIoResultStatusMask = 0 := by
  have hlt : word < 0x0201 := by
    bv_omega
  unfold fileIoResultSizeMask fileIoResultStatusMask
  constructor
  · apply BitVec.eq_of_toNat_eq
    have hmask : (0x0fff : Word).toNat = 2 ^ 12 - 1 := rfl
    rw [BitVec.toNat_and, hmask, Nat.and_two_pow_sub_one_eq_mod]
    omega
  · have hmask : word &&& (0x0fff : Word) = word := by
      apply BitVec.eq_of_toNat_eq
      have hmask : (0x0fff : Word).toNat = 2 ^ 12 - 1 := rfl
      rw [BitVec.toNat_and, hmask, Nat.and_two_pow_sub_one_eq_mod]
      omega
    rw [← hmask, BitVec.and_assoc]
    exact BitVec.and_zero

theorem PartRead.goes_iff (h : PartRead s node x) :
    PathState.loadGoes x = true <-> x.result ≠ 0 := by
  rcases part_mask h.small with ⟨hsize, hstatus⟩
  unfold PathState.loadGoes
  rw [hsize, hstatus, Bool.and_eq_true, decide_eq_true_iff]
  have hzero : ((0 : Word) == 0) = true := rfl
  rw [and_iff_left hzero]
  constructor
  · intro hlt heq
    rw [heq] at hlt
    exact absurd hlt (by decide)
  · intro hne
    bv_omega

theorem PartLoaded.turn (depth : Nat) (hturns : wordCount ≤ turns)
    (h : PartLoaded label s task handle node x)
    (hnode : (s.fs.handle handle).node = node) (hfile : s.OnDevice node)
    (hapart : handle ≠ (s.rootOf node).handle) (hsize : s.sizeOf node < wordCount)
    (hout : Outside s.toKernelState task) :
    PathState.loadTurn (DeviceState.fileRead turns (depth + 1)) task handle x =
        panic .outOfMem ∨
      exists y, PathState.loadTurn (DeviceState.fileRead turns (depth + 1)) task handle
          x = .ok y ∧
        PartLoaded label s task handle node y ∧ PartRead s node y ∧
        y.addr.toNat = x.addr.toNat + y.result.toNat := by
  have hsame := h.kept.sameFile h.blockFile node
  have hplace : (x.state.fs.handle handle).position.toNat ≤
      (x.state.toDeviceState.entryOf node).size.toNat := by
    rw [hsame.entryOf, h.position]
    exact h.inside
  rcases DeviceState.fileRead_onDevice depth h.cache
    ((h.kept.target handle).trans hnode) (hsame.onDevice hfile)
    (by
      rw [hsame.rootOf]
      exact hapart) hplace hturns x.buffer 512 with
    hpanic | ⟨word, d, hread, hword, hmoves⟩
  · left
    unfold PathState.loadTurn
    rw [hpanic]
    rfl
  · right
    rw [hsame.entryOf, h.position] at hword
    change word.toNat = min 512 (s.sizeOf node - x.addr.toNat) at hword
    have hsmall : word.toNat ≤ 512 := by
      omega
    have hinside := h.inside
    have hmask := (part_mask hsmall).1
    have hadd : (x.addr + word).toNat = x.addr.toNat + word.toNat := by
      unfold wordCount at hsize
      rw [BitVec.toNat_add]
      omega
    have htask : d.task = s.task := hmoves.kept.task.trans h.kept.task
    unfold PathState.loadTurn
    rw [hread, ok_bind]
    dsimp only
    rw [hmask]
    have hout' : forall off, OutsideKernel (linear (d.task task).segment off) := by
      rw [htask]
      exact hout
    have huser := (DeviceState.fileRead_user turns (depth + 1) _ _ _ _ _ _ _ hread).mem
    refine ⟨_, rfl, ⟨hmoves.cache.setMemory hout', ?_, ?_, ?_, ?_, ?_, ?_, ?_⟩,
      ⟨hsmall, ?_⟩, hadd⟩
    · exact hmoves.blockFile.trans h.blockFile
    · exact h.kept.trans (hmoves.kept.setMemory _ _ _ _)
    · change (d.fs.handle handle).position.toNat = (x.addr + word).toNat
      rw [hadd, hmoves.position, h.position]
    · intro p hp hvolume
      refine (hmoves.others p hp ?_).trans (h.others p hp hvolume)
      rw [h.kept.target, hnode, hsame.rootOf]
      exact hvolume
    · change (x.addr + word).toNat ≤ _
      omega
    · intro j hj
      change j < (x.addr + word).toNat at hj
      rw [hadd] at hj
      change writeRun _ _ _ d.mem _ = _
      rw [part_places, htask]
      rcases Nat.lt_or_ge j x.addr.toNat with hbefore | hbehind
      · rw [writeRun_other, huser _ (hout _)]
        · exact h.program j hbefore
        · intro i hi heq
          have hoff := place_injective (by omega) (by omega) (linear_injective heq)
          omega
      · have hplace : j = x.addr.toNat + (j - x.addr.toNat) := by
          omega
        have hinj : forall i i', i < word.toNat -> i' < word.toNat ->
            linear (s.task task).segment (BitVec.ofNat 16 (x.addr.toNat + i)) =
              linear (s.task task).segment (BitVec.ofNat 16 (x.addr.toNat + i')) ->
            i = i' := by
          intro i i' hi hi' heq
          have hoff := place_injective (by omega) (by omega) (linear_injective heq)
          omega
        rw [hplace]
        refine (writeRun_at hinj (by omega)).trans ?_
        rw [splice_before (by omega), h.position]
        exact congrFun (hsame.byteOf) _
    · intro a ha hne
      change writeRun _ _ _ d.mem a = _
      rw [part_places, htask, writeRun_other, huser a ha]
      · exact h.rest a ha fun j hj => hne j (by
          change j < (x.addr + word).toNat
          omega)
      · intro i hi
        exact hne _ (by
          change _ < (x.addr + word).toNat
          omega)
    · intro hzero
      change word = 0 at hzero
      change (x.addr + word).toNat = _
      rw [hzero] at hword hadd
      change 0 = min 512 _ at hword
      change _ = x.addr.toNat + 0 at hadd
      rw [hzero]
      omega

/-- What is left of the file, and the turn that finds that nothing is. -/
def loadLeft (s : DeviceState) (node : Word) (x : PathState.ProgramLoad) : Nat :=
  s.sizeOf node - x.addr.toNat + if x.result = 0 then 0 else 1

theorem loadLeft_lt {y : PathState.ProgramLoad} (hx : x.result ≠ 0)
    (haddr : y.addr.toNat = x.addr.toNat + y.result.toNat)
    (hinside : y.addr.toNat ≤ s.sizeOf node) :
    loadLeft s node y < loadLeft s node x := by
  unfold loadLeft
  rw [if_neg hx]
  split
  · omega
  · next hy =>
      have hpos : 0 < y.result.toNat := Nat.pos_of_ne_zero fun hzero =>
        hy (BitVec.eq_of_toNat_eq hzero)
      omega

end Loads

section Programs

variable {turns depth : Nat} {label : Word -> Option BlockUser}
  {s : PathState} {task handle node : Word}

/-- The whole file goes to the beginning of the segment. -/
theorem loadProgram_loads (hturns : wordCount ≤ turns)
    (hcache : s.toDeviceState.CacheSound label)
    (hnode : (s.fs.handle handle).node = node) (hfile : s.toDeviceState.OnDevice node)
    (hapart : handle ≠ (s.toDeviceState.rootOf node).handle)
    (hstart : (s.fs.handle handle).position.toNat = 0)
    (hsize : s.toDeviceState.sizeOf node < wordCount)
    (hout : Outside s.toKernelState task) :
    PathState.loadProgram turns (DeviceState.fileRead turns (depth + 1)) task handle s =
        panic .outOfMem ∨
      exists x : PathState.ProgramLoad,
        PathState.loadProgram turns (DeviceState.fileRead turns (depth + 1)) task handle
          s = .ok x.state ∧
        PartLoaded label s.toDeviceState task handle node x ∧
        x.addr.toNat = s.toDeviceState.sizeOf node := by
  have hfirst : PartLoaded label s.toDeviceState task handle node
      ⟨s.leftover.2, s.leftover.1, 0, 0⟩ :=
    ⟨hcache, rfl, DeviceState.fileKept_frame.lookup _, hstart, fun _ _ _ => rfl,
      Nat.zero_le _, nofun, fun _ _ _ => rfl⟩
  unfold PathState.loadProgram
  rcases hfirst.turn depth hturns hnode hfile hapart hsize hout with
    hpanic | ⟨x, hx, hloaded, hread, haddr⟩
  · left
    dsimp only
    rw [hpanic]
    rfl
  · dsimp only
    rw [hx, ok_bind]
    have hfuel : loadLeft s.toDeviceState node x < turns := by
      have hzero : (0 : Word).toNat = 0 := rfl
      have hinside := hloaded.inside
      unfold loadLeft
      split
      · next hdone =>
          have hends := hread.ends hdone
          unfold wordCount at hturns
          omega
      · next hsome =>
          have hpos : 0 < x.result.toNat := Nat.pos_of_ne_zero fun hnone =>
            hsome (BitVec.eq_of_toNat_eq hnone)
          dsimp only at haddr
          omega
    rcases whileLoop_outcome (e := Stop.hang) (c := PathState.loadGoes)
      (b := PathState.loadTurn (DeviceState.fileRead turns (depth + 1)) task handle)
      (I := fun y => PartLoaded label s.toDeviceState task handle node y ∧
        PartRead s.toDeviceState node y) (F := (· = .panic .outOfMem))
      (loadLeft s.toDeviceState node) (by
        rintro y ⟨hy, hpart⟩ hgoes
        have hsome := hpart.goes_iff.mp hgoes
        rcases hy.turn depth hturns hnode hfile hapart hsize hout with
          hpanic | ⟨z, hz, hnext, hpart', haddr⟩
        · exact Or.inl ⟨_, hpanic, rfl⟩
        · exact Or.inr ⟨z, hz, ⟨hnext, hpart'⟩, loadLeft_lt hsome haddr hnext.inside⟩)
      ⟨hloaded, hread⟩ hfuel with
      ⟨f, hloop, rfl⟩ | ⟨y, hloop, ⟨hy, hpart⟩, hexit⟩
    · left
      rw [hloop]
      rfl
    · right
      refine ⟨y, by rw [hloop]; rfl, hy, hpart.ends ?_⟩
      apply Decidable.byContradiction
      intro hne
      rw [hpart.goes_iff.mpr hne] at hexit
      cases hexit

/-!
# The new program
-/

/-- The rest of {lit}`sys_exec`, with the node of the program and its parameter. -/
def execFound (turns : Nat) (read : DeviceState.ReadOp) (task node param : Word)
    (paramString : List Byte) (s : PathState) : Result (Word × PathState) :=
  execOpen node s >>= fun d =>
    (if d.1 ≠ 0 ∧ d.2.1 ≠ 0 ∧ param ≠ 0 then
      PathState.loadProgram turns read task d.1 d.2.2 >>= fun s =>
        .ok (s.exec paramString)
    else .ok d.2.2) >>= fun s =>
    (if d.2.1 ≠ 0 then s.free d.2.1 else .ok s) >>= fun s =>
    (if d.1 ≠ 0 then s.fileClose d.1 else .ok s) >>= fun s =>
    .ok (0, s)

theorem sysExec_found (turns : Nat) (read : DeviceState.ReadOp) (task : Word)
    (s : PathState) : PathState.sysExec turns read task s =
      getString s task regBX >>= fun a =>
      getString a.2.2 task DeviceState.regCX >>= fun b =>
      execNode a.1 a.2.1 b.2.2 >>= fun c =>
      execFound turns read task c.1 b.1 b.2.1 c.2 :=
  sysExec_eq turns read task s

def PathState.opened (s : PathState) (heap : Heap) (handle node : Word) : PathState :=
  { s with
    fs := openHandle { s.fs with heap := heap } handle node fileFlag handleRead }

/-- A file that can be opened to be run: no task writes to it, and the handle of
its volume is in use. -/
structure Runnable (s : PathState) (node : Word) : Prop where
  nonzero : node ≠ 0
  file : asks (s.fs.node node).flags fileFlag = true
  free : busy (s.fs.node node) handleRead = false
  volume : NotFree s.fs.heap (s.toDeviceState.rootOf node).handle
  device : s.toDeviceState.OnDevice node

structure RunBlocks (s : PathState) (label label' : Word -> Option BlockUser)
    (node handle buffer : Word) (t : PathState) : Prop where
  state : exists heap, t = s.opened heap handle node
  cache : CacheInv t.blockFile t.toDeviceState.blockState label'
  stay : UsersStay label label'
  handle_ne : handle ≠ 0
  buffer_ne : buffer ≠ 0
  apart : handle ≠ buffer
  volume : handle ≠ (s.toDeviceState.rootOf node).handle
  others : forall p, NotFree s.fs.heap p -> p ≠ handle
  handleTaken : label' handle = some (none, fileHandleSize.toNat)
  bufferTaken : label' buffer = some (none, 512)
  before : label handle = none ∧ label buffer = none

theorem execOpen_opened (hs : CacheInv s.blockFile s.toDeviceState.blockState label)
    (hnode : Runnable s node) :
    execOpen node s = panic .outOfMem ∨
      exists handle buffer t label', execOpen node s = .ok (handle, buffer, t) ∧
        RunBlocks s label label' node handle buffer t := by
  unfold execOpen
  rw [if_pos hnode.nonzero]
  have hasks : ¬ (asks (s.fs.node node).flags fileFlag = false ∨ node = 0) := by
    rintro (h | h)
    · rw [hnode.file] at h
      cases h
    · exact hnode.nonzero h
  have hopen : s.fileOpen node handleRead =
      s.malloc fileHandleSize >>= fun r =>
        if r.1 = 0 then .ok r
        else .ok (r.1, { r.2 with
          fs := openHandle r.2.fs r.1 node fileFlag handleRead }) := by
    unfold PathState.fileOpen Fs.fileOpen
    rw [hnode.free, if_neg Bool.false_ne_true, if_neg hasks]
    unfold PathState.malloc
    cases s.fs.malloc fileHandleSize with
    | error e => rfl
    | ok r =>
        simp only [Result.within_ok, ok_bind]
        split <;> rfl
  rw [hopen]
  rcases malloc_cache fileHandleSize hs with
    hpanic | ⟨handle, heap, hmalloc, hne, hnone, hother, hinv⟩
  · left
    rw [hpanic]
    rfl
  · rw [hmalloc, ok_bind]
    dsimp only
    rw [if_neg hne, ok_bind]
    dsimp only
    have hinv' : CacheInv (s.opened heap handle node).blockFile
        (s.opened heap handle node).toDeviceState.blockState
        (Function.update label handle (some (none, fileHandleSize.toNat))) := hinv
    rcases malloc_cache 512 hinv' with
      hpanic | ⟨buffer, heap', hmalloc', hne', hnone', _, hinv''⟩
    · left
      change (s.opened heap handle node).malloc 512 >>= _ = _
      rw [hpanic]
      rfl
    · right
      have happart : handle ≠ buffer := by
        intro hsame
        rw [← hsame, Function.update_self] at hnone'
        cases hnone'
      rw [Function.update_of_ne happart.symm] at hnone'
      refine ⟨handle, buffer, (s.opened heap handle node).withHeap heap', _, ?_,
        ⟨heap', rfl⟩, hinv'', ?_, hne, hne', happart, ?_, ?_, ?_, ?_, hnone, hnone'⟩
      · change (s.opened heap handle node).malloc 512 >>= _ = _
        rw [hmalloc']
        rfl
      · exact UsersStay.update ((UsersStay.refl label).update hnone _) hnone' _
      · exact (hother _ hnode.volume).1.symm
      · exact fun p hp => (hother p hp).1
      · rw [Function.update_of_ne happart]
        exact Function.update_self ..
      · exact Function.update_self ..

theorem RunBlocks.sameFile {label' : Word -> Option BlockUser} {buffer : Word}
    {t : PathState} (h : RunBlocks s label label' node handle buffer t) :
    DeviceState.SameFile s.toDeviceState t.toDeviceState node := by
  rcases h.state with ⟨heap, rfl⟩
  refine ⟨rfl, rfl, rfl, ?_, rfl, rfl⟩
  unfold DeviceState.deviceOf
  exact congrArg Handle.node (Function.update_of_ne h.volume.symm ..)

theorem RunBlocks.handle_other {label' : Word -> Option BlockUser} {buffer p : Word}
    {t : PathState} (h : RunBlocks s label label' node handle buffer t)
    (hp : p ≠ handle) : t.fs.handle p = s.fs.handle p := by
  rcases h.state with ⟨heap, rfl⟩
  exact Function.update_of_ne hp ..

theorem handle_eq {h h' : Handle} (hflags : h.flags = h'.flags)
    (hnode : h.node = h'.node) (hposition : h.position = h'.position) : h = h' := by
  cases h
  cases h'
  cases hflags
  cases hnode
  cases hposition
  rfl

def PathState.closed (s : PathState) (heap : Heap) (handle : Word) : PathState :=
  let target := (s.fs.handle handle).node
  let fs := s.fs.setNode target
    (countClose (s.fs.handle handle).flags (s.fs.node target))
  { s with fs := { nodeRelease fs target with heap := heap } }

theorem fileClose_closed (hs : CacheInv s.blockFile s.toDeviceState.blockState label)
    {n : Nat} (hhandle : label handle = some (none, n)) :
    exists heap, s.fileClose handle = .ok (s.closed heap handle) ∧
      CacheInv s.blockFile (s.closed heap handle).toDeviceState.blockState
        (Function.update label handle none) := by
  have hclosed : CacheInv (s.closed s.fs.heap handle).blockFile
      (s.closed s.fs.heap handle).toDeviceState.blockState label := hs
  rcases free_cache hclosed hhandle with ⟨heap, hfree, hinv⟩
  exact ⟨heap, hfree, hinv⟩

theorem closed_node (n : Node) :
    (let opened := countOpen handleRead n
      let opened := { opened with refcount := opened.refcount + 1 }
      let closed := countClose (fileFlag ||| handleRead) opened
      { closed with refcount := closed.refcount - 1 }) = n := by
  have hread : asks handleRead handleRead = true := rfl
  have hwrite : asks handleRead handleWrite = false := rfl
  have hread' : asks (fileFlag ||| handleRead) handleRead = true := rfl
  have hwrite' : asks (fileFlag ||| handleRead) handleWrite = false := rfl
  have hone : forall w : Word, w + 1 - 1 = w := fun w => by
    bv_omega
  unfold countOpen countClose
  rw [hread, hwrite, hread', hwrite']
  simp only [if_true, Bool.false_eq_true, if_false, hone]

theorem closed_nodes {u : PathState} {heap : Heap} (heap' : Heap)
    (hnodes : u.fs.node = (s.opened heap handle node).fs.node)
    (htarget : (u.fs.handle handle).node = node)
    (hflags : (u.fs.handle handle).flags = fileFlag ||| handleRead) :
    (u.closed heap' handle).fs.node = s.fs.node := by
  funext q
  unfold PathState.closed nodeRelease FsState.setNode
  dsimp only
  rw [htarget, hflags, hnodes]
  unfold PathState.opened openHandle nodeAcquire FsState.setNode
  dsimp only
  by_cases hq : q = node
  · rw [hq]
    simp only [Function.update_self]
    exact closed_node (s.fs.node node)
  · simp only [Function.update_of_ne hq]
    rfl

/-- A program has been started: it is at the beginning of the segment of its task
with its stack at the end, and nothing is left of the call. -/
structure ProgramStarted (s : PathState) (node : Word) (param : List Byte)
    (t : PathState) : Prop where
  program : forall j, j < s.toDeviceState.sizeOf node ->
    peek t.mem (s.task s.currentTask).segment (BitVec.ofNat 16 j) =
      s.toDeviceState.byteOf node j
  between : forall off : Word, s.toDeviceState.sizeOf node ≤ off.toNat ->
    off < execSp param ->
    peek t.mem (s.task s.currentTask).segment off =
      peek s.mem (s.task s.currentTask).segment off
  frame : forall off value,
    (off, value) ∈ execWords (s.task s.currentTask).segment (execSp param) ->
    peekw t.mem (s.task s.currentTask).segment off = value
  chars : forall i, i ≤ param.length ->
    peek t.mem (s.task s.currentTask).segment (offsetFrom (execSp param + 24) i) =
      param.getD i 0
  outside : forall a, OutsideKernel a ->
    (forall off, a ≠ linear (s.task s.currentTask).segment off) -> t.mem a = s.mem a
  task : t.task = Function.update s.task s.currentTask
    { s.task s.currentTask with userSp := execSp param }
  currentTask : t.currentTask = s.currentTask
  nodes : t.fs.node = s.fs.node
  handle : forall p, NotFree s.fs.heap p ->
    p ≠ (s.toDeviceState.rootOf node).handle -> t.fs.handle p = s.fs.handle p
  handleTable : t.handleTable = s.handleTable
  volumes : t.fileOps = s.fileOps ∧ t.fatRoot = s.fatRoot ∧ t.fatFile = s.fatFile ∧
    t.blockFile = s.blockFile

theorem exec_record (s : PathState) (param : List Byte) :
    (s.exec param).task = Function.update s.task s.currentTask
      { s.task s.currentTask with userSp := execSp param } := by
  rcases exec_task s param with ⟨userSp, htask⟩
  have hsp := exec_userSp s.toKernelState param
  rw [← PathState.exec_toKernelState] at hsp
  change ((s.exec param).task s.currentTask).userSp = _ at hsp
  rw [htask, Function.update_self] at hsp
  rw [htask, ← hsp]

/-- The memory of a program that has been read and started. -/
theorem exec_started {x : PathState.ProgramLoad} {param : List Byte}
    (hlen : param.length ≤ 4095)
    (h : PartLoaded label s.toDeviceState task handle node x)
    (hends : x.addr.toNat = s.toDeviceState.sizeOf node)
    (hroom : s.toDeviceState.sizeOf node ≤ (execSp param).toNat)
    (hcurrent : x.state.currentTask = task) (hout : Outside s.toKernelState task) :
    (forall j, j < s.toDeviceState.sizeOf node ->
      peek (x.state.exec param).mem (s.task task).segment (BitVec.ofNat 16 j) =
        s.toDeviceState.byteOf node j) ∧
    (forall off : Word, s.toDeviceState.sizeOf node ≤ off.toNat ->
      off < execSp param ->
      peek (x.state.exec param).mem (s.task task).segment off =
        peek s.mem (s.task task).segment off) ∧
    (forall a, OutsideKernel a -> (forall off, a ≠ linear (s.task task).segment off) ->
      (x.state.exec param).mem a = s.mem a) := by
  have hmem := congrArg KernelState.mem (PathState.exec_toKernelState x.state param)
  have hsegment : (x.state.task x.state.currentTask).segment =
      (s.task task).segment := by
    rw [hcurrent, h.kept.task]
  have hother : forall a,
      (forall off, execSp param ≤ off -> a ≠ linear (s.task task).segment off) ->
      (x.state.exec param).mem a = x.state.mem a := by
    intro a ha
    rw [← hsegment] at ha
    exact (congrFun hmem a).trans (exec_other (s := x.state.toKernelState) hlen ha)
  have hlow : forall off : Word, off < execSp param -> forall off',
      execSp param ≤ off' -> linear (s.task task).segment off ≠
        linear (s.task task).segment off' := by
    intro off hoff off' hoff' heq
    rw [linear_injective heq] at hoff
    exact absurd hoff (BitVec.not_lt.mpr hoff')
  refine ⟨fun j hj => ?_, fun off hsize hoff => ?_, fun a ha hne => ?_⟩
  · have hplace : BitVec.ofNat 16 j < execSp param := by
      have hsp := (execSp param).isLt
      change (BitVec.ofNat 16 j).toNat < (execSp param).toNat
      rw [BitVec.toNat_ofNat, Nat.mod_eq_of_lt (by omega)]
      omega
    unfold peek
    rw [hother _ (hlow _ hplace)]
    exact h.program j (by omega)
  · unfold peek
    rw [hother _ (hlow off hoff)]
    refine h.rest _ (hout off) fun j hj heq => ?_
    have hnat := congrArg BitVec.toNat (linear_injective heq)
    rw [BitVec.toNat_ofNat, Nat.mod_eq_of_lt (by omega)] at hnat
    omega
  · rw [hother a fun off _ => hne off]
    exact h.rest a ha fun j _ => hne _

/-- A program that the call has found is started with all of its file, if there is
memory for the call. -/
theorem execFound_starts {param : Word} {paramString : List Byte}
    (hturns : wordCount ≤ turns)
    (hs : CacheInv s.blockFile s.toDeviceState.blockState label)
    (hnode : Runnable s node) (hout : Outside s.toKernelState s.currentTask)
    (hparam : param ≠ 0) (hlen : paramString.length ≤ 4095)
    (hroom : s.toDeviceState.sizeOf node ≤ (execSp paramString).toNat) :
    execFound turns (DeviceState.fileRead turns (depth + 1)) s.currentTask node param
        paramString s = panic .outOfMem ∨
      exists t, execFound turns (DeviceState.fileRead turns (depth + 1)) s.currentTask
          node param paramString s = .ok (0, t) ∧
        ProgramStarted s node paramString t ∧
        exists label', CacheInv t.blockFile t.toDeviceState.blockState label' ∧
          UsersStay label label' := by
  unfold execFound
  rcases execOpen_opened hs hnode with
    hpanic | ⟨handle, buffer, t, label', hopen, hblocks⟩
  · left
    rw [hpanic]
    rfl
  · rw [hopen, ok_bind]
    dsimp only
    rw [if_pos ⟨hblocks.handle_ne, hblocks.buffer_ne, hparam⟩]
    have hsame := hblocks.sameFile
    have hsizes : t.toDeviceState.sizeOf node = s.toDeviceState.sizeOf node := by
      unfold DeviceState.sizeOf
      rw [hsame.entryOf]
    have hsp := (execSp paramString).isLt
    have htarget : (t.fs.handle handle).node = node ∧
        (t.fs.handle handle).flags = fileFlag ||| handleRead ∧
        (t.fs.handle handle).position.toNat = 0 := by
      rcases hblocks.state with ⟨heap, rfl⟩
      have hnew : (s.opened heap handle node).fs.handle handle =
          ⟨fileFlag ||| handleRead, node, init64 0 0 0 0⟩ := Function.update_self ..
      rw [hnew]
      exact ⟨rfl, rfl, rfl⟩
    have hkept : t.toKernelState.currentTask = s.currentTask ∧ t.mem = s.mem ∧
        t.task = s.task ∧ t.handleTable = s.handleTable ∧ t.fileOps = s.fileOps ∧
        t.fatRoot = s.fatRoot ∧ t.fatFile = s.fatFile ∧ t.blockFile = s.blockFile := by
      rcases hblocks.state with ⟨heap, rfl⟩
      exact ⟨rfl, rfl, rfl, rfl, rfl, rfl, rfl, rfl⟩
    have hout' : Outside t.toKernelState s.currentTask := by
      unfold Outside
      rw [hkept.2.2.1]
      exact hout
    rcases @loadProgram_loads turns depth _ _ s.currentTask _ _ hturns
      ⟨label', hblocks.cache, UsersStay.refl _⟩ htarget.1 (hsame.onDevice hnode.device)
      (by
        rw [hsame.rootOf]
        exact hblocks.volume) htarget.2.2 (by
        rw [hsizes]
        unfold wordCount
        omega) hout' with
      hpanic | ⟨x, hx, hloaded, hends⟩
    · left
      rw [hpanic]
      rfl
    · right
      rw [hx, ok_bind, ok_bind]
      have hcalled := loadProgram_kept (fileRead_kept_calls turns (depth + 1))
        hkept.1.symm hx
      have hcurrent : x.state.currentTask = s.currentTask :=
        hcalled.currentTask.trans hkept.1
      rcases hloaded.cache with ⟨users, hinv, hstay⟩
      have hexec : CacheInv x.state.blockFile
          (x.state.exec paramString).toDeviceState.blockState users := by
        refine hinv.outside fun off => exec_mem paramString fun off' heq => ?_
        rw [hcurrent, hloaded.kept.task] at heq
        exact hout' off' off heq.symm
      rw [if_pos hblocks.buffer_ne]
      rcases free_cache (s := x.state.exec paramString) hexec
        (hstay _ _ hblocks.bufferTaken) with ⟨heap₁, hfree, hinv₁⟩
      rw [hfree, ok_bind, if_pos hblocks.handle_ne]
      have hhandle : Function.update users buffer none handle =
          some (none, fileHandleSize.toNat) := by
        rw [Function.update_of_ne hblocks.apart]
        exact hstay _ _ hblocks.handleTaken
      rcases fileClose_closed (s := (x.state.exec paramString).withHeap heap₁) hinv₁
        hhandle with ⟨heap₂, hclose, hinv₂⟩
      rw [hclose, ok_bind]
      refine ⟨_, rfl, ?_, _, hinv₂, ?_⟩
      · rcases hkept with ⟨_, hmem, htask, htable, hops, hroot, hfat, hblock⟩
        rcases exec_started hlen hloaded hends (by
            rw [hsizes]
            exact hroom) hcurrent hout' with ⟨hprogram, hbetween, houtside⟩
        have hsegment : (x.state.task x.state.currentTask).segment =
            (s.task s.currentTask).segment := by
          rw [hcurrent, hloaded.kept.task, htask]
        have hexecMem := congrArg KernelState.mem
          (PathState.exec_toKernelState x.state paramString)
        rw [htask, hsizes, hsame.byteOf] at hprogram
        rw [htask, hsizes, hmem] at hbetween
        rw [htask, hmem] at houtside
        refine ⟨hprogram, hbetween, ?_, ?_, houtside, ?_, hcurrent, ?_, ?_, ?_, ?_⟩
        · intro off value hw
          rw [← hsegment] at hw ⊢
          have hword := exec_word (s := x.state.toKernelState) hlen hw
          rw [← hexecMem] at hword
          exact hword
        · intro i hi
          rw [← hsegment]
          have hchar := exec_char (s := x.state.toKernelState) hlen hi
          rw [← hexecMem] at hchar
          exact hchar
        · have hrecord := exec_record x.state paramString
          rw [hcurrent, hloaded.kept.task, htask] at hrecord
          exact hrecord
        · rcases hblocks.state with ⟨heap, rfl⟩
          exact closed_nodes heap₂ hloaded.kept.node
            ((hloaded.kept.target handle).trans htarget.1)
            ((hloaded.kept.flags handle).trans htarget.2.1)
        · intro p hp hvolume
          have hne := hblocks.others p hp
          rw [← hblocks.handle_other hne]
          rw [← hsame.rootOf] at hvolume
          exact handle_eq (hloaded.kept.flags p) (hloaded.kept.target p)
            (hloaded.others p hne hvolume)
        · exact hloaded.kept.handleTable.trans htable
        · exact ⟨hloaded.kept.fileOps.trans hops, hloaded.kept.fatRoot.trans hroot,
            hloaded.kept.fatFile.trans hfat, hloaded.blockFile.trans hblock⟩
      · have hstart : UsersStay label users := hblocks.stay.trans hstay
        exact (hstart.update hblocks.before.2 none).update hblocks.before.1 none

end Programs

/-!
# A small program
-/

theorem openFile_runnable : Runnable openFile 20 where
  nonzero := by decide
  file := rfl
  free := rfl
  volume := by
    intro b hb _ heq
    have hnat := address_toNat smallBoot_boot.heap hb
    have hstart : smallHeap.poolStart.toNat > 36 := by decide +kernel
    change (36 : Word) = smallHeap.address b at heq
    change (smallHeap.address b).toNat = smallHeap.poolStart.toNat + _ at hnat
    rw [← heq] at hnat
    change 36 = _ at hnat
    omega
  device := openFile_onDevice

theorem openFile_outside : Outside openFile.toKernelState openFile.currentTask := by
  intro off off' heq
  have hoff := off.isLt
  have hoff' := off'.isLt
  change linear 0x1050 off = linear kernelSegment off' at heq
  unfold linear kernelSegment at heq
  change (0x1050 * 16 + off.toNat) % 1048576 = (0x50 * 16 + off'.toNat) % 1048576 at heq
  omega

/-- The file of three bytes is run with the parameter {lit}`"a"`. -/
theorem execFound_starts_small :
    execFound wordCount (DeviceState.fileRead wordCount 1) 0 20 40 [0x61] openFile =
        panic .outOfMem ∨
      exists t, execFound wordCount (DeviceState.fileRead wordCount 1) 0 20 40 [0x61]
          openFile = .ok (0, t) ∧
        ProgramStarted openFile 20 [0x61] t ∧
        exists label', CacheInv t.blockFile t.toDeviceState.blockState label' ∧
          UsersStay (fun _ => none) label' := by
  have hcache : CacheInv openFile.blockFile openFile.toDeviceState.blockState
      fun _ => none :=
    ⟨⟨smallBoot_boot.heap, fun _ _ h => by cases h⟩, by decide, fun _ _ => rfl,
      fun _ h => absurd rfl h⟩
  have hroom : openFile.toDeviceState.sizeOf 20 ≤ (execSp [0x61]).toNat := by
    unfold DeviceState.sizeOf
    rw [openFile_size]
    decide
  exact execFound_starts (Nat.le_refl _) hcache openFile_runnable openFile_outside
    (by decide) (by decide) hroom

end Fs
end Rmmtos
