import Rmmtos.Char.ScreenStores
import Rmmtos.Fs.CallFrames

/-!
# What each handler leaves alone

Every call of the table but {lit}`fork` keeps to the kernel, the screen and the
program that makes it.
-/

namespace Rmmtos
namespace Fs

open Library Kernel

section Handlers

variable {s t : PathState} {task : Word}

/-!
# Strings, nodes and volumes
-/

theorem getString_kept {reg p : Word} {string : List Byte}
    (hrun : getString s task reg = .ok (p, string, t)) :
    CallKept s.toKernelState t.toKernelState := by
  rcases ok_bind_iff.mp hrun with ⟨x, _, hrun⟩
  rcases ok_bind_iff.mp hrun with ⟨⟨p₁, s₁⟩, hmalloc, hrun⟩
  refine (path_malloc_kept hmalloc).trans ?_
  dsimp only at hrun
  split at hrun
  · cases hrun
    exact CallKept.refl _
  · cases hrun
    exact kept_mem fun a ha => farmemcpy_other fun i _ => ha.kernel _

theorem createNode_files {name : List Byte} {flags p : Word} {ops : DirectoryOps}
    (hrun : s.directoryCreateNode name flags ops = .ok (p, t)) :
    CallKept s.toKernelState t.toKernelState := by
  rcases ok_bind_iff.mp hrun with ⟨⟨p₁, s₁⟩, hmalloc, hrun⟩
  refine (path_malloc_kept hmalloc).trans ?_
  dsimp only at hrun
  split at hrun
  · cases hrun
    exact kept_fs _ _
  · cases hrun
    exact CallKept.refl _

theorem path_reallocNode_kept {p q size : Word}
    (hrun : s.reallocNode p size = .ok (q, t)) :
    CallKept s.toKernelState t.toKernelState := by
  rcases ok_bind_iff.mp hrun with ⟨r, hrealloc, hr⟩
  cases hr
  exact (reallocNode_only hrealloc).kept

abbrev KeepsCalls (read : DeviceState.ReadOp) : Prop :=
  DeviceState.Keeps (fun s t => CallKept s.toKernelState t.toKernelState) read

theorem fileRead_kept_calls (turns depth : Nat) :
    KeepsCalls (DeviceState.fileRead turns depth) :=
  DeviceState.fileRead_keeps kept_frame turns depth

variable {read : DeviceState.ReadOp}

theorem path_fileRead_kept (hread : KeepsCalls read) {handle size : Word}
    {bytes : Bytes} (hrun : s.fileRead read handle size = .ok (bytes, t)) :
    CallKept s.toKernelState t.toKernelState := by
  rcases ok_bind_iff.mp hrun with ⟨r, hcall, hr⟩
  cases hr
  have hkept := hread _ _ _ _ _ _ _ hcall
  exact hkept

theorem fatReadParameters_kept (hread : KeepsCalls read) {handle : Word}
    {params : Parameters}
    (hrun : s.fatReadParameters read handle = .ok (params, t)) :
    CallKept s.toKernelState t.toKernelState := by
  rcases ok_bind_iff.mp hrun with ⟨⟨mbr, s₁⟩, hmalloc, hrun⟩
  refine (path_malloc_kept hmalloc).trans ?_
  dsimp only at hrun
  split at hrun
  · rcases ok_bind_iff.mp hrun with ⟨⟨bytes, s₂⟩, hcall, hrun⟩
    rcases ok_bind_iff.mp hrun with ⟨s₃, hfree, hrun⟩
    cases hrun
    have hmoved : CallKept s₁.toKernelState
        (s₁.toDeviceState.setPosition handle (init64 0 0 0 0)).toKernelState :=
      kept_fs _ _
    have hfilled := path_fileRead_kept hread hcall
    exact (hmoved.trans hfilled).trans (path_free_kept hfree)
  · cases hrun
    exact CallKept.refl _

theorem createFatFs_kept (hread : KeepsCalls read) {data p : Word}
    (hrun : s.createFatFs read data = .ok (p, t)) :
    CallKept s.toKernelState t.toKernelState := by
  rcases ok_bind_iff.mp hrun with ⟨⟨directory, s₁⟩, hcreate, hrun⟩
  rcases ok_bind_iff.mp hrun with ⟨⟨handle, s₂⟩, hopen, hrun⟩
  rcases ok_bind_iff.mp hrun with ⟨⟨params, s₃⟩, hmalloc, hrun⟩
  rcases ok_bind_iff.mp hrun with ⟨⟨root, s₄⟩, hrealloc, hrun⟩
  refine (((createNode_files hcreate).trans (onFs_kept hopen)).trans
    (path_malloc_kept hmalloc)).trans ((path_reallocNode_kept hrealloc).trans ?_)
  dsimp only at hrun
  split at hrun
  · rcases ok_bind_iff.mp hrun with ⟨⟨parameters, s₅⟩, hparams, hrun⟩
    rcases ok_bind_iff.mp hrun with ⟨geometry, _, hrun⟩
    rcases ok_bind_iff.mp hrun with ⟨s₆, hset, hrun⟩
    rcases ok_bind_iff.mp hrun with ⟨s₇, hfree, hr⟩
    cases hset
    cases hr
    have hfreed := path_free_kept hfree
    exact (fatReadParameters_kept hread hparams).trans hfreed
  · rcases ok_bind_iff.mp hrun with ⟨s₆, hset, hrun⟩
    rcases ok_bind_iff.mp hrun with ⟨s₇, hfree, hr⟩
    cases hset
    cases hr
    have hfreed := path_free_kept hfree
    exact hfreed

theorem createFilesystem_kept (hread : KeepsCalls read) {type : List Byte}
    {node p : Word}
    (hrun : s.vfsCreateFilesystem read type node = .ok (p, t)) :
    CallKept s.toKernelState t.toKernelState := by
  unfold PathState.vfsCreateFilesystem at hrun
  split at hrun
  · exact createFatFs_kept hread hrun
  · split at hrun
    · exact createNode_files hrun
    · split at hrun
      all_goals
        cases hrun
        exact CallKept.refl _

/-!
# Files
-/

theorem addHandle_kept {handle id : Word}
    (hrun : s.taskAddHandle task handle = .ok (id, t)) :
    CallKept s.toKernelState t.toKernelState := by
  rcases ok_bind_iff.mp hrun with ⟨r, hadd, hr⟩
  cases hr
  exact kept_addHandle hadd

theorem choice_kept {c : Prop} [Decidable c] {x : Result (α × PathState)}
    {a : α} {r : α × PathState}
    (hcall : forall r, x = .ok r -> CallKept s.toKernelState r.2.toKernelState)
    (hrun : (if c then x else .ok (a, s)) = .ok r) :
    CallKept s.toKernelState r.2.toKernelState := by
  split at hrun
  · exact hcall r hrun
  · cases hrun
    exact CallKept.refl _

theorem sysOpenFile_kept {id : Word} (hrun : s.sysOpenFile task = .ok (id, t)) :
    CallKept s.toKernelState t.toKernelState := by
  rcases ok_bind_iff.mp hrun with ⟨⟨path, string, s₁⟩, hstring, hrun⟩
  rcases choice_ok hrun with ⟨⟨node, s₂⟩, hnode, hrun⟩
  rcases choice_ok hrun with ⟨⟨handle, s₃⟩, hopen, hrun⟩
  rcases choice_ok hrun with ⟨⟨id₁, s₄⟩, hadd, hrun⟩
  rcases ok_bind_iff.mp hrun with ⟨s₅, hfree, hr⟩
  cases hr
  have h₁ := getString_kept hstring
  have h₂ := h₁.trans (choice_kept (fun _ h => getNodeForPath_kept h) hnode)
  have h₃ := h₂.trans (choice_kept (fun _ h => onFs_kept h) hopen)
  have h₄ := h₃.trans (choice_kept (fun _ h => addHandle_kept h) hadd)
  exact h₄.trans (path_free_kept hfree)

theorem sysCloseFile_kept {r : Word} (hrun : s.sysCloseFile task = .ok (r, t)) :
    CallKept s.toKernelState t.toKernelState := by
  unfold PathState.sysCloseFile at hrun
  dsimp only at hrun
  split at hrun
  · rcases ok_bind_iff.mp hrun with ⟨s₁, hclose, hr⟩
    cases hr
    have hclosed : CallKept s.toKernelState s₁.toKernelState := onFs_kept_unit hclose
    exact hclosed.trans (kept_removeHandle ..)
  · cases hrun
    exact CallKept.refl _

theorem sysSeek_kept {r : Word} (hrun : s.sysSeek task = .ok (r, t)) :
    CallKept s.toKernelState t.toKernelState := by
  unfold PathState.sysSeek at hrun
  dsimp only at hrun
  split at hrun
  · cases hrun
    exact kept_fs _ _
  · cases hrun
    exact CallKept.refl _

theorem setMemory_kept {d : DeviceState} {addr count : Word} {src : Bytes}
    (htask : (d.task task).segment = (d.task d.currentTask).segment) :
    CallKept d.toKernelState
      (DeviceState.taskSetMemory d task addr src count).toKernelState := by
  refine kept_mem fun a ha => ?_
  rw [htask]
  exact writeRun_other fun i _ => ha.program _

theorem sysReadFile_kept (hread : KeepsCalls read) {before : Bytes} {r : Word}
    (hrun : s.sysReadFile read before s.currentTask = .ok (r, t)) :
    CallKept s.toKernelState t.toKernelState := by
  unfold PathState.sysReadFile at hrun
  dsimp only at hrun
  split at hrun
  · cases hrun
    exact CallKept.refl _
  · rcases ok_bind_iff.mp hrun with ⟨⟨buffer, s₁⟩, hmalloc, hrun⟩
    have h₁ := path_malloc_kept hmalloc
    dsimp only at hrun
    split at hrun
    · cases hrun
      exact h₁
    · rcases ok_bind_iff.mp hrun with ⟨⟨size, bytes, d⟩, hcall, hrun⟩
      rcases ok_bind_iff.mp hrun with ⟨s₂, hfree, hr⟩
      cases hr
      have h₂ := h₁.trans (hread _ _ _ _ _ _ _ hcall)
      have hfreed := path_free_kept hfree
      refine (h₂.trans (setMemory_kept ?_)).trans hfreed
      rw [h₂.currentTask]

theorem screenWrite_other {sc : Screen} {buffer size : Word} {a : Nat}
    (ha : forall off, a ≠ linear screenSegment off) :
    (screenWrite sc buffer size).2.mem a = sc.mem a := by
  unfold screenWrite
  rw [screenTurns_stores]
  refine storeAll_other fun st hst => ?_
  rcases List.mem_map.mp hst with ⟨v, _, rfl⟩
  exact ha v.1

theorem fileWrite_kept {console console' : PathState.Console}
    {handle buffer size r : Word}
    (hrun : s.fileWrite console handle buffer size = .ok (r, console', t)) :
    CallKept s.toKernelState t.toKernelState := by
  unfold PathState.fileWrite at hrun
  dsimp only at hrun
  split at hrun
  · cases hrun
  · split at hrun
    · cases hrun
    · split at hrun
      · cases hrun
        exact kept_mem fun a ha => screenWrite_other ha.screen
      all_goals
        cases hrun
        exact CallKept.refl _

theorem sysWriteFile_kept {console console' : PathState.Console} {r : Word}
    (hrun : s.sysWriteFile task console = .ok (r, console', t)) :
    CallKept s.toKernelState t.toKernelState := by
  unfold PathState.sysWriteFile at hrun
  dsimp only at hrun
  split at hrun
  · cases hrun
    exact CallKept.refl _
  · rcases ok_bind_iff.mp hrun with ⟨⟨buffer, s₁⟩, hmalloc, hrun⟩
    have h₁ := path_malloc_kept hmalloc
    dsimp only at hrun
    split at hrun
    · cases hrun
      exact h₁
    · rcases ok_bind_iff.mp hrun with ⟨⟨size, console₁, s₂⟩, hwrite, hrun⟩
      rcases ok_bind_iff.mp hrun with ⟨s₃, hfree, hr⟩
      cases hr
      refine (h₁.trans ?_).trans (path_free_kept hfree)
      have hwritten := fileWrite_kept hwrite
      refine CallKept.trans (kept_mem fun a ha => ?_) hwritten
      exact farmemcpy_other fun i _ => ha.kernel _

theorem sysMount_kept (hread : KeepsCalls read) {r : Word}
    (hrun : s.sysMount read task = .ok (r, t)) :
    CallKept s.toKernelState t.toKernelState := by
  rcases ok_bind_iff.mp hrun with ⟨⟨_, destination, s₁⟩, hstring₁, hrun⟩
  rcases ok_bind_iff.mp hrun with ⟨⟨_, type, s₂⟩, hstring₂, hrun⟩
  rcases ok_bind_iff.mp hrun with ⟨⟨_, source, s₃⟩, hstring₃, hrun⟩
  rcases ok_bind_iff.mp hrun with ⟨⟨node₁, s₄⟩, hnode₁, hrun⟩
  rcases ok_bind_iff.mp hrun with ⟨⟨node₂, s₅⟩, hnode₂, hrun⟩
  rcases ok_bind_iff.mp hrun with ⟨⟨root, s₆⟩, hcreate, hrun⟩
  rcases ok_bind_iff.mp hrun with ⟨s₇, hredirect, hr⟩
  cases hr
  have hstrings := ((getString_kept hstring₁).trans (getString_kept hstring₂)).trans
    (getString_kept hstring₃)
  have hnodes := (getNodeForPath_kept hnode₁).trans (getNodeForPath_kept hnode₂)
  exact ((hstrings.trans hnodes).trans (createFilesystem_kept hread hcreate)).trans
    (onFs_kept_unit hredirect)

theorem tree_kept (turns depth : Nat) {node : Word} {s t : PathState}
    (hrun : PathState.tree turns depth node s = .ok t) :
    CallKept s.toKernelState t.toKernelState := by
  induction depth generalizing node s t with
  | zero => cases hrun
  | succ depth ih =>
      unfold PathState.tree at hrun
      split at hrun
      · rcases ok_bind_iff.mp hrun with ⟨⟨handle, s₁⟩, hopen, hrun⟩
        rcases ok_bind_iff.mp hrun with ⟨⟨child, s₂⟩, hfirst, hrun⟩
        rcases ok_bind_iff.mp hrun with ⟨x, hloop, hfree⟩
        have hstart : CallKept s.toKernelState s₂.toKernelState :=
          CallKept.trans (onFs_kept hopen) (path_getNextNode_kept hfirst)
        have hlisted : CallKept s.toKernelState x.2.toKernelState := by
          refine (whileLoop_invariant (I := fun x : Word × PathState =>
            CallKept s.toKernelState x.2.toKernelState) ?_ hloop hstart).1
          intro x y hx _ hturn
          rcases ok_bind_iff.mp hturn with ⟨s₃, htree, hnext⟩
          exact (hx.trans (ih htree)).trans (path_getNextNode_kept hnext)
        exact hlisted.trans (path_free_kept hfree)
      · cases hrun
        exact CallKept.refl _

theorem sysUnmount_kept {turns depth : Nat} {r : Word}
    (hrun : s.sysUnmount turns depth = .ok (r, t)) :
    CallKept s.toKernelState t.toKernelState := by
  rcases ok_bind_iff.mp hrun with ⟨s₁, htree, hr⟩
  cases hr
  exact tree_kept turns depth htree

/-!
# Programs
-/

theorem loadTurn_kept (hread : KeepsCalls read) {handle : Word}
    {x y : PathState.ProgramLoad} (htask : task = x.state.currentTask)
    (hrun : PathState.loadTurn read task handle x = .ok y) :
    CallKept x.state.toKernelState y.state.toKernelState := by
  rcases ok_bind_iff.mp hrun with ⟨⟨word, bytes, d⟩, hcall, hy⟩
  cases hy
  have hcalled := hread _ _ _ _ _ _ _ hcall
  refine hcalled.trans (setMemory_kept ?_)
  rw [htask, hcalled.currentTask]

theorem loadProgram_kept (hread : KeepsCalls read) {turns : Nat} {handle : Word}
    (htask : task = s.currentTask)
    (hrun : PathState.loadProgram turns read task handle s = .ok t) :
    CallKept s.toKernelState t.toKernelState := by
  rcases ok_bind_iff.mp hrun with ⟨x, hturn, hrun⟩
  rcases ok_bind_iff.mp hrun with ⟨y, hloop, hr⟩
  cases hr
  have hfirst := loadTurn_kept hread htask hturn
  refine (whileLoop_invariant (I := fun x : PathState.ProgramLoad =>
    CallKept s.toKernelState x.state.toKernelState) ?_ hloop hfirst).1
  intro x y hx _ hturn
  exact hx.trans (loadTurn_kept hread (htask.trans hx.currentTask.symm) hturn)

theorem exec_task (s : PathState) (param : List Byte) : exists userSp,
    (s.exec param).task = Function.update s.task s.currentTask
      { s.task s.currentTask with userSp := userSp } :=
  ⟨_, rfl⟩

theorem exec_mem {s : PathState} {a : Nat} (param : List Byte)
    (ha : forall off, a ≠ linear (s.task s.currentTask).segment off) :
    (s.exec param).mem a = s.mem a := by
  change (s.toKernelState.exec param).mem a = s.mem a
  rw [Kernel.exec_mem]
  refine storeAll_other ?_
  intro w hw
  rcases List.mem_map.mp hw with ⟨w', _, rfl⟩
  exact ha _

theorem exec_kept (s : PathState) (param : List Byte) :
    CallKept s.toKernelState (s.exec param).toKernelState := by
  rcases exec_task s param with ⟨userSp, htask⟩
  have hset := kept_setTask (k := s.toKernelState) (p := s.currentTask)
    (t := { s.task s.currentTask with userSp := userSp }) rfl Iff.rfl
    fun hne => absurd rfl hne
  have hrecord : forall q, (s.exec param).task q =
      (s.toKernelState.setTask s.currentTask
        { s.task s.currentTask with userSp := userSp }).task q :=
    fun q => congrFun htask q
  refine ⟨rfl, rfl, rfl, fun q => ?_, fun q => ?_, fun q hq => ?_, fun a ha => ?_⟩
  · rw [hrecord, hset.segment]
  · unfold KernelState.Live
    rw [hrecord]
    exact hset.live q
  · rw [hrecord, hset.userSp q hq]
  · exact exec_mem param ha.program

def execNode (path : Word) (string : List Byte) (s : PathState) :
    Result (Word × PathState) :=
  if path ≠ 0 then
    vfsGetNodeForPath s string >>= fun r =>
      r.2.free path >>= fun s => .ok (r.1, s)
  else .ok (0, s)

def execOpen (node : Word) (s : PathState) : Result (Word × Word × PathState) :=
  if node ≠ 0 then
    s.fileOpen node handleRead >>= fun r =>
      r.2.malloc 512 >>= fun q => .ok (r.1, q.1, q.2)
  else .ok (0, 0, s)

theorem sysExec_eq (turns : Nat) (read : DeviceState.ReadOp) (task : Word)
    (s : PathState) : PathState.sysExec turns read task s =
      getString s task regBX >>= fun a =>
      getString a.2.2 task DeviceState.regCX >>= fun b =>
      execNode a.1 a.2.1 b.2.2 >>= fun c =>
      execOpen c.1 c.2 >>= fun d =>
      (if d.1 ≠ 0 ∧ d.2.1 ≠ 0 ∧ b.1 ≠ 0 then
        PathState.loadProgram turns read task d.1 d.2.2 >>= fun s =>
          .ok (s.exec b.2.1)
      else .ok d.2.2) >>= fun s =>
      (if d.2.1 ≠ 0 then s.free d.2.1 else .ok s) >>= fun s =>
      (if d.1 ≠ 0 then s.fileClose d.1 else .ok s) >>= fun s =>
      .ok (0, s) := by
  unfold PathState.sysExec execNode execOpen
  simp only [choice_bind, bind_assoc]

theorem execNode_kept {path node : Word} {string : List Byte}
    (hrun : execNode path string s = .ok (node, t)) :
    CallKept s.toKernelState t.toKernelState := by
  unfold execNode at hrun
  split at hrun
  · rcases ok_bind_iff.mp hrun with ⟨⟨node₁, s₁⟩, hnode, hrun⟩
    rcases ok_bind_iff.mp hrun with ⟨s₂, hfree, hr⟩
    cases hr
    exact (getNodeForPath_kept hnode).trans (path_free_kept hfree)
  · cases hrun
    exact CallKept.refl _

theorem execOpen_kept {node handle buffer : Word}
    (hrun : execOpen node s = .ok (handle, buffer, t)) :
    CallKept s.toKernelState t.toKernelState := by
  unfold execOpen at hrun
  split at hrun
  · rcases ok_bind_iff.mp hrun with ⟨⟨handle₁, s₁⟩, hopen, hrun⟩
    rcases ok_bind_iff.mp hrun with ⟨⟨buffer₁, s₂⟩, hmalloc, hr⟩
    cases hr
    exact CallKept.trans (onFs_kept hopen) (path_malloc_kept hmalloc)
  · cases hrun
    exact CallKept.refl _

theorem sysExec_kept (hread : KeepsCalls read) {turns : Nat} {r : Word}
    (htask : task = s.currentTask)
    (hrun : PathState.sysExec turns read task s = .ok (r, t)) :
    CallKept s.toKernelState t.toKernelState := by
  rw [sysExec_eq] at hrun
  rcases ok_bind_iff.mp hrun with ⟨⟨path, string, s₁⟩, hstring, hrun⟩
  rcases ok_bind_iff.mp hrun with ⟨⟨param, paramString, s₂⟩, hparam, hrun⟩
  rcases ok_bind_iff.mp hrun with ⟨⟨node, s₃⟩, hnode, hrun⟩
  rcases ok_bind_iff.mp hrun with ⟨⟨handle, buffer, s₄⟩, hopen, hrun⟩
  rcases ok_bind_iff.mp hrun with ⟨s₅, hload, hrun⟩
  rcases ok_bind_iff.mp hrun with ⟨s₆, hbuffer, hrun⟩
  rcases ok_bind_iff.mp hrun with ⟨s₇, hclose, hr⟩
  cases hr
  have h₂ := (getString_kept hstring).trans (getString_kept hparam)
  have h₄ := (h₂.trans (execNode_kept hnode)).trans (execOpen_kept hopen)
  have h₅ : CallKept s.toKernelState s₅.toKernelState := by
    split at hload
    · rcases ok_bind_iff.mp hload with ⟨s', hprogram, hexec⟩
      cases hexec
      have hloaded := loadProgram_kept hread (htask.trans h₄.currentTask.symm) hprogram
      exact (h₄.trans hloaded).trans (exec_kept s' paramString)
    · cases hload
      exact h₄
  have h₆ : CallKept s.toKernelState s₆.toKernelState := by
    split at hbuffer
    · exact h₅.trans (path_free_kept hbuffer)
    · cases hbuffer
      exact h₅
  split at hclose
  · exact h₆.trans (onFs_kept_unit hclose)
  · cases hclose
    exact h₆

end Handlers

end Fs
end Rmmtos
