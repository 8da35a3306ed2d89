import Rmmtos.Kernel.HeapRuns
import Rmmtos.Kernel.OwnershipSteps

/-!
# The running system

The steps of the kernel, taken in any order: what the running task asks for,
the interrupts, and the scheduler's choice of another task.  Every step keeps
the heap blocks of the kernel apart and the table of segments true.
-/

namespace Rmmtos
namespace Kernel

open Library Fs

/-- The current task executes instructions. -/
def Running (s : KernelState) : Prop :=
  (s.task s.currentTask).state = .running ∨
    (s.task s.currentTask).state = .wakenBeforeSleep

theorem Running.live {s : KernelState} (h : Running s) :
    s.Live s.currentTask :=
  live_of_awake h

/-- The memory outside a segment is the same. -/
def OnlySegment (m m' : Mem) (segment : Word) : Prop :=
  forall x, (forall off, x ≠ linear segment off) -> m' x = m x

/-- The program of the current task has changed its memory and its stack. -/
def userStep (s : KernelState) (m : Mem) (userSp : Word) : KernelState :=
  ({ s with mem := m } : KernelState).setTask s.currentTask
    { s.task s.currentTask with userSp := userSp }

inductive KernelStep : KernelState -> KernelState -> Prop where
  | user {s : KernelState} {m : Mem} {userSp : Word} : Running s ->
      OnlySegment s.mem m (s.task s.currentTask).segment ->
      KernelStep s (userStep s m userSp)
  | fork {s s' : KernelState} {segment : Word} : Running s ->
      fork s = .ok (segment, s') -> KernelStep s s'
  | exit {s s' : KernelState} : Running s ->
      taskExit s s.currentTask = .ok s' -> KernelStep s s'
  | sleep {s s' : KernelState} : Running s ->
      taskSleep s s.currentTask = .ok s' -> KernelStep s s'
  | setWakeup {s s' : KernelState} {ms : Word} : Running s ->
      s.setWakeup s.currentTask ms = .ok s' -> KernelStep s s'
  | irqSetWakeup {s s' : KernelState} {irq : Nat} : Running s ->
      irqSetWakeup s s.currentTask irq = .ok s' -> KernelStep s s'
  | waitFor {s : KernelState} {target : Word} : Running s ->
      target = 0 ∨ target ∈ s.taskList ->
      KernelStep s (setWaiting s target s.currentTask)
  | openNode {s s' : KernelState} {node mode : Word} : Running s ->
      openNode s s.currentTask node mode = .ok s' -> KernelStep s s'
  | tick {s s' : KernelState} : s.clockTick = .ok s' -> KernelStep s s'
  | irq {s s' : KernelState} {irq : Nat} :
      irqResumeWaitingTasks s irq = .ok s' -> KernelStep s s'
  | schedule {s s' : KernelState} : taskSchedule s = .ok s' -> KernelStep s s'
  | dispatch {s : KernelState} {p : Word} : p ∈ s.taskList -> s.Live p ->
      KernelStep s { s with currentTask := p }

def Started (s : KernelState) : Prop :=
  exists boot, Boot boot ∧ taskInit boot = .ok s

/-!
# The scheduler's choice
-/

theorem nextTask_mem {s : KernelState} {x : Search} (hne : s.taskList ≠ [])
    (hrest : forall p, p ∈ x.rest -> p ∈ s.taskList) :
    x.rest.headD (s.taskList.headD 0) ∈ s.taskList := by
  cases hx : x.rest with
  | nil =>
      cases hlist : s.taskList with
      | nil => exact absurd hlist hne
      | cons q rest => exact List.mem_cons_self
  | cons q rest =>
      rw [hx] at hrest
      exact hrest q List.mem_cons_self

theorem searchTurn_tasks {s : KernelState} {x : Search}
    (hne : s.taskList ≠ []) (hrest : forall p, p ∈ x.rest -> p ∈ s.taskList) :
    (forall p, p ∈ (searchTurn s x).rest -> p ∈ s.taskList) ∧
      forall p, (searchTurn s x).found = some (.switchTo p) ->
        p ∈ s.taskList := by
  have hhead := nextTask_mem hne hrest
  constructor
  · intro p hp
    unfold searchTurn at hp
    dsimp only at hp
    split at hp
    · exact List.mem_of_mem_tail hp
    · exact hrest p (List.mem_of_mem_tail hp)
  · intro p hp
    simp only [searchTurn] at hp
    by_cases hstate :
        (s.task (x.rest.headD (s.taskList.headD 0))).state = .running
    · rw [if_pos hstate] at hp
      cases hp
      exact hhead
    · rw [if_neg hstate] at hp
      split_ifs at hp <;> cases hp

theorem searchTask_mem {s : KernelState} {x : Search} {p : Word}
    (hne : s.taskList ≠ []) (hrun : searchTask s = .ok x)
    (hfound : x.found = some (.switchTo p)) : p ∈ s.taskList := by
  unfold searchTask at hrun
  have hbehind : forall q, q ∈ tasksBehind s s.currentTask -> q ∈ s.taskList := by
    intro q hq
    exact List.dropWhile_subset _ (List.mem_of_mem_tail hq)
  have hend := whileLoop_invariant
    (I := fun x => (forall q, q ∈ x.rest -> q ∈ s.taskList) ∧
      forall q, x.found = some (.switchTo q) -> q ∈ s.taskList) ?_ hrun
    (searchTurn_tasks hne hbehind)
  · exact hend.1.2 p hfound
  · intro x x' hx _ hturn
    cases hturn
    exact searchTurn_tasks hne hx.1

theorem taskSchedule_current {s s' : KernelState}
    (hcurrent : s.currentTask ∈ s.taskList) (h : taskSchedule s = .ok s') :
    s'.currentTask ∈ s.taskList := by
  rcases taskSchedule_found h with rfl | ⟨x, p, hsearch, hfound, rfl⟩
  · exact hcurrent
  · exact searchTask_mem (List.ne_nil_of_mem hcurrent) hsearch hfound

/-!
# What every step keeps
-/

/-- The heap blocks have their owners, and the current task is in the list. -/
structure SystemInv (s : KernelState) : Prop where
  owned : exists label, KernelOwned s label
  current : s.currentTask ∈ s.taskList

section Steps

variable {s s' : KernelState}

theorem SystemInv.same (hs : SystemInv s) (h : SameBlocks s s')
    (hcurrent : s'.currentTask ∈ s.taskList) : SystemInv s' := by
  rcases hs.owned with ⟨label, howned⟩
  refine ⟨⟨label, howned.same h⟩, ?_⟩
  rw [h.taskList]
  exact hcurrent

theorem SystemInv.schedule (hs : SystemInv s) (h : taskSchedule s = .ok s') :
    SystemInv s' :=
  hs.same (taskSchedule_same h) (taskSchedule_current hs.current h)

theorem setTask_sameBlocks (p : Word) {t : Task}
    (hstate : t.state = (s.task p).state) (hstack : t.stack = (s.task p).stack)
    (hhandles : t.handles = (s.task p).handles)
    (hcount : t.handleCount = (s.task p).handleCount) :
    SameBlocks s (s.setTask p t) := by
  have hcase : forall q, ((s.setTask p t).task q).state = (s.task q).state ∧
      ((s.setTask p t).task q).stack = (s.task q).stack ∧
      ((s.setTask p t).task q).handles = (s.task q).handles ∧
      ((s.setTask p t).task q).handleCount = (s.task q).handleCount := by
    intro q
    by_cases hq : q = p
    · rw [hq, setTask_self]
      exact ⟨hstate, hstack, hhandles, hcount⟩
    · rw [setTask_other _ _ _ hq]
      exact ⟨rfl, rfl, rfl, rfl⟩
  refine ⟨rfl, rfl, ?_, fun q => (hcase q).2.1, fun q => (hcase q).2.2.1,
    fun q => (hcase q).2.2.2, rfl, rfl, rfl⟩
  intro q hq
  unfold KernelState.Live at hq ⊢
  rw [(hcase q).1] at hq
  exact hq

theorem setWaiting_sameBlocks (target task : Word) :
    SameBlocks s (setWaiting s target task) := by
  unfold setWaiting
  split
  · exact setTask_sameBlocks target rfl rfl rfl rfl
  · exact SameBlocks.refl s

theorem userStep_sameBlocks (m : Mem) (userSp : Word) :
    SameBlocks s (userStep s m userSp) := by
  have hmem : SameBlocks s { s with mem := m } :=
    ⟨rfl, rfl, fun _ h => h, fun _ => rfl, fun _ => rfl, fun _ => rfl, rfl, rfl,
      rfl⟩
  exact hmem.trans (setTask_sameBlocks s.currentTask rfl rfl rfl rfl)

theorem setWakeup_view {task ms : Word} (hrun : s.setWakeup task ms = .ok s') :
    s'.task = s.task ∧ s'.taskList = s.taskList ∧
      s'.currentTask = s.currentTask ∧ s'.segmentBitmap = s.segmentBitmap ∧
      s'.irqEvents = s.irqEvents := by
  rcases setWakeup_eq hrun with ⟨p, s₁, queue, hmalloc, _, rfl⟩
  have hsame := kernel_malloc_sameTasks hmalloc
  exact ⟨hsame.task, hsame.taskList, hsame.currentTask, hsame.segmentBitmap,
    hsame.irqEvents⟩

theorem irqSetWakeup_view {task : Word} {irq : Nat}
    (hrun : irqSetWakeup s task irq = .ok s') :
    s'.task = s.task ∧ s'.taskList = s.taskList ∧
      s'.currentTask = s.currentTask ∧ s'.segmentBitmap = s.segmentBitmap ∧
      s'.clock = s.clock := by
  rcases irqSetWakeup_eq hrun with ⟨p, s₁, hmalloc, _, rfl⟩
  have hsame := kernel_malloc_sameTasks hmalloc
  exact ⟨hsame.task, hsame.taskList, hsame.currentTask, hsame.segmentBitmap,
    hsame.clock⟩

structure OnlyStates (s s' : KernelState) : Prop where
  taskList : s'.taskList = s.taskList
  currentTask : s'.currentTask = s.currentTask
  segmentBitmap : s'.segmentBitmap = s.segmentBitmap
  live : forall p, s'.Live p <-> s.Live p
  segment : forall p, (s'.task p).segment = (s.task p).segment
  waiting : forall p,
    (s'.task p).taskWaitingForExit = (s.task p).taskWaitingForExit

theorem OnlyStates.refl (s : KernelState) : OnlyStates s s :=
  ⟨rfl, rfl, rfl, fun _ => Iff.rfl, fun _ => rfl, fun _ => rfl⟩

theorem OnlyStates.trans {t : KernelState} (hst : OnlyStates s t)
    (htu : OnlyStates t s') : OnlyStates s s' :=
  ⟨htu.taskList.trans hst.taskList, htu.currentTask.trans hst.currentTask,
    htu.segmentBitmap.trans hst.segmentBitmap,
    fun p => (htu.live p).trans (hst.live p),
    fun p => (htu.segment p).trans (hst.segment p),
    fun p => (htu.waiting p).trans (hst.waiting p)⟩

theorem SameTasks.onlyStates (h : SameTasks s s') : OnlyStates s s' := by
  refine ⟨h.taskList, h.currentTask, h.segmentBitmap, ?_, ?_, ?_⟩ <;> intro p
  · unfold KernelState.Live
    rw [h.task]
  · rw [h.task]
  · rw [h.task]

theorem setState_onlyStates {p : Word} {st : TaskState} (hlive : s.Live p)
    (hst : st ≠ .exited) : OnlyStates s (s.setState p st) := by
  have hcase : forall q, ((s.setState p st).Live q <-> s.Live q) ∧
      ((s.setState p st).task q).segment = (s.task q).segment ∧
      ((s.setState p st).task q).taskWaitingForExit =
        (s.task q).taskWaitingForExit := by
    intro q
    unfold KernelState.setState
    by_cases hq : q = p
    · subst hq
      unfold KernelState.Live at hlive ⊢
      rw [setTask_self]
      exact ⟨iff_of_true hst hlive, rfl, rfl⟩
    · unfold KernelState.Live
      rw [setTask_other _ _ _ hq]
      exact ⟨Iff.rfl, rfl, rfl⟩
  exact ⟨rfl, rfl, rfl, fun q => (hcase q).1, fun q => (hcase q).2.1,
    fun q => (hcase q).2.2⟩

theorem taskWakeup_onlyStates {p : Word} (h : taskWakeup p s = .ok s') :
    OnlyStates s s' := by
  rcases taskWakeup_eq h with ⟨hlive, st, hst, rfl⟩
  exact setState_onlyStates hlive hst

theorem wakeWaiting_onlyStates {p : Word} (h : wakeWaiting s p = .ok s') :
    OnlyStates s s' := by
  unfold wakeWaiting at h
  split at h
  · exact taskWakeup_onlyStates h
  · cases h
    exact OnlyStates.refl _

theorem clockTick_onlyStates (hrun : s.clockTick = .ok s') :
    OnlyStates s s' := by
  rcases ok_bind_iff.mp hrun with ⟨r, htick, hr⟩
  rcases ok_bind_iff.mp htick with ⟨⟨queue, s₁⟩, hwake, htick⟩
  cases htick
  cases hr
  have hend : OnlyStates s s₁ := wakeDue_invariant (c := kernelCalls)
    (I := fun _ t => OnlyStates s t) ?_ (fun _ _ _ _ h => h) hwake
    (OnlyStates.refl s)
  · exact hend.trans ⟨rfl, rfl, rfl, fun _ => Iff.rfl, fun _ => rfl, fun _ => rfl⟩
  · intro a rest t t₁ t₂ ht hwake hfree
    exact (ht.trans (taskWakeup_onlyStates hwake)).trans
      (kernel_free_sameTasks hfree).onlyStates

theorem irqResume_onlyStates {irq : Nat}
    (hrun : irqResumeWaitingTasks s irq = .ok s') : OnlyStates s s' := by
  rcases ok_bind_iff.mp hrun with ⟨s₁, hresume, hr⟩
  cases hr
  have hend : OnlyStates s s₁ := resumeTasks_invariant
    (I := fun _ t => OnlyStates s t) ?_ hresume (OnlyStates.refl s)
  · exact hend.trans ⟨rfl, rfl, rfl, fun _ => Iff.rfl, fun _ => rfl, fun _ => rfl⟩
  · intro a rest t t₁ t₂ ht hwake hfree
    exact (ht.trans (taskWakeup_onlyStates hwake)).trans
      (kernel_free_sameTasks hfree).onlyStates

theorem taskSleep_eq {p : Word} (hlive : s.Live p)
    (hrun : taskSleep s p = .ok s') :
    exists st, st ≠ .exited ∧ taskSchedule (s.setState p st) = .ok s' := by
  unfold taskSleep at hrun
  unfold KernelState.Live at hlive
  cases hstate : (s.task p).state with
  | running =>
      rw [hstate] at hrun
      exact ⟨.sleeping, by decide, hrun⟩
  | wakenBeforeSleep =>
      rw [hstate] at hrun
      exact ⟨.running, by decide, hrun⟩
  | sleeping =>
      rw [hstate] at hrun
      cases hrun
  | exited => exact absurd hstate hlive

theorem forkTask_state (parent : Task) (segment stack : Word) :
    (forkTask parent segment stack).state = parent.state := by
  unfold forkTask
  rfl

theorem forkTask_segment (parent : Task) (segment stack : Word) :
    (forkTask parent segment stack).segment = segment := by
  unfold forkTask
  rfl

theorem SystemInv.step (hs : SystemInv s) (hstep : KernelStep s s') :
    SystemInv s' := by
  rcases hs.owned with ⟨label, howned⟩
  cases hstep with
  | user _ _ => exact hs.same (userStep_sameBlocks _ _) hs.current
  | fork _ hrun =>
      refine ⟨howned.fork hrun, ?_⟩
      rcases fork_eq hrun with ⟨p, stack, s₁, s₂, htask, hstack, _, _, _, rfl⟩
      have hcurrent := ((kernel_malloc_sameTasks htask).trans
        (kernel_malloc_sameTasks hstack)).currentTask
      refine List.mem_cons_of_mem p ?_
      exact hcurrent ▸ hs.current
  | exit hrunning hrun =>
      rcases howned.taskExit hs.current hrunning.live hrun with
        ⟨s₁, s₂, hsame, howned₁, hwake, hschedule⟩
      have hs₁ : SystemInv s₁ := by
        refine ⟨howned₁, ?_⟩
        rw [hsame.currentTask, hsame.taskList]
        exact hs.current
      have hwaken := wakeWaiting_onlyStates hwake
      have hs₂ : SystemInv s₂ := by
        refine hs₁.same ?_ (hwaken.currentTask ▸ hs₁.current)
        unfold wakeWaiting at hwake
        split at hwake
        · exact taskWakeup_same hwake
        · cases hwake
          exact SameBlocks.refl _
      exact hs₂.schedule hschedule
  | sleep hrunning hrun =>
      rcases taskSleep_eq hrunning.live hrun with ⟨st, _, hschedule⟩
      have hs₁ : SystemInv (s.setState s.currentTask st) :=
        hs.same (sameBlocks_setState hrunning.live) hs.current
      exact hs₁.schedule hschedule
  | setWakeup _ hrun =>
      rcases setWakeup_view hrun with ⟨_, hlist, hcurrent, _⟩
      refine ⟨howned.setWakeup hrun, ?_⟩
      rw [hcurrent, hlist]
      exact hs.current
  | irqSetWakeup _ hrun =>
      rcases irqSetWakeup_view hrun with ⟨_, hlist, hcurrent, _⟩
      refine ⟨howned.irqSetWakeup hrun, ?_⟩
      rw [hcurrent, hlist]
      exact hs.current
  | waitFor _ _ =>
      refine hs.same (setWaiting_sameBlocks _ _) ?_
      unfold setWaiting
      split <;> exact hs.current
  | openNode hrunning hrun =>
      rcases howned.openNode hs.current hrunning.live hrun with ⟨hnext, hview⟩
      refine ⟨hnext, ?_⟩
      rw [hview.currentTask, hview.taskList]
      exact hs.current
  | tick hrun =>
      have hview := clockTick_onlyStates hrun
      refine ⟨howned.clockTick hrun, ?_⟩
      rw [hview.currentTask, hview.taskList]
      exact hs.current
  | irq hrun =>
      have hview := irqResume_onlyStates hrun
      refine ⟨howned.irqResume hrun, ?_⟩
      rw [hview.currentTask, hview.taskList]
      exact hs.current
  | schedule hrun => exact hs.schedule hrun
  | @dispatch p hp hlive =>
      refine hs.same ?_ hp
      exact ⟨rfl, rfl, fun _ h => h, fun _ => rfl, fun _ => rfl, fun _ => rfl,
        rfl, rfl, rfl⟩

theorem Started.inv (hs : Started s) : SystemInv s := by
  rcases hs with ⟨boot, hboot, hrun⟩
  refine ⟨taskInit_owned hboot hrun, ?_⟩
  rcases taskInit_eq hboot hrun with ⟨p, stack, s₁, s₂, _, _, _, rfl⟩
  exact List.mem_cons_self

end Steps

/-!
# A small system

A kernel with a heap from {lit}`9000` to {lit}`f000` and nothing else yet.
-/

def smallHeap : Heap :=
  (mallocInit Heap.boot 0x9000 0xf000).toOption.getD Heap.boot

def smallBoot : KernelState where
  fs := {
    heap := smallHeap
    node := fun _ => ⟨[], 0, 0, 0, 0, 0, .none, 0, 0⟩
    handle := fun _ => ⟨0, 0, init64 0 0 0 0⟩ }
  mem := fun _ => 0
  task := fun _ => ⟨0, 0, 0, .running, 0, 0, 0, 0, 0⟩
  taskList := []
  currentTask := 0
  segmentBitmap := 0
  clock := Clock.boot
  irqEvents := fun _ => []
  handleTable := fun _ _ => 0
  kernelExit := 0x0100

theorem smallBoot_boot : Boot smallBoot := by
  have hhigh : (0xf000 : Word) ≤ 0xf000 := Nat.le_refl _
  have hle : (0x9000 : Word) ≤ 0xf000 := by decide
  rcases mallocInit_spec hle hhigh (by decide) with
    ⟨k, m, hrun, hfits, hfew⟩
  have hheap : smallHeap = initHeap 0x9000 k m := by
    unfold smallHeap
    rw [hrun]
    rfl
  refine ⟨?_, by decide, rfl, rfl, rfl, fun _ => rfl⟩
  change HeapInv smallHeap
  rw [hheap]
  exact initHeap_inv hfits hhigh hfew

def smallStart : KernelState :=
  (taskInit smallBoot).toOption.getD smallBoot

theorem smallStart_started : Started smallStart := by
  refine ⟨smallBoot, smallBoot_boot, ?_⟩
  rfl

def smallFork : KernelState :=
  ((fork smallStart).toOption.map Prod.snd).getD smallStart

theorem smallFork_eq : fork smallStart = .ok (0x2050, smallFork) := rfl

theorem smallFork_running : Running smallFork :=
  Or.inl rfl

def fileBoot : KernelState :=
  { smallBoot with fs := { smallBoot.fs with
      node := fun _ => ⟨[], fileFlag, 0, 0, 0, 0, .none, 0, 0⟩ } }

def fileStart : KernelState :=
  (taskInit fileBoot).toOption.getD fileBoot

theorem fileStart_started : Started fileStart :=
  ⟨fileBoot, ⟨smallBoot_boot.heap, smallBoot_boot.pool_pos, rfl, rfl, rfl,
    fun _ => rfl⟩, rfl⟩

def openStart : KernelState :=
  (openNode fileStart 0x9000 1 handleRead).toOption.getD fileStart

theorem openStart_run : openNode fileStart 0x9000 1 handleRead = .ok openStart := rfl

end Kernel
end Rmmtos
