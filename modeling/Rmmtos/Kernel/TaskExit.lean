import Rmmtos.Kernel.TaskRuns
import Mathlib.Data.Nat.Count

/-!
# The end of a task

{lit}`task_exit` frees the handle table without a look whether there is one, and it
closes as many handles as the table's length says.  So it gives everything back when
the task has a table whose length has not been wrapped, and when the task that waits
can be woken.
-/

namespace Rmmtos
namespace Kernel

open Library Fs

/-!
# What a task holds
-/

/-- {lit}`task_exit` up to its call of the scheduler. -/
def exitToSchedule (s : KernelState) (p : Word) : Result KernelState :=
  releaseTask s p >>= fun s => wakeWaiting s p

inductive Holds (s : KernelState) (p : Word) : Word -> Prop where
  | handle {i : Nat} : s.entry p i ≠ 0 -> Holds s p (s.entry p i)
  | table : Holds s p (s.task p).handles
  | stack : Holds s p (s.task p).stack

noncomputable def tableCount (s : KernelState) (p node access : Word) : Nat :=
  Set.ncard {i | entryOn s p node access i = true}

def TaskState.woken : TaskState -> TaskState
  | .sleeping => .running
  | _ => .wakenBeforeSleep

def exitTasks (s : KernelState) (p q : Word) : Task :=
  if q = p then exitedTask (s.task p)
  else if (s.task p).taskWaitingForExit ≠ 0 ∧ q = (s.task p).taskWaitingForExit then
    { s.task q with state := (s.task q).state.woken }
  else s.task q

/-- The task has given back what it held, its waiter has been woken once, and
nothing else has changed. -/
structure ExitReleases (s s' : KernelState) (p : Word) : Prop where
  tasks : forall q, s'.task q = exitTasks s p q
  segment : s'.segmentBitmap = freeSegment s.segmentBitmap (s.task p).segment
  cleared : forall i, s'.entry p i = 0
  readers : forall node, (s'.fs.node node).readers =
    (s.fs.node node).readers - BitVec.ofNat 16 (tableCount s p node handleRead)
  writers : forall node, (s'.fs.node node).writers =
    (s.fs.node node).writers - BitVec.ofNat 16 (tableCount s p node handleWrite)
  blocks : forall b, s'.fs.heap.taken b = true <->
    s.fs.heap.taken b = true ∧ ¬ Holds s p (s.fs.heap.address b)
  tables : forall q, q ∈ s.taskList -> s.Live q -> q ≠ p -> forall i,
    s'.entry q i = s.entry q i
  handle : s'.fs.handle = s.fs.handle
  mem : s'.mem = s.mem
  taskList : s'.taskList = s.taskList
  currentTask : s'.currentTask = s.currentTask
  clock : s'.clock = s.clock
  irqEvents : s'.irqEvents = s.irqEvents

/-- The task has not exited, it has a table as long as its length says, and the task
that waits for its end is another one that is to be woken. -/
structure ExitMet (s : KernelState) (p : Word) : Prop where
  live : s.Live p
  table : (s.task p).handles ≠ 0
  length : forall i, (s.task p).handleCount.toNat ≤ i -> s.entry p i = 0
  waiter : (s.task p).taskWaitingForExit ≠ 0 ->
    (s.task p).taskWaitingForExit ≠ p ∧
      ((s.task (s.task p).taskWaitingForExit).state = .running ∨
        (s.task (s.task p).taskWaitingForExit).state = .sleeping)

section Exit

variable {s u s' : KernelState} {p : Word}

theorem taskExit_eq (s : KernelState) (p : Word) :
    taskExit s p = exitToSchedule s p >>= taskSchedule := by
  unfold taskExit exitToSchedule
  rw [bind_assoc]

/-!
# A table as long as its length says
-/

theorem entryCount_eq (s : KernelState) (p node access : Word) (n : Nat) :
    entryCount s p node access n =
      Nat.count (fun i => entryOn s p node access i = true) n := by
  induction n with
  | zero => rfl
  | succ n ih => rw [entryCount_succ, Nat.count_succ, ih]

theorem ExitMet.tableCount_eq (hs : ExitMet s p) (node access : Word) :
    tableCount s p node access =
      entryCount s p node access (s.task p).handleCount.toNat := by
  have hset : {i | entryOn s p node access i = true} =
      ↑((Finset.range (s.task p).handleCount.toNat).filter
        fun i => entryOn s p node access i = true) := by
    ext i
    rw [Finset.coe_filter, Set.mem_ofPred_eq, Set.mem_ofPred_eq, Finset.mem_range]
    refine ⟨fun hon => ⟨?_, hon⟩, fun h => h.2⟩
    by_contra hi
    unfold entryOn at hon
    rw [hs.length i (Nat.le_of_not_lt hi)] at hon
    exact Bool.false_ne_true hon
  unfold tableCount
  rw [hset, Set.ncard_coe_finset, entryCount_eq, Nat.count_eq_card_filter_range]

theorem ExitMet.holds_iff (hs : ExitMet s p) (x : Word) :
    Holds s p x <-> GivesBack s p x := by
  constructor
  · intro hx
    cases hx with
    | @handle i hne =>
        refine .handle (Nat.lt_of_not_le fun hi => ?_) hne
        exact hne (hs.length i hi)
    | table => exact .table
    | stack => exact .stack
  · intro hx
    cases hx with
    | handle _ hne => exact .handle hne
    | table => exact .table
    | stack => exact .stack

/-!
# The wakeup
-/

theorem taskWakeup_woken {w : Word} (h : (s.task w).state = .running ∨
    (s.task w).state = .sleeping) :
    taskWakeup w s = .ok (s.setState w (s.task w).state.woken) := by
  unfold taskWakeup
  rcases h with h | h
  · rw [h]
    rfl
  · rw [h]
    rfl

theorem setState_entry (w q : Word) (st : TaskState) (i : Nat) :
    (s.setState w st).entry q i = s.entry q i := by
  have hhandles : ((s.setState w st).task q).handles = (s.task q).handles := by
    unfold KernelState.setState
    by_cases hq : q = w
    · rw [hq, setTask_self]
    · rw [setTask_other _ _ _ hq]
  unfold KernelState.entry
  rw [hhandles]
  rfl

theorem Released.task_eq (hu : Released s u p) (q : Word) :
    u.task q = if q = p then exitedTask (s.task p) else s.task q := by
  rw [hu.tasks.task]
  exact setTask_task _ _ _ _

theorem Released.woken (hu : Released s u p) (hlive : (s.task p).taskWaitingForExit ≠ 0 ->
    (s.task p).taskWaitingForExit ≠ p ∧
      ((s.task (s.task p).taskWaitingForExit).state = .running ∨
        (s.task (s.task p).taskWaitingForExit).state = .sleeping)) :
    exists s', wakeWaiting u p = .ok s' ∧ (forall q, s'.task q = exitTasks s p q) ∧
      (forall q i, s'.entry q i = u.entry q i) ∧
      s' = { u with task := s'.task } := by
  have hwaiter : (u.task p).taskWaitingForExit =
      (s.task p).taskWaitingForExit := by
    rw [hu.task_eq, if_pos rfl]
    rfl
  unfold wakeWaiting
  rw [hwaiter]
  by_cases hnone : (s.task p).taskWaitingForExit = 0
  · refine ⟨u, if_neg (not_not_intro hnone), fun q => ?_, fun _ _ => rfl, rfl⟩
    have hasleep : ¬ ((s.task p).taskWaitingForExit ≠ 0 ∧
        q = (s.task p).taskWaitingForExit) := fun h => h.1 hnone
    unfold exitTasks
    rw [hu.task_eq, if_neg hasleep]
  · rcases hlive hnone with ⟨hother, hstate⟩
    have htask : u.task (s.task p).taskWaitingForExit =
        s.task (s.task p).taskWaitingForExit := by
      rw [hu.task_eq, if_neg hother]
    rw [← htask] at hstate
    refine ⟨_, (if_pos hnone).trans (taskWakeup_woken hstate), fun q => ?_,
      fun q i => setState_entry _ _ _ _, rfl⟩
    unfold KernelState.setState exitTasks
    rw [setTask_task, htask]
    by_cases hq : q = (s.task p).taskWaitingForExit
    · rw [if_pos hq, if_neg (hq ▸ hother), if_pos ⟨hnone, hq⟩, hq]
    · rw [if_neg hq, hu.task_eq]
      by_cases hqp : q = p
      · rw [if_pos hqp, if_pos hqp]
      · rw [if_neg hqp, if_neg hqp, if_neg fun h => hq h.2]

theorem Released.waiter (hu : Released s u p) (hrun : wakeWaiting u p = .ok s')
    (hne : (s.task p).taskWaitingForExit ≠ 0) :
    (s.task p).taskWaitingForExit ≠ p ∧
      ((s.task (s.task p).taskWaitingForExit).state = .running ∨
        (s.task (s.task p).taskWaitingForExit).state = .sleeping) := by
  have hwaiter : (u.task p).taskWaitingForExit =
      (s.task p).taskWaitingForExit := by
    rw [hu.task_eq, if_pos rfl]
    rfl
  unfold wakeWaiting at hrun
  rw [hwaiter, if_pos hne] at hrun
  have hstate : (u.task (s.task p).taskWaitingForExit).state = .running ∨
      (u.task (s.task p).taskWaitingForExit).state = .sleeping := by
    rcases taskWakeup_cases hrun with ⟨hstate, _⟩ | ⟨hstate, _⟩
    · exact Or.inl hstate
    · exact Or.inr hstate
  rw [hu.task_eq] at hstate
  split at hstate
  · rcases hstate with hstate | hstate <;> cases hstate
  · next hother => exact ⟨hother, hstate⟩

/-!
# The whole end
-/

theorem ExitMet.releases (hs : ExitMet s p) (hsystem : SystemInv s)
    (hhandles : HandleInv s) (hp : p ∈ s.taskList) :
    exists s', exitToSchedule s p = .ok s' ∧ ExitReleases s s' p := by
  rcases hsystem.owned with ⟨label, howned⟩
  rcases releaseTask_released howned hp hs.live hs.table
    (fun i hi hne => hhandles.kinds _ _ i (Uses.handle hp hs.live hi hne)) with
    ⟨u, hrelease, hu⟩
  rcases hu.woken hs.waiter with ⟨s', hwake, htasks, hentry, hrest⟩
  refine ⟨s', ok_bind_iff.mpr ⟨u, hrelease, hwake⟩, htasks, ?_, fun i => ?_,
    fun node => ?_, fun node => ?_, fun b => ?_, fun q hq hlive hqp i => ?_, ?_, ?_,
    ?_, ?_, ?_, ?_⟩
  · rw [hrest]
    exact hu.tasks.segmentBitmap
  · rw [hentry, hu.entries p hp hs.live]
    split
    · rfl
    · next hi => exact hs.length i (Nat.le_of_not_lt fun h => hi ⟨rfl, h⟩)
  · rw [hrest, hs.tableCount_eq]
    exact hu.readers node
  · rw [hrest, hs.tableCount_eq]
    exact hu.writers node
  · rw [hrest, hs.holds_iff]
    exact hu.blocks b
  · rw [hentry, hu.entries q hq hlive, if_neg fun h => hqp h.1]
  · rw [hrest]
    exact hu.handle
  · rw [hrest]
    exact hu.mem
  · rw [hrest]
    exact hu.tasks.taskList
  · rw [hrest]
    exact hu.tasks.currentTask
  · rw [hrest]
    exact hu.tasks.clock
  · rw [hrest]
    exact hu.tasks.irqEvents

theorem exitMet_of_releases (hsystem : SystemInv s) (hhandles : HandleInv s)
    (hp : p ∈ s.taskList) (hrun : exitToSchedule s p = .ok s')
    (hexit : ExitReleases s s' p) : ExitMet s p := by
  rcases hsystem.owned with ⟨label, howned⟩
  rcases ok_bind_iff.mp hrun with ⟨u, hrelease, hwake⟩
  rcases releaseTask_pointers howned.owned.heap howned.pool_pos hrelease with
    ⟨htable, hstack⟩
  have hlive : s.Live p := fun hexited => hstack (hhandles.ended p hp hexited)
  rcases releaseTask_released howned hp hlive htable
    (fun i hi hne => hhandles.kinds _ _ i (Uses.handle hp hlive hi hne)) with
    ⟨u', hreleased, hu⟩
  cases hreleased.symm.trans hrelease
  refine ⟨hlive, htable, fun i hi => ?_, hu.waiter hwake⟩
  rcases hu.woken (hu.waiter hwake) with ⟨t, hwoken, _, hentry, _⟩
  cases hwoken.symm.trans hwake
  have hcleared := hexit.cleared i
  rw [hentry, hu.entries p hp hlive, if_neg fun h => Nat.not_lt.mpr hi h.2]
    at hcleared
  exact hcleared

end Exit

/-- In every state that is reached, the end of a task gets to the scheduler with
everything given back exactly when the task is not over, has a table as long as its
length says, and has no waiter that cannot be woken. -/
theorem task_exit_releases_iff {s : KernelState}
    (hs : Reachable Started TaskStep s) {p : Word} (hp : p ∈ s.taskList) :
    (exists s', exitToSchedule s p = .ok s' ∧ ExitReleases s s' p) <->
      ExitMet s p := by
  rcases taskRun_inv hs with ⟨hsystem, hhandles⟩
  constructor
  · rintro ⟨s', hrun, hexit⟩
    exact exitMet_of_releases hsystem hhandles hp hrun hexit
  · exact fun hmet => hmet.releases hsystem hhandles hp

/-!
# A task with one file
-/

theorem openNode_first {s s' : KernelState} {p node mode : Word}
    (hcount : (s.task p).handleCount = 0) (hzero : (s.task p).handles = 0)
    (hrun : openNode s p node mode = .ok s') (hne : (s'.task p).handles ≠ 0)
    {i : Nat} (hi : 1 ≤ i) : s'.entry p i = 0 := by
  rcases ok_bind_iff.mp hrun with ⟨⟨handle, fs⟩, _, hrun⟩
  dsimp only at hrun
  split at hrun
  · cases hrun
    exact absurd hzero hne
  · rcases ok_bind_iff.mp hrun with ⟨⟨id, s₁⟩, hadd, hr⟩
    cases hr
    unfold taskAddHandle at hadd
    dsimp only at hadd
    rw [hcount] at hadd
    rcases ok_bind_iff.mp hadd with ⟨⟨newTable, s₂⟩, hmalloc, hadd⟩
    have htask : s₂.task p = s.task p :=
      congrFun (kernel_malloc_sameTasks hmalloc).task p
    dsimp only at hadd
    split at hadd
    · cases hadd
      rw [htask] at hne
      exact absurd hzero hne
    · rw [hzero, if_neg (not_not_intro rfl)] at hadd
      cases hadd
      have hlater : i ≠ (0 : Byte).toNat := Nat.ne_of_gt hi
      unfold KernelState.entry KernelState.setEntry growTable
      dsimp only
      rw [setTask_self]
      simp only [Function.update_self, Function.update_of_ne hlater,
        setTask_handleTable]
      exact if_neg fun h => h.1 rfl

theorem openStart_reached : Reachable Started TaskStep openStart :=
  .step (.start fileStart_started) (.kernel (.openNode (Or.inl rfl) openStart_run))

theorem openStart_task : (openStart.task 0x9000).handleCount = 5 ∧
    (openStart.task 0x9000).handles ≠ 0 ∧ openStart.Live 0x9000 ∧
    (openStart.task 0x9000).taskWaitingForExit = 0 ∧
    0x9000 ∈ openStart.taskList := by
  decide +kernel

theorem task_exit_releases_file :
    exists s', exitToSchedule openStart 0x9000 = .ok s' ∧
      ExitReleases openStart s' 0x9000 := by
  rcases openStart_task with ⟨hcount, htable, hlive, hwaiter, hp⟩
  refine (task_exit_releases_iff openStart_reached hp).mpr
    ⟨hlive, htable, fun i hi => ?_, fun hne => absurd hwaiter hne⟩
  rw [hcount] at hi
  have hfirst : 1 ≤ i := Nat.le_trans (by decide) hi
  exact openNode_first rfl rfl openStart_run htable hfirst

/-- A task that has never opened a file ends in a panic. -/
theorem task_exit_panics : ¬ forall s p, Reachable Started TaskStep s ->
    p ∈ s.taskList -> exists s', exitToSchedule s p = .ok s' ∧
      ExitReleases s s' p := by
  intro hall
  rcases hall smallStart 0x9000 (.start smallStart_started) (by decide) with
    ⟨s', hrun, _⟩
  rcases smallStart_started.inv.owned with ⟨label, howned⟩
  rcases ok_bind_iff.mp hrun with ⟨u, hrelease, _⟩
  exact (releaseTask_pointers howned.owned.heap howned.pool_pos hrelease).1 (by decide)

end Kernel
end Rmmtos
