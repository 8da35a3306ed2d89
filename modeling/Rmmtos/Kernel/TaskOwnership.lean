import Rmmtos.Kernel.Ownership
import Rmmtos.Kernel.Syscall

/-!
# The heap blocks of the kernel

Every block that the tasks, the alarms and the interrupt waits hold has one
owner.  All operations keep it so, and with it no two tasks share a record or
a kernel stack.
-/

namespace Rmmtos
namespace Kernel

open Library Fs

/-!
# Owners
-/

inductive Owner where
  | task
  | stack (p : Word)
  | table (p : Word)
  | handle (p : Word) (i : Nat)
  | pending
  | alarm
  | irqWait (irq : Nat)
deriving DecidableEq

def Owner.size : Owner -> Nat
  | task => taskSize.toNat
  | stack _ => kernelStackBytes.toNat
  | _ => 0

def KernelState.Live (s : KernelState) (p : Word) : Prop :=
  (s.task p).state ≠ .exited

instance (s : KernelState) (p : Word) : Decidable (s.Live p) :=
  inferInstanceAs (Decidable ((s.task p).state ≠ .exited))

theorem live_of_state {s : KernelState} {p : Word} {st : TaskState}
    (h : (s.task p).state = st) (hst : st ≠ .exited) : s.Live p := by
  unfold KernelState.Live
  rw [h]
  exact hst

theorem live_of_awake {s : KernelState} {p : Word}
    (h : (s.task p).state = .running ∨ (s.task p).state = .wakenBeforeSleep) :
    s.Live p := by
  rcases h with hstate | hstate
  · exact live_of_state hstate (by decide)
  · exact live_of_state hstate (by decide)

def KernelState.entry (s : KernelState) (p : Word) (i : Nat) : Word :=
  s.handleTable (s.task p).handles i

inductive Uses (s : KernelState) : Word -> Owner -> Prop where
  | task {p : Word} : p ∈ s.taskList -> Uses s p .task
  | stack {p : Word} : p ∈ s.taskList -> s.Live p ->
      Uses s (s.task p).stack (.stack p)
  | table {p : Word} : p ∈ s.taskList -> s.Live p -> (s.task p).handles ≠ 0 ->
      Uses s (s.task p).handles (.table p)
  | handle {p : Word} {i : Nat} : p ∈ s.taskList -> s.Live p ->
      i < (s.task p).handleCount.toNat -> s.entry p i ≠ 0 ->
      Uses s (s.entry p i) (.handle p i)
  | alarm {a : ClockAlarm Word} : a ∈ s.clock.alarmQueue ->
      Uses s a.address .alarm
  | irqWait {irq : Nat} {w : IrqWait} : w ∈ s.irqEvents irq ->
      Uses s w.address (.irqWait irq)

theorem Uses.stack_live {s : KernelState} {x p : Word}
    (h : Uses s x (.stack p)) : s.Live p := by
  cases h with
  | stack _ hlive => exact hlive

theorem Uses.table_live {s : KernelState} {x p : Word}
    (h : Uses s x (.table p)) : s.Live p := by
  cases h with
  | table _ hlive _ => exact hlive

theorem Uses.table_eq {s : KernelState} {x p : Word}
    (h : Uses s x (.table p)) : x = (s.task p).handles := by
  cases h with
  | table _ _ _ => rfl

theorem Uses.entry_ne_zero {s : KernelState} {x p : Word} {i : Nat}
    (h : Uses s x (.handle p i)) : s.entry p i ≠ 0 := by
  cases h with
  | handle _ _ _ hne => exact hne

theorem Uses.alarm_mem {s : KernelState} {x : Word} (h : Uses s x .alarm) :
    x ∈ s.clock.alarmQueue.map ClockAlarm.address := by
  cases h with
  | alarm ha => exact List.mem_map_of_mem ha

theorem Uses.irqWait_mem {s : KernelState} {x : Word} {irq : Nat}
    (h : Uses s x (.irqWait irq)) :
    x ∈ (s.irqEvents irq).map IrqWait.address := by
  cases h with
  | irqWait hw => exact List.mem_map_of_mem hw

/-- Every address in use has the label of its one owner. -/
structure KernelOwned (s : KernelState) (label : Word -> Option Owner) :
    Prop where
  owned : Owned Owner.size s.fs.heap label
  pool_pos : 0 < s.fs.heap.poolStart.toNat
  tasks_nodup : s.taskList.Nodup
  noTable : forall p, p ∈ s.taskList -> s.Live p -> (s.task p).handles = 0 ->
    (s.task p).handleCount.toNat = 0
  alarms_nodup : (s.clock.alarmQueue.map ClockAlarm.address).Nodup
  waits_nodup : forall irq, ((s.irqEvents irq).map IrqWait.address).Nodup
  uses : forall x o, Uses s x o -> label x = some o

/-!
# Updates

What the updates of the kernel state change, field by field.
-/

section Updates

variable (s : KernelState) (p q : Word) (t : Task) (st : TaskState)

theorem setTask_task : (s.setTask p t).task q = if q = p then t else s.task q :=
  Function.update_apply s.task p t q

@[simp] theorem setTask_self : (s.setTask p t).task p = t :=
  Function.update_self ..

theorem setTask_other {q : Word} (h : q ≠ p) :
    (s.setTask p t).task q = s.task q :=
  Function.update_of_ne h ..

@[simp] theorem setTask_taskList : (s.setTask p t).taskList = s.taskList := rfl

@[simp] theorem setTask_handleTable :
    (s.setTask p t).handleTable = s.handleTable := rfl

@[simp] theorem setTask_clock : (s.setTask p t).clock = s.clock := rfl

@[simp] theorem setTask_irqEvents :
    (s.setTask p t).irqEvents = s.irqEvents := rfl

@[simp] theorem setTask_segmentBitmap :
    (s.setTask p t).segmentBitmap = s.segmentBitmap := rfl

end Updates

structure SameTasks (s s' : KernelState) : Prop where
  task : s'.task = s.task
  taskList : s'.taskList = s.taskList
  currentTask : s'.currentTask = s.currentTask
  segmentBitmap : s'.segmentBitmap = s.segmentBitmap
  clock : s'.clock = s.clock
  irqEvents : s'.irqEvents = s.irqEvents

theorem SameTasks.refl (s : KernelState) : SameTasks s s :=
  ⟨rfl, rfl, rfl, rfl, rfl, rfl⟩

theorem SameTasks.trans {s t u : KernelState} (hst : SameTasks s t)
    (htu : SameTasks t u) : SameTasks s u :=
  ⟨htu.task.trans hst.task, htu.taskList.trans hst.taskList,
    htu.currentTask.trans hst.currentTask,
    htu.segmentBitmap.trans hst.segmentBitmap, htu.clock.trans hst.clock,
    htu.irqEvents.trans hst.irqEvents⟩

theorem SameTasks.live {s s' : KernelState} (h : SameTasks s s') {p : Word}
    (hlive : s.Live p) : s'.Live p := by
  unfold KernelState.Live
  rw [h.task]
  exact hlive

structure SameBlocks (s s' : KernelState) : Prop where
  heap : s'.fs.heap = s.fs.heap
  taskList : s'.taskList = s.taskList
  live : forall p, s'.Live p -> s.Live p
  stack : forall p, (s'.task p).stack = (s.task p).stack
  handles : forall p, (s'.task p).handles = (s.task p).handles
  handleCount : forall p, (s'.task p).handleCount = (s.task p).handleCount
  handleTable : s'.handleTable = s.handleTable
  alarms : s'.clock.alarmQueue = s.clock.alarmQueue
  irqEvents : s'.irqEvents = s.irqEvents

theorem SameBlocks.refl (s : KernelState) : SameBlocks s s :=
  ⟨rfl, rfl, fun _ h => h, fun _ => rfl, fun _ => rfl, fun _ => rfl, rfl, rfl,
    rfl⟩

theorem SameBlocks.trans {s t u : KernelState} (hst : SameBlocks s t)
    (htu : SameBlocks t u) : SameBlocks s u where
  heap := htu.heap.trans hst.heap
  taskList := htu.taskList.trans hst.taskList
  live := fun p h => hst.live p (htu.live p h)
  stack := fun p => (htu.stack p).trans (hst.stack p)
  handles := fun p => (htu.handles p).trans (hst.handles p)
  handleCount := fun p => (htu.handleCount p).trans (hst.handleCount p)
  handleTable := htu.handleTable.trans hst.handleTable
  alarms := htu.alarms.trans hst.alarms
  irqEvents := htu.irqEvents.trans hst.irqEvents

theorem SameBlocks.entry {s s' : KernelState} (h : SameBlocks s s') (p : Word)
    (i : Nat) : s'.entry p i = s.entry p i := by
  unfold KernelState.entry
  rw [h.handleTable, h.handles p]

theorem SameBlocks.uses {s s' : KernelState} (h : SameBlocks s s')
    {x : Word} {o : Owner} (hx : Uses s' x o) : Uses s x o := by
  cases hx with
  | task hp => exact Uses.task (h.taskList ▸ hp)
  | stack hp hlive =>
      rw [h.stack]
      exact Uses.stack (h.taskList ▸ hp) (h.live _ hlive)
  | table hp hlive hne =>
      rw [h.handles] at hne ⊢
      exact Uses.table (h.taskList ▸ hp) (h.live _ hlive) hne
  | handle hp hlive hi hne =>
      rw [h.entry] at hne ⊢
      rw [h.handleCount] at hi
      exact Uses.handle (h.taskList ▸ hp) (h.live _ hlive) hi hne
  | alarm ha => exact Uses.alarm (h.alarms ▸ ha)
  | irqWait hw => exact Uses.irqWait (h.irqEvents ▸ hw)

theorem KernelOwned.same {s s' : KernelState} {label : Word -> Option Owner}
    (hs : KernelOwned s label) (h : SameBlocks s s') :
    KernelOwned s' label := by
  constructor
  · rw [h.heap]
    exact hs.owned
  · rw [h.heap]
    exact hs.pool_pos
  · rw [h.taskList]
    exact hs.tasks_nodup
  · intro p hp hlive hzero
    rw [h.handles] at hzero
    rw [h.handleCount]
    exact hs.noTable p (h.taskList ▸ hp) (h.live p hlive) hzero
  · rw [h.alarms]
    exact hs.alarms_nodup
  · rw [h.irqEvents]
    exact hs.waits_nodup
  · exact fun x o hx => hs.uses x o (h.uses hx)

theorem sameBlocks_setState {s : KernelState} {p : Word} {st : TaskState}
    (hlive : s.Live p) : SameBlocks s (s.setState p st) := by
  have hcase : forall q, ((s.setState p st).task q).stack = (s.task q).stack ∧
      ((s.setState p st).task q).handles = (s.task q).handles ∧
      ((s.setState p st).task q).handleCount = (s.task q).handleCount := by
    intro q
    unfold KernelState.setState
    by_cases hq : q = p
    · rw [hq, setTask_self]
      exact ⟨rfl, rfl, rfl⟩
    · rw [setTask_other _ _ _ hq]
      exact ⟨rfl, rfl, rfl⟩
  refine ⟨rfl, rfl, ?_, fun q => (hcase q).1, fun q => (hcase q).2.1,
    fun q => (hcase q).2.2, rfl, rfl, rfl⟩
  intro q hq
  by_cases hqp : q = p
  · rw [hqp]
    exact hlive
  · unfold KernelState.Live KernelState.setState at hq
    rw [setTask_other _ _ _ hqp] at hq
    exact hq

/-!
# Scheduling
-/

theorem taskSchedule_found {s s' : KernelState} (h : taskSchedule s = .ok s') :
    s' = s ∨ exists x p, searchTask s = .ok x ∧
      x.found = some (.switchTo p) ∧ s' = { s with currentTask := p } := by
  rcases ok_bind_iff.mp h with ⟨x, hsearch, hx⟩
  cases hfound : x.found with
  | none =>
      rw [hfound] at hx
      cases hx
  | some outcome =>
      rw [hfound] at hx
      cases outcome with
      | halt =>
          cases hx
          exact Or.inl rfl
      | switchTo p =>
          cases hx
          exact Or.inr ⟨x, p, hsearch, hfound, rfl⟩

theorem taskSchedule_eq {s s' : KernelState} (h : taskSchedule s = .ok s') :
    s' = s ∨ exists p, s' = { s with currentTask := p } := by
  rcases taskSchedule_found h with rfl | ⟨_, p, _, _, rfl⟩
  · exact Or.inl rfl
  · exact Or.inr ⟨p, rfl⟩

theorem taskSchedule_same {s s' : KernelState} (h : taskSchedule s = .ok s') :
    SameBlocks s s' := by
  rcases taskSchedule_eq h with rfl | ⟨p, rfl⟩
  · exact SameBlocks.refl s'
  · exact ⟨rfl, rfl, fun _ h => h, fun _ => rfl, fun _ => rfl, fun _ => rfl,
      rfl, rfl, rfl⟩

theorem taskWakeup_eq {s s' : KernelState} {p : Word}
    (h : taskWakeup p s = .ok s') :
    s.Live p ∧ exists st, st ≠ .exited ∧ s' = s.setState p st := by
  unfold taskWakeup at h
  unfold KernelState.Live
  cases hstate : (s.task p).state with
  | running =>
      rw [hstate] at h
      cases h
      exact ⟨by simp, .wakenBeforeSleep, by simp, rfl⟩
  | sleeping =>
      rw [hstate] at h
      cases h
      exact ⟨by simp, .running, by simp, rfl⟩
  | wakenBeforeSleep =>
      rw [hstate] at h
      cases h
  | exited =>
      rw [hstate] at h
      cases h

theorem taskWakeup_same {s s' : KernelState} {p : Word}
    (h : taskWakeup p s = .ok s') : SameBlocks s s' := by
  rcases taskWakeup_eq h with ⟨hlive, st, _, rfl⟩
  exact sameBlocks_setState hlive

/-!
# Taking and releasing blocks
-/

section Blocks

variable {s s' : KernelState} {label : Word -> Option Owner}

theorem kernel_malloc_eq {n p : Word} (hrun : s.malloc n = .ok (p, s')) :
    exists h, Kernel.malloc s.fs.heap n = .ok (p, h) ∧
      s' = { s with fs := { s.fs with heap := h } } := by
  rcases ok_bind_iff.mp hrun with ⟨r, hfs, hr⟩
  rcases ok_bind_iff.mp hfs with ⟨r', hheap, hr'⟩
  cases hr'
  cases hr
  exact ⟨r'.2, hheap, rfl⟩

theorem kernel_free_eq {p : Word} (hrun : s.free p = .ok s') :
    exists h, Kernel.free s.fs.heap p = .ok h ∧
      s' = { s with fs := { s.fs with heap := h } } := by
  rcases ok_bind_iff.mp hrun with ⟨fs, hfs, hr⟩
  rcases ok_bind_iff.mp hfs with ⟨h, hheap, hr'⟩
  cases hr'
  cases hr
  exact ⟨h, hheap, rfl⟩

theorem kernel_malloc_sameTasks {n p : Word} (hrun : s.malloc n = .ok (p, s')) :
    SameTasks s s' := by
  rcases kernel_malloc_eq hrun with ⟨h, _, rfl⟩
  exact ⟨rfl, rfl, rfl, rfl, rfl, rfl⟩

theorem kernel_free_sameTasks {p : Word} (hrun : s.free p = .ok s') :
    SameTasks s s' := by
  rcases kernel_free_eq hrun with ⟨h, _, rfl⟩
  exact ⟨rfl, rfl, rfl, rfl, rfl, rfl⟩

theorem uses_heap {h : Heap} {x : Word} {o : Owner}
    (hx : Uses { s with fs := { s.fs with heap := h } } x o) : Uses s x o := by
  cases hx with
  | task hp => exact Uses.task hp
  | stack hp hlive => exact Uses.stack (s := s) hp hlive
  | table hp hlive hne => exact Uses.table (s := s) hp hlive hne
  | handle hp hlive hi hne => exact Uses.handle (s := s) hp hlive hi hne
  | alarm ha => exact Uses.alarm (s := s) ha
  | irqWait hw => exact Uses.irqWait (s := s) hw

theorem KernelOwned.malloc (hs : KernelOwned s label) {n p : Word}
    (hrun : s.malloc n = .ok (p, s')) {o : Owner} (hsize : o.size ≤ n.toNat) :
    label p = none ∧ KernelOwned s' (Function.update label p (some o)) := by
  rcases kernel_malloc_eq hrun with ⟨h, hheap, rfl⟩
  rcases hs.owned.malloc hheap hsize with ⟨hnone, howned⟩
  refine ⟨hnone, howned, ?_, hs.tasks_nodup, hs.noTable, hs.alarms_nodup,
    hs.waits_nodup, ?_⟩
  · rw [malloc_poolStart hheap]
    exact hs.pool_pos
  · intro x o' hx
    have hlabel := hs.uses x o' (uses_heap hx)
    have hne : x ≠ p := by
      intro heq
      rw [heq, hnone] at hlabel
      cases hlabel
    rw [Function.update_of_ne hne]
    exact hlabel

theorem KernelOwned.unused (hs : KernelOwned s label) {p : Word} (hp : label p = none)
    {o : Owner} : ¬ Uses s p o := by
  intro huse
  have hlabel := hs.uses p o huse
  rw [hp] at hlabel
  cases hlabel

theorem KernelOwned.handles_ne_zero (hs : KernelOwned s label) {p : Word} {i : Nat}
    (hp : p ∈ s.taskList) (hlive : s.Live p)
    (hi : i < (s.task p).handleCount.toNat) : (s.task p).handles ≠ 0 := by
  intro hzero
  have hcount := hs.noTable p hp hlive hzero
  omega

theorem KernelOwned.malloc_fresh (hs : KernelOwned s label) {n p : Word}
    (hrun : s.malloc n = .ok (p, s')) : p ∉ s.taskList := by
  intro hmem
  exact hs.unused (hs.malloc hrun (o := .pending) (Nat.zero_le _)).1 (Uses.task hmem)

theorem KernelOwned.task_ne_zero (hs : KernelOwned s label) {p : Word}
    (hp : p ∈ s.taskList) : p ≠ 0 := by
  rcases hs.owned.taken p _ (hs.uses _ _ (Uses.task hp)) with
    ⟨b, hb, rfl, _⟩
  intro hzero
  have hnat := address_toNat hs.owned.heap (hs.owned.heap.taken_lt b hb)
  have hpool := hs.pool_pos
  rw [hzero] at hnat
  change 0 = _ at hnat
  omega

theorem KernelOwned.free (hs : KernelOwned s label) {p : Word} {o : Owner}
    (hp : label p = some o) (hunused : forall o', ¬ Uses s p o')
    (hrun : s.free p = .ok s') :
    KernelOwned s' (Function.update label p none) := by
  rcases kernel_free_eq hrun with ⟨h, hheap, rfl⟩
  rcases hs.owned.free hp with ⟨h', hheap', howned⟩
  rw [hheap] at hheap'
  cases hheap'
  refine ⟨howned, ?_, hs.tasks_nodup, hs.noTable, hs.alarms_nodup,
    hs.waits_nodup, ?_⟩
  · rw [free_poolStart hheap]
    exact hs.pool_pos
  · intro x o' hx
    have hx := uses_heap hx
    have hne : x ≠ p := by
      intro heq
      rw [heq] at hx
      exact hunused o' hx
    rw [Function.update_of_ne hne]
    exact hs.uses x o' hx

theorem KernelOwned.free_zero (hs : KernelOwned s label) :
    s.free 0 ≠ .ok s' := by
  intro hrun
  rcases kernel_free_eq hrun with ⟨h, hheap, _⟩
  rw [free_null hs.owned.heap hs.pool_pos] at hheap
  cases hheap

end Blocks

end Kernel
end Rmmtos
