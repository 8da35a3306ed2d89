import Rmmtos.Kernel.ClosedHandles
import Rmmtos.Kernel.HandleTable
import Rmmtos.Kernel.WakeSources

/-!
# Tasks with open files

The running system with its open and close of files, and with the work of the file
system on blocks and nodes of its own.  In every state each handle in a table is of
a kind that {lit}`task_exit` closes, and a task that has exited has no stack.
-/

namespace Rmmtos
namespace Kernel

open Library Fs

/-!
# Steps
-/

/-- {lit}`sys_close_file`, when the task has given the id. -/
def closeFile (s : KernelState) (p id : Word) : Result KernelState :=
  let handle := taskGetHandle s p id
  if handle ≠ 0 then
    fileClose s.fs handle >>= fun fs =>
      .ok (taskRemoveHandle { s with fs := fs } p id)
  else .ok s

/-- The file system takes blocks, frees blocks that the kernel has no use for, and
changes nodes, counts and positions, but not the kind of a task's handle. -/
inductive TaskStep : KernelState -> KernelState -> Prop where
  | kernel {s s' : KernelState} : KernelStep s s' -> TaskStep s s'
  | closeFile {s s' : KernelState} {id : Word} : Running s ->
      closeFile s s.currentTask id = .ok s' -> TaskStep s s'
  | malloc {s s' : KernelState} {size p : Word} :
      s.malloc size = .ok (p, s') -> TaskStep s s'
  | free {s s' : KernelState} {b : Nat} : s.fs.heap.taken b = true ->
      (forall o, ¬ Uses s (s.fs.heap.address b) o) ->
      s.free (s.fs.heap.address b) = .ok s' -> TaskStep s s'
  | files {s : KernelState} {fs : FsState} : fs.heap = s.fs.heap ->
      (forall x p i, Uses s x (.handle p i) ->
        (fs.handle x).flags = (s.fs.handle x).flags) ->
      TaskStep s { s with fs := fs }

/-!
# The invariant
-/

structure HandleInv (s : KernelState) : Prop where
  kinds : forall x p i, Uses s x (.handle p i) -> Closable s x
  ended : forall p, p ∈ s.taskList -> (s.task p).state = .exited ->
    (s.task p).stack = 0

structure KeepsHandles (s s' : KernelState) : Prop where
  taskList : s'.taskList = s.taskList
  handle : s'.fs.handle = s.fs.handle
  uses : forall x p i, Uses s' x (.handle p i) -> Uses s x (.handle p i)
  ended : forall p, (s'.task p).state = .exited ->
    (s.task p).state = .exited ∧ (s'.task p).stack = (s.task p).stack

section Keeps

variable {s s' : KernelState} {label : Word -> Option Owner}

theorem KeepsHandles.trans {t : KernelState} (hst : KeepsHandles s s')
    (htu : KeepsHandles s' t) : KeepsHandles s t where
  taskList := htu.taskList.trans hst.taskList
  handle := htu.handle.trans hst.handle
  uses x p i hx := hst.uses x p i (htu.uses x p i hx)
  ended p hp :=
    ⟨(hst.ended p (htu.ended p hp).1).1,
      (htu.ended p hp).2.trans (hst.ended p (htu.ended p hp).1).2⟩

theorem HandleInv.keeps (hs : HandleInv s) (h : KeepsHandles s s') :
    HandleInv s' := by
  constructor
  · intro x p i hx
    unfold Closable
    rw [h.handle]
    exact hs.kinds x p i (h.uses x p i hx)
  · intro p hp hexited
    rcases h.ended p hexited with ⟨hbefore, hstack⟩
    rw [hstack]
    exact hs.ended p (h.taskList ▸ hp) hbefore

theorem SameBlocks.keeps (h : SameBlocks s s') (hhandle : s'.fs.handle = s.fs.handle)
    (hlive : forall p, s.Live p -> s'.Live p) : KeepsHandles s s' where
  taskList := h.taskList
  handle := hhandle
  uses _ _ _ hx := h.uses hx
  ended p hp := ⟨not_not.mp fun hne => hlive p hne hp, h.stack p⟩

theorem KeepsHandles.refl (s : KernelState) : KeepsHandles s s :=
  (SameBlocks.refl s).keeps rfl fun _ h => h

theorem keeps_heap (s : KernelState) (h : Heap) :
    KeepsHandles s { s with fs := { s.fs with heap := h } } where
  taskList := rfl
  handle := rfl
  uses _ _ _ hx := uses_heap hx
  ended _ hp := ⟨hp, rfl⟩

theorem malloc_keeps {n p : Word} (hrun : s.malloc n = .ok (p, s')) :
    KeepsHandles s s' := by
  rcases kernel_malloc_eq hrun with ⟨h, _, rfl⟩
  exact keeps_heap s h

theorem free_keeps {p : Word} (hrun : s.free p = .ok s') : KeepsHandles s s' := by
  rcases kernel_free_eq hrun with ⟨h, _, rfl⟩
  exact keeps_heap s h

theorem keeps_sources {clock : Clock Word} {irqEvents : Nat -> List IrqWait} :
    KeepsHandles s { s with clock := clock, irqEvents := irqEvents } where
  taskList := rfl
  handle := rfl
  uses x p i hx := by
    cases hx with
    | handle hp hlive hi hne => exact Uses.handle (s := s) hp hlive hi hne
  ended _ hp := ⟨hp, rfl⟩

theorem setState_keeps {p : Word} {st : TaskState} (hlive : s.Live p)
    (hst : st ≠ .exited) : KeepsHandles s (s.setState p st) :=
  (sameBlocks_setState hlive).keeps rfl fun q hq =>
    ((setState_onlyStates hlive hst).live q).mpr hq

theorem taskWakeup_keeps {p : Word} (hrun : taskWakeup p s = .ok s') :
    KeepsHandles s s' := by
  rcases taskWakeup_eq hrun with ⟨hlive, st, hst, rfl⟩
  exact setState_keeps hlive hst

theorem taskSchedule_keeps (hrun : taskSchedule s = .ok s') : KeepsHandles s s' := by
  have hsame := taskSchedule_same hrun
  rcases taskSchedule_eq hrun with rfl | ⟨p, rfl⟩
  · exact KeepsHandles.refl s'
  · exact hsame.keeps rfl fun _ h => h

theorem tick_keeps (hrun : s.clockTick = .ok s') : KeepsHandles s s' := by
  rcases ok_bind_iff.mp hrun with ⟨r, htick, hr⟩
  rcases ok_bind_iff.mp htick with ⟨⟨queue, s₁⟩, hwake, htick⟩
  cases htick
  cases hr
  have hend : KeepsHandles s s₁ := wakeDue_invariant (c := kernelCalls)
    (I := fun _ t => KeepsHandles s t) ?_ (fun _ _ _ _ h => h) hwake
    (KeepsHandles.refl s)
  · exact hend.trans keeps_sources
  · intro a rest t t₁ t₂ ht hwake hfree
    exact (ht.trans (taskWakeup_keeps hwake)).trans (free_keeps hfree)

theorem irq_keeps {irq : Nat} (hrun : irqResumeWaitingTasks s irq = .ok s') :
    KeepsHandles s s' := by
  rcases ok_bind_iff.mp hrun with ⟨s₁, hresume, hr⟩
  cases hr
  have hend : KeepsHandles s s₁ := resumeTasks_invariant
    (I := fun _ t => KeepsHandles s t) ?_ hresume (KeepsHandles.refl s)
  · exact hend.trans keeps_sources
  · intro w rest t t₁ t₂ ht hwake hfree
    exact (ht.trans (taskWakeup_keeps hwake)).trans (free_keeps hfree)

end Keeps

/-!
# Opening and closing files
-/

section Files

variable {s s' : KernelState} {label : Word -> Option Owner} {p : Word}

theorem asks_or_self (access mode : Word) (h : access ≠ 0) :
    asks (access ||| mode) access = true := by
  have habsorb : (access ||| mode) &&& access = access := by
    refine BitVec.eq_of_getLsbD_eq fun i _ => ?_
    rw [BitVec.getLsbD_and, BitVec.getLsbD_or]
    cases access.getLsbD i with
    | false => exact Bool.and_false _
    | true => rfl
  unfold asks
  rw [habsorb]
  exact bne_iff_ne.mpr h

theorem HandleInv.opened (hs : HandleInv s) (howned : KernelOwned s label)
    {h : Heap} {handle node type mode size : Word} {fs : FsState}
    (hmalloc : Kernel.malloc s.fs.heap size = .ok (handle, h))
    (hfs : fs = openHandle { s.fs with heap := h } handle node type mode) :
    HandleInv { s with fs := fs } := by
  have hnone := (howned.malloc (kernel_malloc_of_heap hmalloc)
    (o := .pending) (Nat.zero_le _)).1
  refine ⟨fun x q i hx => ?_, hs.ended⟩
  have hbefore : Uses s x (.handle q i) := by
    cases hx with
    | handle hp hlive hi hne => exact Uses.handle (s := s) hp hlive hi hne
  have hne : x ≠ handle := by
    intro heq
    have hlabel := howned.uses _ _ hbefore
    rw [heq, hnone] at hlabel
    cases hlabel
  unfold Closable
  dsimp only
  rw [hfs, openHandle_handle, if_neg hne]
  exact hs.kinds x q i hbefore

theorem HandleInv.setEntry (hs : HandleInv s) (table : Word) (i : Nat) {h : Word}
    (hkind : h ≠ 0 -> Closable s h) : HandleInv (s.setEntry table i h) := by
  refine ⟨fun x q j hx => ?_, hs.ended⟩
  cases hx with
  | handle hq hlive hj hne =>
      rw [setEntry_entry] at hne ⊢
      split at hne
      · next hself =>
          rw [if_pos hself]
          exact hkind hne
      · next hother =>
          rw [if_neg hother]
          exact hs.kinds _ q j (Uses.handle hq hlive hj hne)

theorem HandleInv.added (hs : HandleInv s) (howned : KernelOwned s label)
    {handle id : Word} (hp : p ∈ s.taskList) (hlive : s.Live p)
    (hkind : Closable s handle)
    (hrun : taskAddHandle s p handle = .ok (id, s')) : HandleInv s' := by
  rcases taskAddHandle_cases hrun with
    ⟨i, hadded⟩ | ⟨h, hnull⟩ | ⟨newTable, h, h', hadded⟩
  · rw [hadded.state]
    exact hs.setEntry _ i fun _ => hkind
  · exact absurd rfl (malloc_ne_zero howned.owned.heap howned.pool_pos hnull)
  · have hnone := (howned.malloc (kernel_malloc_of_heap hadded.malloc)
      (o := .pending) (Nat.zero_le _)).1
    rw [hadded.state]
    refine HandleInv.keeps ?_ (keeps_heap _ h')
    constructor
    · intro x q j hx
      cases hx with
      | handle hq hliveq hj hne =>
          by_cases hqp : q = p
          · subst hqp
            rw [installTable_entry] at hne ⊢
            by_cases hlast : j = (s.task q).handleCount.toNat
            · rw [if_pos hlast]
              exact hkind
            · rw [if_neg hlast] at hne ⊢
              split at hne
              · next hold =>
                  rw [if_pos hold]
                  exact hs.kinds _ q j (Uses.handle hp hlive hold.2 hne)
              · exact absurd rfl hne
          · have hsame : (installTable s p newTable handle
                (s.task p).handleCount.toNat).task q = s.task q :=
              setTask_other _ _ _ hqp
            unfold KernelState.Live at hliveq
            rw [hsame] at hliveq hj
            have hq0 := howned.handles_ne_zero hq hliveq hj
            have hold : (s.task q).handles ≠ newTable := by
              intro heq
              have hlabel := howned.uses _ _ (Uses.table hq hliveq hq0)
              rw [heq, hnone] at hlabel
              cases hlabel
            rw [installTable_entry_other hqp hold] at hne ⊢
            exact hs.kinds _ q j (Uses.handle hq hliveq hj hne)
    · intro q hq hexited
      by_cases hqp : q = p
      · subst hqp
        have hself : ((installTable s q newTable handle
            (s.task q).handleCount.toNat).task q).state = (s.task q).state :=
          (installTable_view s q newTable handle _).state q
        rw [hself] at hexited
        exact absurd hexited hlive
      · have hsame : (installTable s p newTable handle
            (s.task p).handleCount.toNat).task q = s.task q :=
          setTask_other _ _ _ hqp
        rw [hsame] at hexited ⊢
        exact hs.ended q hq hexited

theorem HandleInv.openNode (hs : HandleInv s) (howned : KernelOwned s label)
    {node mode : Word} (hp : p ∈ s.taskList) (hlive : s.Live p)
    (hrun : openNode s p node mode = .ok s') : HandleInv s' := by
  rcases ok_bind_iff.mp hrun with ⟨⟨handle, fs⟩, hopen, hrun⟩
  dsimp only at hrun
  rcases fileOpen_opened hopen with ⟨_, rfl, rfl⟩ | ⟨_, h, hmalloc, rfl⟩
  · cases hrun
    exact hs
  · have hne := malloc_ne_zero howned.owned.heap howned.pool_pos hmalloc
    rw [if_neg hne, if_neg hne] at hrun
    rcases ok_bind_iff.mp hrun with ⟨⟨id, s₁⟩, hadd, hr⟩
    cases hr
    have hopened := hs.opened howned hmalloc (Eq.refl (openHandle
      { s.fs with heap := h } handle node fileFlag mode))
    have howned₁ := (howned.malloc (kernel_malloc_of_heap hmalloc)
      (o := .pending) (Nat.zero_le _)).2
    refine hopened.added (howned₁.setFs rfl) hp hlive (Or.inr ?_) hadd
    change asks ((openHandle _ _ _ _ _).handle handle).flags fileFlag = true
    rw [openHandle_handle, if_pos rfl]
    exact asks_or_self _ _ (by decide)

theorem closeFile_cases {id : Word} (hrun : closeFile s p id = .ok s') :
    s' = s ∨ exists fs, entryIndex id < (s.task p).handleCount.toNat ∧
      s.entry p (entryIndex id) ≠ 0 ∧
      closeHandle s.fs (s.entry p (entryIndex id)) = .ok fs ∧
      s' = { s with fs := fs }.setEntry (s.task p).handles (entryIndex id) 0 := by
  unfold closeFile taskGetHandle at hrun
  by_cases hi : entryIndex id < (s.task p).handleCount.toNat
  · rw [if_pos hi] at hrun
    dsimp only at hrun
    split at hrun
    · next hne =>
        rcases ok_bind_iff.mp hrun with ⟨fs, hclose, hr⟩
        cases hr
        refine Or.inr ⟨fs, hi, hne, hclose, ?_⟩
        unfold taskRemoveHandle
        rw [if_pos hi]
    · cases hrun
      exact Or.inl rfl
  · rw [if_neg hi] at hrun
    cases hrun
    exact Or.inl rfl

theorem SystemInv.closeFile (hs : SystemInv s) {id : Word} (hp : p ∈ s.taskList)
    (hlive : s.Live p) (hrun : closeFile s p id = .ok s') : SystemInv s' := by
  rcases hs.owned with ⟨label, howned⟩
  rcases closeFile_cases hrun with rfl | ⟨fs, hi, hne, hclose, rfl⟩
  · exact hs
  · exact ⟨howned.closeHandle hp hlive hi hne hclose, hs.current⟩

theorem HandleInv.closeFile (hs : HandleInv s) {id : Word}
    (hrun : closeFile s p id = .ok s') : HandleInv s' := by
  rcases closeFile_cases hrun with rfl | ⟨fs, _, _, hclose, rfl⟩
  · exact hs
  · have hfs : HandleInv { s with fs := fs } := by
      refine ⟨fun x q i hx => ?_, hs.ended⟩
      unfold Closable
      dsimp only
      rw [(closeHandle_eq hclose).2.2]
      cases hx with
      | handle hq hlive hi hne =>
          exact hs.kinds _ q i (Uses.handle (s := s) hq hlive hi hne)
    exact hfs.setEntry _ _ fun h => absurd rfl h

end Files

/-!
# Tasks that come and go
-/

section Tasks

variable {s s' : KernelState} {label : Word -> Option Owner} {p : Word}

theorem HandleInv.fork (hs : HandleInv s) (howned : KernelOwned s label)
    (hlive : s.Live s.currentTask) {segment : Word}
    (hrun : fork s = .ok (segment, s')) : HandleInv s' := by
  rcases fork_eq hrun with ⟨child, stack, s₁, s₂, htask, hstack, _, _, _, rfl⟩
  have hkeeps := (malloc_keeps htask).trans (malloc_keeps hstack)
  have hsame := (kernel_malloc_sameTasks htask).trans
    (kernel_malloc_sameTasks hstack)
  have hnew := howned.malloc_fresh htask
  have hold : forall q, q ∈ s.taskList -> q ≠ child :=
    fun q hq heq => hnew (heq ▸ hq)
  have hinv := hs.keeps hkeeps
  constructor
  · intro x q i hx
    cases hx with
    | handle hq hliveq hi hne =>
        rcases List.mem_cons.mp hq with rfl | hq
        · rw [setTask_self] at hi
          exact absurd hi (Nat.not_lt_zero i)
        · have hother := setTask_other
            ({ s₂ with
              mem := forkMem s segment stack
              segmentBitmap := (allocateSegment s.segmentBitmap).2
              taskList := child :: s.taskList } : KernelState) child
            (forkTask (s.task s.currentTask) segment stack) (hold q hq)
          unfold KernelState.Live at hliveq
          unfold KernelState.entry at hne ⊢
          rw [hother] at hliveq hi hne ⊢
          exact hinv.kinds _ q i
            (Uses.handle (s := s₂) (hsame.taskList ▸ hq) hliveq hi hne)
  · intro q hq hexited
    rcases List.mem_cons.mp hq with rfl | hq
    · rw [setTask_self, forkTask_state] at hexited
      exact absurd hexited hlive
    · rw [setTask_other _ _ _ (hold q hq)] at hexited ⊢
      exact hinv.ended q (hsame.taskList ▸ hq) hexited

theorem Released.handleInv {u : KernelState} (hu : Released s u p)
    (hs : HandleInv s) : HandleInv u := by
  have hother : forall q, q ≠ p -> u.task q = s.task q := by
    intro q hq
    rw [hu.tasks.task]
    exact setTask_other _ _ _ hq
  have hself : u.task p = exitedTask (s.task p) := by
    rw [hu.tasks.task]
    exact setTask_self _ _ _
  have hlist : u.taskList = s.taskList := hu.tasks.taskList
  constructor
  · intro x q i hx
    cases hx with
    | handle hq hlive hi hne =>
        by_cases hqp : q = p
        · subst hqp
          unfold KernelState.Live at hlive
          rw [hself] at hlive
          exact absurd rfl hlive
        · unfold KernelState.Live at hlive
          rw [hother q hqp] at hlive hi
          rw [hlist] at hq
          rw [hu.entries q hq hlive, if_neg fun h => hqp h.1] at hne ⊢
          unfold Closable
          rw [hu.handle]
          exact hs.kinds _ q i (Uses.handle hq hlive hi hne)
  · intro q hq hexited
    by_cases hqp : q = p
    · rw [hqp, hself]
      rfl
    · rw [hother q hqp] at hexited ⊢
      exact hs.ended q (hlist ▸ hq) hexited

theorem wakeWaiting_keeps (hrun : wakeWaiting s p = .ok s') : KeepsHandles s s' := by
  unfold wakeWaiting at hrun
  split at hrun
  · exact taskWakeup_keeps hrun
  · cases hrun
    exact KeepsHandles.refl _

theorem HandleInv.exit (hs : HandleInv s) (hsystem : SystemInv s)
    (hlive : s.Live s.currentTask)
    (hrun : taskExit s s.currentTask = .ok s') : HandleInv s' := by
  rcases hsystem.owned with ⟨label, howned⟩
  rcases ok_bind_iff.mp hrun with ⟨s₁, hrelease, hrun⟩
  rcases ok_bind_iff.mp hrun with ⟨s₂, hwake, hschedule⟩
  have hp0 := (releaseTask_pointers howned.owned.heap howned.pool_pos hrelease).1
  rcases releaseTask_released howned hsystem.current hlive hp0
    (fun i hi hne => hs.kinds _ _ i (Uses.handle hsystem.current hlive hi hne)) with
    ⟨u, hreleased, hu⟩
  cases hreleased.symm.trans hrelease
  have hs₁ := hu.handleInv hs
  exact hs₁.keeps ((wakeWaiting_keeps hwake).trans (taskSchedule_keeps hschedule))

end Tasks

/-!
# Every step
-/

section Steps

variable {s s' : KernelState}

theorem HandleInv.kernel (hs : HandleInv s) (hsystem : SystemInv s)
    (hstep : KernelStep s s') : HandleInv s' := by
  rcases hsystem.owned with ⟨label, howned⟩
  cases hstep with
  | user _ _ =>
      refine hs.keeps ((userStep_sameBlocks _ _).keeps rfl fun p hp => ?_)
      exact ((userStep_sources _ _).1.live p).mpr hp
  | fork hrunning hrun => exact hs.fork howned hrunning.live hrun
  | exit hrunning hrun => exact hs.exit hsystem hrunning.live hrun
  | sleep hrunning hrun =>
      rcases taskSleep_eq hrunning.live hrun with ⟨st, hst, hschedule⟩
      exact hs.keeps ((setState_keeps hrunning.live hst).trans
        (taskSchedule_keeps hschedule))
  | setWakeup _ hrun =>
      rcases setWakeup_eq hrun with ⟨x, s₁, queue, hmalloc, _, rfl⟩
      exact hs.keeps ((malloc_keeps hmalloc).trans keeps_sources)
  | irqSetWakeup _ hrun =>
      rcases irqSetWakeup_eq hrun with ⟨x, s₁, hmalloc, _, rfl⟩
      exact hs.keeps ((malloc_keeps hmalloc).trans keeps_sources)
  | @waitFor target _ _ =>
      refine hs.keeps ((setWaiting_sameBlocks _ _).keeps ?_ fun q hq => ?_)
      · unfold setWaiting
        split <;> rfl
      · unfold KernelState.Live at hq ⊢
        by_cases hzero : target = 0
        · unfold setWaiting
          rw [if_neg (not_not_intro hzero)]
          exact hq
        · rw [(setWaiting_task _ hzero).1]
          exact hq
  | openNode hrunning hrun =>
      exact hs.openNode howned hsystem.current hrunning.live hrun
  | tick hrun => exact hs.keeps (tick_keeps hrun)
  | irq hrun => exact hs.keeps (irq_keeps hrun)
  | schedule hrun => exact hs.keeps (taskSchedule_keeps hrun)
  | @dispatch p _ _ =>
      have hsame : SameBlocks s { s with currentTask := p } :=
        ⟨rfl, rfl, fun _ h => h, fun _ => rfl, fun _ => rfl, fun _ => rfl, rfl,
          rfl, rfl⟩
      exact hs.keeps (hsame.keeps rfl fun _ h => h)

theorem SystemInv.free (hs : SystemInv s) {b : Nat}
    (htaken : s.fs.heap.taken b = true)
    (hunused : forall o, ¬ Uses s (s.fs.heap.address b) o)
    (hrun : s.free (s.fs.heap.address b) = .ok s') : SystemInv s' := by
  rcases hs.owned with ⟨label, howned⟩
  have hpending : KernelOwned s (Function.update label (s.fs.heap.address b)
      (some .pending)) := by
    refine ⟨⟨howned.owned.heap, ?_⟩, howned.pool_pos, howned.tasks_nodup,
      howned.noTable, howned.alarms_nodup, howned.waits_nodup, ?_⟩
    · intro x o hx
      by_cases hxb : x = s.fs.heap.address b
      · rw [hxb, Function.update_self] at hx
        cases hx
        exact ⟨b, htaken, hxb.symm, Nat.zero_le _⟩
      · rw [Function.update_of_ne hxb] at hx
        exact howned.owned.taken x o hx
    · intro x o hx
      have hxb : x ≠ s.fs.heap.address b := fun heq => hunused o (heq ▸ hx)
      rw [Function.update_of_ne hxb]
      exact howned.uses x o hx
  have hsame := kernel_free_sameTasks hrun
  refine ⟨⟨_, hpending.free (Function.update_self ..) hunused hrun⟩, ?_⟩
  rw [hsame.currentTask, hsame.taskList]
  exact hs.current

theorem taskStep_inv (hsystem : SystemInv s) (hs : HandleInv s)
    (hstep : TaskStep s s') : SystemInv s' ∧ HandleInv s' := by
  rcases hsystem.owned with ⟨label, howned⟩
  cases hstep with
  | kernel hkernel => exact ⟨hsystem.step hkernel, hs.kernel hsystem hkernel⟩
  | closeFile hrunning hrun =>
      exact ⟨hsystem.closeFile hsystem.current hrunning.live hrun, hs.closeFile hrun⟩
  | malloc hrun =>
      have hsame := kernel_malloc_sameTasks hrun
      refine ⟨⟨⟨_, (howned.malloc hrun (o := .pending) (Nat.zero_le _)).2⟩, ?_⟩,
        hs.keeps (malloc_keeps hrun)⟩
      rw [hsame.currentTask, hsame.taskList]
      exact hsystem.current
  | free htaken hunused hrun =>
      exact ⟨hsystem.free htaken hunused hrun, hs.keeps (free_keeps hrun)⟩
  | @files fs hheap hflags =>
      have huses : forall x p i, Uses { s with fs := fs } x (.handle p i) ->
          Uses s x (.handle p i) := by
        intro x p i hx
        cases hx with
        | handle hp hlive hi hne => exact Uses.handle (s := s) hp hlive hi hne
      refine ⟨⟨⟨label, howned.setFs hheap⟩, hsystem.current⟩, fun x p i hx => ?_,
        hs.ended⟩
      have hbefore := huses x p i hx
      unfold Closable
      dsimp only
      rw [hflags x p i hbefore]
      exact hs.kinds x p i hbefore

theorem Started.handleInv (hs : Started s) : HandleInv s := by
  rcases hs with ⟨boot, hboot, hrun⟩
  rcases taskInit_eq hboot hrun with ⟨p, stack, s₁, s₂, _, _, _, rfl⟩
  constructor
  · intro x q i hx
    cases hx with
    | handle hq hlive hi hne =>
        rcases List.mem_singleton.mp hq with rfl
        rw [setTask_self] at hi
        exact absurd hi (Nat.not_lt_zero i)
  · intro q hq hexited
    rcases List.mem_singleton.mp hq with rfl
    rw [setTask_self] at hexited
    cases hexited

end Steps

theorem taskRun_inv {s : KernelState} (hs : Reachable Started TaskStep s) :
    SystemInv s ∧ HandleInv s := by
  apply hs.invariant (I := fun s => SystemInv s ∧ HandleInv s)
  · exact fun s hs => ⟨hs.inv, hs.handleInv⟩
  · exact fun s s' hs hstep => taskStep_inv hs.1 hs.2 hstep

end Kernel
end Rmmtos
