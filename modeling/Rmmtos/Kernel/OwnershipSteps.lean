import Rmmtos.Kernel.TaskOwnership

/-!
# The operations keep the owners apart

One lemma for each operation that takes or releases blocks.
-/

namespace Rmmtos
namespace Kernel

open Library Fs

section Steps

variable {s s' : KernelState} {label : Word -> Option Owner}

theorem KernelOwned.use_eq (hs : KernelOwned s label) {p : Word} {o o' : Owner}
    (hp : label p = some o) (huse : Uses s p o') : o' = o := by
  have hlabel := hs.uses p o' huse
  rw [hp] at hlabel
  exact (Option.some.inj hlabel).symm

/-!
# Alarms
-/

def withQueue (s : KernelState) (queue : List (ClockAlarm Word)) :
    KernelState :=
  { s with clock := { s.clock with alarmQueue := queue } }

theorem SameBlocks.replaceQueue (h : SameBlocks s s')
    (queue : List (ClockAlarm Word)) :
    SameBlocks (withQueue s queue) (withQueue s' queue) :=
  ⟨h.heap, h.taskList, h.live, h.stack, h.handles, h.handleCount,
    h.handleTable, rfl, h.irqEvents⟩

theorem setWakeup_eq {task ms : Word} (hrun : s.setWakeup task ms = .ok s') :
    exists p s₁ queue, s.malloc clockAlarmSize = .ok (p, s₁) ∧
      insertAlarm ⟨p, ms, task⟩ s.clock.alarmQueue = .ok queue ∧
      s' = withQueue s₁ queue := by
  rcases ok_bind_iff.mp hrun with ⟨r, hset, hr⟩
  rcases ok_bind_iff.mp hset with ⟨⟨p, s₁⟩, hmalloc, hset⟩
  have hclock := (kernel_malloc_sameTasks hmalloc).clock
  dsimp only at hset
  split at hset
  · cases hset
  · rcases ok_bind_iff.mp hset with ⟨queue, hinsert, hset⟩
    cases hset
    cases hr
    refine ⟨p, s₁, queue, hmalloc, hinsert, ?_⟩
    rw [withQueue, hclock]

theorem KernelOwned.replaceQueue (hs : KernelOwned s label)
    {queue : List (ClockAlarm Word)}
    (hnodup : (queue.map ClockAlarm.address).Nodup)
    (halarms : forall a, a ∈ queue -> label a.address = some .alarm) :
    KernelOwned (withQueue s queue) label := by
  refine ⟨hs.owned, hs.pool_pos, hs.tasks_nodup, hs.noTable, hnodup,
    hs.waits_nodup, ?_⟩
  intro x o hx
  cases hx with
  | task hp => exact hs.uses _ _ (Uses.task hp)
  | stack hp hlive => exact hs.uses _ _ (Uses.stack hp hlive)
  | table hp hlive hne => exact hs.uses _ _ (Uses.table hp hlive hne)
  | handle hp hlive hi hne => exact hs.uses _ _ (Uses.handle hp hlive hi hne)
  | alarm ha => exact halarms _ ha
  | irqWait hw => exact hs.uses _ _ (Uses.irqWait hw)

theorem KernelOwned.setWakeup (hs : KernelOwned s label) {task ms : Word}
    (hrun : s.setWakeup task ms = .ok s') :
    exists label', KernelOwned s' label' := by
  rcases setWakeup_eq hrun with ⟨p, s₁, queue, hmalloc, hinsert, rfl⟩
  rcases hs.malloc hmalloc (o := .alarm) (Nat.zero_le _) with ⟨hnone, hs₁⟩
  have hclock := (kernel_malloc_sameTasks hmalloc).clock
  have hperm := (insertAlarm_perm hinsert).map Prod.fst
  rw [List.map_map, List.map_cons, List.map_map] at hperm
  have hperm : (queue.map ClockAlarm.address).Perm
      (p :: s.clock.alarmQueue.map ClockAlarm.address) := hperm
  have hfresh : p ∉ s.clock.alarmQueue.map ClockAlarm.address := by
    intro hmem
    rcases List.mem_map.mp hmem with ⟨a, ha, rfl⟩
    exact hs.unused hnone (Uses.alarm ha)
  refine ⟨_, hs₁.replaceQueue ?_ ?_⟩
  · exact hperm.nodup_iff.mpr (List.nodup_cons.mpr ⟨hfresh, hs.alarms_nodup⟩)
  · intro a ha
    rcases List.mem_cons.mp (hperm.mem_iff.mp (List.mem_map_of_mem ha)) with
      heq | hmem
    · rw [heq, Function.update_self]
    · rcases List.mem_map.mp hmem with ⟨b, hb, hba⟩
      rw [← hclock] at hb
      rw [← hba]
      exact hs₁.uses _ _ (Uses.alarm hb)

theorem kernel_free_withQueue {p : Word} {q : List (ClockAlarm Word)}
    (hrun : s.free p = .ok s') :
    (withQueue s q).free p = .ok (withQueue s' q) := by
  rcases ok_bind_iff.mp hrun with ⟨fs, hfs, hr⟩
  cases hr
  exact ok_bind_iff.mpr ⟨fs, hfs, rfl⟩

theorem KernelOwned.dropAlarm {a : ClockAlarm Word}
    {rest : List (ClockAlarm Word)} {s₁ : KernelState}
    (hs : KernelOwned (withQueue s (a :: rest)) label)
    (hwake : taskWakeup a.task s = .ok s₁) (hfree : s₁.free a.address = .ok s') :
    exists label', KernelOwned (withQueue s' rest) label' := by
  have hs₁ := hs.same ((taskWakeup_same hwake).replaceQueue (a :: rest))
  have hlabel : label a.address = some .alarm :=
    hs₁.uses _ _ (Uses.alarm List.mem_cons_self)
  have hnodup := List.nodup_cons.mp hs₁.alarms_nodup
  have hrest : KernelOwned (withQueue s₁ rest) label :=
    hs₁.replaceQueue hnodup.2 fun b hb =>
      hs₁.uses _ _ (Uses.alarm (List.mem_cons_of_mem a hb))
  refine ⟨_, hrest.free hlabel ?_ (kernel_free_withQueue hfree)⟩
  intro o' huse
  have ho := hrest.use_eq hlabel huse
  subst ho
  exact hnodup.1 huse.alarm_mem

theorem KernelOwned.clockTick (hs : KernelOwned s label)
    (hrun : s.clockTick = .ok s') : exists label', KernelOwned s' label' := by
  rcases ok_bind_iff.mp hrun with ⟨r, htick, hr⟩
  rcases ok_bind_iff.mp htick with ⟨⟨queue, s₁⟩, hwake, htick⟩
  cases htick
  cases hr
  rw [Clock.count_alarmQueue] at hwake
  have hstart : exists label',
      KernelOwned (withQueue s s.clock.alarmQueue) label' := ⟨label, hs⟩
  have hend := wakeDue_invariant (c := kernelCalls)
    (I := fun queue s => exists label', KernelOwned (withQueue s queue) label')
    ?_ ?_ hwake hstart
  · rcases hend with ⟨label', hend⟩
    exact ⟨label', hend.same ⟨rfl, rfl, fun _ h => h, fun _ => rfl, fun _ => rfl,
      fun _ => rfl, rfl, rfl, rfl⟩⟩
  · rintro a rest s s₁ s₂ ⟨label', hs⟩ hwake hfree
    exact hs.dropAlarm hwake hfree
  · rintro a rest s d ⟨label', hs⟩
    refine ⟨label', hs.replaceQueue hs.alarms_nodup fun b hb => ?_⟩
    rcases List.mem_cons.mp hb with rfl | hb
    · exact hs.uses a.address _ (Uses.alarm List.mem_cons_self)
    · exact hs.uses _ _ (Uses.alarm (List.mem_cons_of_mem a hb))

/-!
# Interrupt waits
-/

def withWaits (s : KernelState) (irq : Nat) (waits : List IrqWait) :
    KernelState :=
  { s with irqEvents := Function.update s.irqEvents irq waits }

theorem KernelOwned.replaceWaits (hs : KernelOwned s label) {i : Nat}
    {waits : List IrqWait} (hnodup : (waits.map IrqWait.address).Nodup)
    (hwaits : forall w, w ∈ waits -> label w.address = some (.irqWait i)) :
    KernelOwned (withWaits s i waits) label := by
  refine ⟨hs.owned, hs.pool_pos, hs.tasks_nodup, hs.noTable, hs.alarms_nodup,
    ?_, ?_⟩
  · intro n
    by_cases hn : n = i
    · subst hn
      change ((Function.update s.irqEvents n waits n).map _).Nodup
      rw [Function.update_self]
      exact hnodup
    · change ((Function.update s.irqEvents i waits n).map _).Nodup
      rw [Function.update_of_ne hn]
      exact hs.waits_nodup n
  · intro x o hx
    cases hx with
    | task hp => exact hs.uses _ _ (Uses.task hp)
    | stack hp hlive => exact hs.uses _ _ (Uses.stack hp hlive)
    | table hp hlive hne => exact hs.uses _ _ (Uses.table hp hlive hne)
    | handle hp hlive hi hne => exact hs.uses _ _ (Uses.handle hp hlive hi hne)
    | alarm ha => exact hs.uses _ _ (Uses.alarm ha)
    | @irqWait n w hw =>
        change w ∈ Function.update s.irqEvents i waits n at hw
        by_cases hn : n = i
        · subst hn
          rw [Function.update_self] at hw
          exact hwaits w hw
        · rw [Function.update_of_ne hn] at hw
          exact hs.uses _ _ (Uses.irqWait hw)

theorem irqSetWakeup_eq {task : Word} {irq : Nat}
    (hrun : irqSetWakeup s task irq = .ok s') :
    exists p s₁, s.malloc irqWaitSize = .ok (p, s₁) ∧ irq < irqCount ∧
      s' = withWaits s₁ irq (⟨p, task⟩ :: s.irqEvents irq) := by
  rcases ok_bind_iff.mp hrun with ⟨⟨p, s₁⟩, hmalloc, hset⟩
  have hevents := (kernel_malloc_sameTasks hmalloc).irqEvents
  dsimp only at hset
  split at hset
  · cases hset
  · next hirq =>
      split at hset
      · cases hset
      · cases hset
        refine ⟨p, s₁, hmalloc, Nat.lt_of_not_le hirq, ?_⟩
        rw [withWaits, hevents]

theorem KernelOwned.irqSetWakeup (hs : KernelOwned s label) {task : Word}
    {irq : Nat} (hrun : irqSetWakeup s task irq = .ok s') :
    exists label', KernelOwned s' label' := by
  rcases irqSetWakeup_eq hrun with ⟨p, s₁, hmalloc, _, rfl⟩
  rcases hs.malloc hmalloc (o := .irqWait irq) (Nat.zero_le _) with
    ⟨hnone, hs₁⟩
  have hevents := (kernel_malloc_sameTasks hmalloc).irqEvents
  refine ⟨_, hs₁.replaceWaits ?_ ?_⟩
  · refine List.nodup_cons.mpr ⟨?_, hs.waits_nodup irq⟩
    intro hmem
    rcases List.mem_map.mp hmem with ⟨w, hw, rfl⟩
    exact hs.unused hnone (Uses.irqWait hw)
  · intro w hw
    rcases List.mem_cons.mp hw with rfl | hw
    · exact Function.update_self ..
    · rw [← hevents] at hw
      exact hs₁.uses _ _ (Uses.irqWait hw)

theorem kernel_free_withWaits {p : Word} {n : Nat} {l : List IrqWait}
    (hrun : s.free p = .ok s') :
    (withWaits s n l).free p = .ok (withWaits s' n l) := by
  rcases ok_bind_iff.mp hrun with ⟨fs, hfs, hr⟩
  cases hr
  exact ok_bind_iff.mpr ⟨fs, hfs, rfl⟩

theorem SameBlocks.replaceWaits (h : SameBlocks s s') (irq : Nat)
    (waits : List IrqWait) :
    SameBlocks (withWaits s irq waits) (withWaits s' irq waits) := by
  refine ⟨h.heap, h.taskList, h.live, h.stack, h.handles, h.handleCount,
    h.handleTable, h.alarms, ?_⟩
  change Function.update s'.irqEvents irq waits = _
  rw [h.irqEvents]
  rfl

theorem KernelOwned.dropWait {w : IrqWait} {irq : Nat} {rest : List IrqWait}
    {s₁ : KernelState} (hs : KernelOwned (withWaits s irq (w :: rest)) label)
    (hwake : taskWakeup w.task s = .ok s₁) (hfree : s₁.free w.address = .ok s') :
    exists label', KernelOwned (withWaits s' irq rest) label' := by
  have hs₁ := hs.same ((taskWakeup_same hwake).replaceWaits irq (w :: rest))
  have hevents : (withWaits s₁ irq (w :: rest)).irqEvents irq = w :: rest :=
    Function.update_self ..
  have hlabels : forall v, v ∈ w :: rest ->
      label v.address = some (.irqWait irq) := by
    intro v hv
    rw [← hevents] at hv
    exact hs₁.uses _ _ (Uses.irqWait hv)
  have hlabel := hlabels w List.mem_cons_self
  have hnodup := hs₁.waits_nodup irq
  rw [hevents] at hnodup
  have hnodup := List.nodup_cons.mp hnodup
  have hrest : KernelOwned (withWaits s₁ irq rest) label := by
    have hagain := hs₁.replaceWaits (i := irq) hnodup.2
      fun v hv => hlabels v (List.mem_cons_of_mem w hv)
    unfold withWaits at hagain ⊢
    simpa only [Function.update_idem] using hagain
  refine ⟨_, hrest.free hlabel ?_ (kernel_free_withWaits hfree)⟩
  intro o' huse
  have ho := hrest.use_eq hlabel huse
  subst ho
  have hmem := huse.irqWait_mem
  change _ ∈ (Function.update s₁.irqEvents irq rest irq).map _ at hmem
  rw [Function.update_self] at hmem
  exact hnodup.1 hmem

theorem KernelOwned.irqResume (hs : KernelOwned s label) {irq : Nat}
    (hrun : irqResumeWaitingTasks s irq = .ok s') :
    exists label', KernelOwned s' label' := by
  rcases ok_bind_iff.mp hrun with ⟨s₁, hresume, hr⟩
  cases hr
  have hstart : exists label',
      KernelOwned (withWaits s irq (s.irqEvents irq)) label' := by
    refine ⟨label, ?_⟩
    rw [withWaits, Function.update_eq_self]
    exact hs
  refine resumeTasks_invariant
    (I := fun waits s => exists label',
      KernelOwned (withWaits s irq waits) label') ?_ hresume hstart
  rintro w rest s s₁ s₂ ⟨label', hs⟩ hwake hfree
  exact hs.dropWait hwake hfree

/-!
# Handles
-/

theorem setEntry_entry (table : Word) (i : Nat) (h : Word) (q : Word) (j : Nat) :
    (s.setEntry table i h).entry q j =
      if (s.task q).handles = table ∧ j = i then h else s.entry q j := by
  unfold KernelState.entry KernelState.setEntry
  by_cases htable : (s.task q).handles = table
  · by_cases hj : j = i
    · subst hj
      simp [htable]
    · simp [htable, hj]
  · simp [htable]

/-- Two live tasks with handles do not share a table. -/
theorem KernelOwned.table_inj (hs : KernelOwned s label) {p q : Word} {i : Nat}
    (hp : p ∈ s.taskList) (hlivep : s.Live p) (hq : q ∈ s.taskList)
    (hliveq : s.Live q) (hi : i < (s.task q).handleCount.toNat)
    (hp0 : (s.task p).handles ≠ 0)
    (heq : (s.task q).handles = (s.task p).handles) : q = p := by
  have hq0 := hs.handles_ne_zero hq hliveq hi
  have hlabelp := hs.uses _ _ (Uses.table hp hlivep hp0)
  have hlabelq := hs.uses _ _ (Uses.table hq hliveq hq0)
  rw [heq, hlabelp] at hlabelq
  injection hlabelq with howner
  injection howner with hpq
  exact hpq.symm

theorem KernelOwned.setEntry (hs : KernelOwned s label) {p h : Word} {i : Nat}
    {label' : Word -> Option Owner}
    (howned : Owned Owner.size s.fs.heap label')
    (hkeep : forall x o, Uses s x o -> o ≠ .handle p i -> label' x = some o)
    (hp : p ∈ s.taskList) (hlive : s.Live p) (hp0 : (s.task p).handles ≠ 0)
    (hnew : h ≠ 0 -> label' h = some (.handle p i)) :
    KernelOwned (s.setEntry (s.task p).handles i h) label' := by
  refine ⟨howned, hs.pool_pos, hs.tasks_nodup, hs.noTable, hs.alarms_nodup,
    hs.waits_nodup, ?_⟩
  intro x o hx
  cases hx with
  | task hq => exact hkeep _ _ (Uses.task hq) (by simp)
  | stack hq hliveq => exact hkeep _ _ (Uses.stack (s := s) hq hliveq) (by simp)
  | table hq hliveq hne =>
      exact hkeep _ _ (Uses.table (s := s) hq hliveq hne) (by simp)
  | @handle q j hq hliveq hj hne =>
      rw [setEntry_entry] at hne ⊢
      by_cases hcase : (s.task q).handles = (s.task p).handles ∧ j = i
      · rw [if_pos hcase] at hne ⊢
        have hqp := hs.table_inj hp hlive hq hliveq hj hp0 hcase.1
        rw [hqp, hcase.2]
        exact hnew hne
      · rw [if_neg hcase] at hne ⊢
        refine hkeep _ _ (Uses.handle hq hliveq hj hne) ?_
        intro heq
        injection heq with hqp hji
        exact hcase ⟨by rw [hqp], hji⟩
  | alarm ha => exact hkeep _ _ (Uses.alarm (s := s) ha) (by simp)
  | irqWait hw => exact hkeep _ _ (Uses.irqWait (s := s) hw) (by simp)

theorem KernelOwned.setFs {h : Heap} {fs : FsState}
    (hs : KernelOwned { s with fs := { s.fs with heap := h } } label)
    (hfs : fs.heap = h) : KernelOwned { s with fs := fs } label := by
  refine hs.same ⟨hfs, rfl, fun _ h => h, fun _ => rfl, fun _ => rfl,
    fun _ => rfl, rfl, rfl, rfl⟩

theorem closeHandle_heap {fs fs' : FsState} {handle : Word}
    (hrun : closeHandle fs handle = .ok fs') :
    Kernel.free fs.heap handle = .ok fs'.heap := by
  rcases ok_bind_iff.mp hrun with ⟨h, hfree, hr⟩
  cases hr
  exact hfree

theorem kernel_free_of_heap {p : Word} {h : Heap}
    (hfree : Kernel.free s.fs.heap p = .ok h) :
    s.free p = .ok { s with fs := { s.fs with heap := h } } :=
  ok_bind_iff.mpr ⟨_, ok_bind_iff.mpr ⟨h, hfree, rfl⟩, rfl⟩

theorem KernelOwned.closeHandle (hs : KernelOwned s label) {p : Word} {i : Nat}
    {fs : FsState} (hp : p ∈ s.taskList) (hlive : s.Live p)
    (hi : i < (s.task p).handleCount.toNat) (hne : s.entry p i ≠ 0)
    (hrun : closeHandle s.fs (s.entry p i) = .ok fs) :
    exists label',
      KernelOwned ({ s with fs := fs }.setEntry (s.task p).handles i 0)
        label' := by
  have hp0 := hs.handles_ne_zero hp hlive hi
  have hlabel := hs.uses _ _ (Uses.handle hp hlive hi hne)
  have hclear : KernelOwned (s.setEntry (s.task p).handles i 0) label :=
    hs.setEntry hs.owned (fun x o hx _ => hs.uses x o hx) hp hlive hp0
      (fun h => absurd rfl h)
  have hfree := kernel_free_of_heap (s := s.setEntry (s.task p).handles i 0)
    (closeHandle_heap hrun)
  refine ⟨_, (hclear.free hlabel ?_ hfree).setFs rfl⟩
  intro o' huse
  have ho := hclear.use_eq hlabel huse
  subst ho
  have hcleared := huse.entry_ne_zero
  rw [setEntry_entry, if_pos ⟨rfl, rfl⟩] at hcleared
  exact hcleared rfl

theorem KernelOwned.closeEntry (hs : KernelOwned s label) {p : Word} {i : Nat}
    (hp : p ∈ s.taskList) (hlive : s.Live p)
    (hi : i < (s.task p).handleCount.toNat)
    (hrun : closeEntry (s.task p).handles s i = .ok s') :
    (exists label', KernelOwned s' label') ∧ SameTasks s s' := by
  unfold Kernel.closeEntry at hrun
  dsimp only at hrun
  split at hrun
  · cases hrun
    exact ⟨⟨label, hs⟩, SameTasks.refl s⟩
  · next hne =>
      have hsame : forall fs, SameTasks s
          ({ s with fs := fs }.setEntry (s.task p).handles i 0) :=
        fun fs => ⟨rfl, rfl, rfl, rfl, rfl, rfl⟩
      split at hrun
      · rcases ok_bind_iff.mp hrun with ⟨fs, hclose, hr⟩
        cases hr
        exact ⟨hs.closeHandle hp hlive hi hne hclose, hsame fs⟩
      · split at hrun
        · rcases ok_bind_iff.mp hrun with ⟨fs, hclose, hr⟩
          cases hr
          exact ⟨hs.closeHandle hp hlive hi hne hclose, hsame fs⟩
        · cases hrun
          exact ⟨⟨label, hs⟩, SameTasks.refl s⟩

theorem KernelOwned.closeEntries (hs : KernelOwned s label) {p : Word}
    (hp : p ∈ s.taskList) (hlive : s.Live p)
    (hrun : closeEntries (s.task p).handles s (s.task p).handleCount.toNat =
      .ok s') :
    (exists label', KernelOwned s' label') ∧ SameTasks s s' := by
  refine foldlM_invariant
    (I := fun t => (exists label', KernelOwned t label') ∧ SameTasks s t) ?_
    hrun ⟨⟨label, hs⟩, SameTasks.refl s⟩
  rintro i hi t t' ⟨⟨label', ht⟩, hsame⟩ hturn
  have hi := List.mem_range.mp hi
  have hlive' := hsame.live hlive
  rw [← hsame.task] at hturn hi
  rcases ht.closeEntry (hsame.taskList ▸ hp) hlive' hi hturn with
    ⟨hnext, hsame'⟩
  exact ⟨hnext, hsame.trans hsame'⟩

def exitedTask (t : Task) : Task :=
  { t with handleCount := 0, state := .exited, stack := 0 }

theorem KernelOwned.setExited (hs : KernelOwned s label) {p : Word} {t : Task}
    (ht : t.state = .exited) : KernelOwned (s.setTask p t) label := by
  have hlive : forall q, (s.setTask p t).Live q ->
      s.Live q ∧ (s.setTask p t).task q = s.task q := by
    intro q hq
    by_cases hqp : q = p
    · rw [hqp] at hq
      unfold KernelState.Live at hq
      rw [setTask_self] at hq
      exact absurd ht hq
    · have hsame := setTask_other s p t hqp
      unfold KernelState.Live at hq ⊢
      rw [hsame] at hq
      exact ⟨hq, hsame⟩
  refine ⟨hs.owned, hs.pool_pos, hs.tasks_nodup, ?_, hs.alarms_nodup,
    hs.waits_nodup, ?_⟩
  · intro q hq hliveq
    rcases hlive q hliveq with ⟨hliveq, hsame⟩
    rw [hsame]
    exact hs.noTable q hq hliveq
  · intro x o hx
    cases hx with
    | task hq => exact hs.uses _ _ (Uses.task hq)
    | stack hq hliveq =>
        rcases hlive _ hliveq with ⟨hliveq, hsame⟩
        rw [hsame]
        exact hs.uses _ _ (Uses.stack hq hliveq)
    | table hq hliveq hne =>
        rcases hlive _ hliveq with ⟨hliveq, hsame⟩
        rw [hsame] at hne ⊢
        exact hs.uses _ _ (Uses.table hq hliveq hne)
    | handle hq hliveq hi hne =>
        rcases hlive _ hliveq with ⟨hliveq, hsame⟩
        unfold KernelState.entry at hne ⊢
        rw [hsame] at hi hne ⊢
        exact hs.uses _ _ (Uses.handle hq hliveq hi hne)
    | alarm ha => exact hs.uses _ _ (Uses.alarm ha)
    | irqWait hw => exact hs.uses _ _ (Uses.irqWait hw)

theorem kernel_free_setTask {x p : Word} {t : Task} (hrun : s.free x = .ok s') :
    (s.setTask p t).free x = .ok (s'.setTask p t) := by
  rcases ok_bind_iff.mp hrun with ⟨fs, hfs, hr⟩
  cases hr
  exact ok_bind_iff.mpr ⟨fs, hfs, rfl⟩

/-- The state a task leaves behind. -/
def afterExit (s : KernelState) (p : Word) : KernelState :=
  { s with segmentBitmap := freeSegment s.segmentBitmap (s.task p).segment
    }.setTask p (exitedTask (s.task p))

theorem KernelOwned.releaseTask (hs : KernelOwned s label) {p : Word}
    (hp : p ∈ s.taskList) (hlive : s.Live p)
    (hrun : releaseTask s p = .ok s') :
    SameTasks (afterExit s p) s' ∧ exists label', KernelOwned s' label' := by
  rcases ok_bind_iff.mp hrun with ⟨s₁, hclose, hrun⟩
  rcases ok_bind_iff.mp hrun with ⟨s₂, htable, hrun⟩
  rcases ok_bind_iff.mp hrun with ⟨s₃, hstack, hrun⟩
  cases hrun
  have hbitmap : KernelOwned { s with
      segmentBitmap := freeSegment s.segmentBitmap (s.task p).segment } label :=
    hs.same ⟨rfl, rfl, fun _ h => h, fun _ => rfl, fun _ => rfl, fun _ => rfl,
      rfl, rfl, rfl⟩
  rcases hbitmap.closeEntries hp hlive hclose with ⟨⟨label₁, hs₁⟩, hsame₁⟩
  have hsame₂ := kernel_free_sameTasks htable
  have hp₁ : p ∈ s₁.taskList := hsame₁.taskList ▸ hp
  have hlive₁ : s₁.Live p := hsame₁.live hlive
  have hp0 : (s₁.task p).handles ≠ 0 := by
    intro hzero
    rw [hzero] at htable
    exact hs₁.free_zero htable
  have htableLabel := hs₁.uses _ _ (Uses.table hp₁ hlive₁ hp0)
  have hstackLabel := hs₁.uses _ _ (Uses.stack hp₁ hlive₁)
  have hne : (s₁.task p).stack ≠ (s₁.task p).handles := by
    intro heq
    rw [heq, htableLabel] at hstackLabel
    cases hstackLabel
  have hdead : forall (u : KernelState) (t : Task), t.state = .exited ->
      ¬ (u.setTask p t).Live p := by
    intro u t ht hlive
    unfold KernelState.Live at hlive
    rw [setTask_self] at hlive
    exact hlive ht
  rw [setTask_self, hsame₂.task] at hstack
  have hs₂ : KernelOwned (s₂.setTask p
      { s₁.task p with handleCount := 0, state := .exited })
      (Function.update label₁ (s₁.task p).handles none) := by
    refine (hs₁.setExited rfl).free htableLabel ?_ (kernel_free_setTask htable)
    intro o' huse
    have ho := (hs₁.setExited rfl).use_eq htableLabel huse
    subst ho
    exact hdead _ _ rfl huse.table_live
  have hs₃ : exists label', KernelOwned s₃ label' := by
    have hlabel := (Function.update_of_ne hne none label₁).trans hstackLabel
    refine ⟨_, hs₂.free hlabel ?_ hstack⟩
    intro o' huse
    have ho := hs₂.use_eq hlabel huse
    subst ho
    exact hdead _ _ rfl huse.stack_live
  have hsame₃ := kernel_free_sameTasks hstack
  rcases hs₃ with ⟨label₃, hs₃⟩
  refine ⟨?_, ⟨label₃, hs₃.setExited ?_⟩⟩
  · refine ⟨?_, ?_, ?_, ?_, ?_, ?_⟩
    · unfold afterExit KernelState.setTask
      rw [hsame₃.task]
      unfold KernelState.setTask
      simp only [Function.update_self, Function.update_idem, hsame₂.task,
        hsame₁.task, exitedTask]
    · exact (hsame₃.taskList.trans hsame₂.taskList).trans hsame₁.taskList
    · exact (hsame₃.currentTask.trans hsame₂.currentTask).trans hsame₁.currentTask
    · exact (hsame₃.segmentBitmap.trans hsame₂.segmentBitmap).trans
        hsame₁.segmentBitmap
    · exact (hsame₃.clock.trans hsame₂.clock).trans hsame₁.clock
    · exact (hsame₃.irqEvents.trans hsame₂.irqEvents).trans hsame₁.irqEvents
  · rw [hsame₃.task, setTask_self]

theorem KernelOwned.taskExit (hs : KernelOwned s label) {p : Word}
    (hp : p ∈ s.taskList) (hlive : s.Live p) (hrun : taskExit s p = .ok s') :
    exists s₁ s₂, SameTasks (afterExit s p) s₁ ∧
      (exists label', KernelOwned s₁ label') ∧ wakeWaiting s₁ p = .ok s₂ ∧
      taskSchedule s₂ = .ok s' := by
  rcases ok_bind_iff.mp hrun with ⟨s₁, hrelease, hrun⟩
  rcases ok_bind_iff.mp hrun with ⟨s₂, hwake, hrun⟩
  rcases hs.releaseTask hp hlive hrelease with ⟨hsame, howned⟩
  exact ⟨s₁, s₂, hsame, howned, hwake, hrun⟩

theorem fileOpen_eq {fs fs' : FsState} {node mode p : Word}
    (hrun : fileOpen fs node mode = .ok (p, fs')) :
    fs' = fs ∧ p = 0 ∨
      Kernel.malloc fs.heap fileHandleSize = .ok (p, fs'.heap) := by
  unfold fileOpen at hrun
  split at hrun
  · cases hrun
    exact Or.inl ⟨rfl, rfl⟩
  · split at hrun
    · cases hrun
    · rcases ok_bind_iff.mp hrun with ⟨r, hmalloc, hrun⟩
      rcases ok_bind_iff.mp hmalloc with ⟨r', hheap, hr'⟩
      cases hr'
      right
      split at hrun
      · cases hrun
        exact hheap
      · cases hrun
        exact hheap

/-- A task with one more handle, in a table that may be a longer copy. -/
def installTable (s : KernelState) (p newTable handle : Word) (count : Nat) :
    KernelState :=
  ((growTable s newTable (s.task p).handles count).setTask p { s.task p with
    handles := newTable
    handleCount := BitVec.ofNat 8 (count + 5) }).setEntry newTable count handle

theorem installTable_entry {p newTable handle : Word} {count i : Nat} :
    (installTable s p newTable handle count).entry p i =
      if i = count then handle
      else if (s.task p).handles ≠ 0 ∧ i < count then s.entry p i else 0 := by
  unfold KernelState.entry installTable
  simp only [KernelState.setEntry, KernelState.setTask, growTable,
    Function.update_self, Function.update_apply]

theorem installTable_entry_other {p q newTable handle : Word} {count i : Nat}
    (hq : q ≠ p) (hne : (s.task q).handles ≠ newTable) :
    (installTable s p newTable handle count).entry q i = s.entry q i := by
  unfold KernelState.entry installTable
  simp only [KernelState.setEntry, KernelState.setTask, growTable,
    Function.update_of_ne hq, Function.update_of_ne hne]

theorem KernelOwned.installTable (hs : KernelOwned s label)
    {p newTable handle : Word} (hp : p ∈ s.taskList) (hlive : s.Live p)
    (hnew : newTable ≠ 0) (htable : label newTable = some .pending)
    (hhandle : label handle = some .pending) (hne : handle ≠ newTable) :
    exists label', KernelOwned (installTable s p newTable handle
      (s.task p).handleCount.toNat) label' ∧
      forall x o, label x = some o -> o ≠ .pending -> label' x = some o := by
  let label₁ := Function.update label newTable (some (.table p))
  have hhandle₁ : label₁ handle = some .pending :=
    (Function.update_of_ne hne ..).trans hhandle
  let label₂ := Function.update label₁ handle
    (some (.handle p (s.task p).handleCount.toNat))
  have howned : Owned Owner.size s.fs.heap label₂ :=
    (hs.owned.relabel htable _ (Nat.zero_le _)).relabel hhandle₁ _ (Nat.zero_le _)
  have hkeep : forall x o, label x = some o -> o ≠ .pending ->
      label₂ x = some o := by
    intro x o hx ho
    have hxh : x ≠ handle := by
      intro heq
      rw [heq, hhandle] at hx
      exact ho (Option.some.inj hx).symm
    have hxt : x ≠ newTable := by
      intro heq
      rw [heq, htable] at hx
      exact ho (Option.some.inj hx).symm
    exact (Function.update_of_ne hxh ..).trans
      ((Function.update_of_ne hxt ..).trans hx)
  have hself : (Kernel.installTable s p newTable handle
      (s.task p).handleCount.toNat).task p = { s.task p with
        handles := newTable
        handleCount := BitVec.ofNat 8 ((s.task p).handleCount.toNat + 5) } :=
    setTask_self ..
  have hother : forall q, q ≠ p -> (Kernel.installTable s p newTable handle
      (s.task p).handleCount.toNat).task q = s.task q :=
    fun q hq => setTask_other _ _ _ hq
  have hliveq : forall q, (Kernel.installTable s p newTable handle
      (s.task p).handleCount.toNat).Live q -> s.Live q := by
    intro q hq
    by_cases hqp : q = p
    · rw [hqp]
      exact hlive
    · unfold KernelState.Live at hq ⊢
      rw [hother q hqp] at hq
      exact hq
  refine ⟨label₂, ⟨howned, hs.pool_pos, hs.tasks_nodup, ?_, hs.alarms_nodup,
    hs.waits_nodup, ?_⟩, hkeep⟩
  · intro q hq hlq hzero
    by_cases hqp : q = p
    · rw [hqp, hself] at hzero
      exact absurd hzero hnew
    · rw [hother q hqp] at hzero ⊢
      exact hs.noTable q hq (hliveq q hlq) hzero
  · intro x o hx
    cases hx with
    | task hq => exact hkeep _ _ (hs.uses _ _ (Uses.task hq)) (by simp)
    | @stack q hq hlq =>
        have huse := hs.uses _ _ (Uses.stack hq (hliveq q hlq))
        by_cases hqp : q = p
        · subst hqp
          rw [hself]
          exact hkeep _ _ huse (by simp)
        · rw [hother q hqp]
          exact hkeep _ _ huse (by simp)
    | @table q hq hlq hq0 =>
        by_cases hqp : q = p
        · subst hqp
          rw [hself]
          exact (Function.update_of_ne (Ne.symm hne) ..).trans
            (Function.update_self ..)
        · rw [hother q hqp] at hq0 ⊢
          exact hkeep _ _ (hs.uses _ _ (Uses.table hq (hliveq q hlq) hq0))
            (by simp)
    | @handle q i hq hlq hi hentry =>
        by_cases hqp : q = p
        · subst hqp
          rw [installTable_entry] at hentry ⊢
          by_cases hlast : i = (s.task q).handleCount.toNat
          · rw [if_pos hlast, hlast]
            exact Function.update_self ..
          · rw [if_neg hlast] at hentry ⊢
            split at hentry
            · next hold =>
                rw [if_pos hold]
                exact hkeep _ _ (hs.uses _ _
                  (Uses.handle hq hlive hold.2 hentry)) (by simp)
            · exact absurd rfl hentry
        · rw [hother q hqp] at hi
          have hq0 := hs.handles_ne_zero hq (hliveq q hlq) hi
          have htq := hs.uses _ _ (Uses.table hq (hliveq q hlq) hq0)
          have hqt : (s.task q).handles ≠ newTable := by
            intro heq
            rw [heq, htable] at htq
            cases htq
          rw [installTable_entry_other hqp hqt] at hentry ⊢
          exact hkeep _ _ (hs.uses _ _
            (Uses.handle hq (hliveq q hlq) hi hentry)) (by simp)
    | alarm ha =>
        exact hkeep _ _ (hs.uses _ _ (Uses.alarm (s := s) ha)) (by simp)
    | irqWait hw =>
        exact hkeep _ _ (hs.uses _ _ (Uses.irqWait (s := s) hw)) (by simp)

structure SameView (s s' : KernelState) : Prop where
  taskList : s'.taskList = s.taskList
  currentTask : s'.currentTask = s.currentTask
  segmentBitmap : s'.segmentBitmap = s.segmentBitmap
  clock : s'.clock = s.clock
  irqEvents : s'.irqEvents = s.irqEvents
  state : forall p, (s'.task p).state = (s.task p).state
  segment : forall p, (s'.task p).segment = (s.task p).segment
  stack : forall p, (s'.task p).stack = (s.task p).stack
  waiting : forall p,
    (s'.task p).taskWaitingForExit = (s.task p).taskWaitingForExit

theorem SameTasks.view (h : SameTasks s s') : SameView s s' := by
  refine ⟨h.taskList, h.currentTask, h.segmentBitmap, h.clock, h.irqEvents,
    ?_, ?_, ?_, ?_⟩ <;> intro p <;> rw [h.task]

theorem SameView.trans {t : KernelState} (hst : SameView s s')
    (htu : SameView s' t) : SameView s t :=
  ⟨htu.taskList.trans hst.taskList, htu.currentTask.trans hst.currentTask,
    htu.segmentBitmap.trans hst.segmentBitmap, htu.clock.trans hst.clock,
    htu.irqEvents.trans hst.irqEvents,
    fun p => (htu.state p).trans (hst.state p),
    fun p => (htu.segment p).trans (hst.segment p),
    fun p => (htu.stack p).trans (hst.stack p),
    fun p => (htu.waiting p).trans (hst.waiting p)⟩

theorem installTable_view (s : KernelState) (p newTable handle : Word)
    (count : Nat) : SameView s (installTable s p newTable handle count) := by
  have hcase : forall q, ((installTable s p newTable handle count).task q).state =
        (s.task q).state ∧
      ((installTable s p newTable handle count).task q).segment =
        (s.task q).segment ∧
      ((installTable s p newTable handle count).task q).stack =
        (s.task q).stack ∧
      ((installTable s p newTable handle count).task q).taskWaitingForExit =
        (s.task q).taskWaitingForExit := by
    intro q
    unfold installTable KernelState.setEntry growTable
    by_cases hq : q = p
    · subst hq
      simp only [setTask_self, and_self]
    · simp only [setTask_other _ _ _ hq, and_self]
  exact ⟨rfl, rfl, rfl, rfl, rfl, fun q => (hcase q).1, fun q => (hcase q).2.1,
    fun q => (hcase q).2.2.1, fun q => (hcase q).2.2.2⟩

theorem KernelOwned.taskAddHandle (hs : KernelOwned s label)
    {p handle r : Word} (hp : p ∈ s.taskList) (hlive : s.Live p)
    (hhandle : label handle = some .pending)
    (hrun : taskAddHandle s p handle = .ok (r, s')) :
    (exists label', KernelOwned s' label') ∧ SameView s s' := by
  unfold Kernel.taskAddHandle at hrun
  dsimp only at hrun
  split at hrun
  · next i hfind =>
      cases hrun
      have hi := List.mem_range.mp (List.mem_of_find?_eq_some hfind)
      have hp0 := hs.handles_ne_zero hp hlive hi
      refine ⟨⟨_, hs.setEntry (hs.owned.relabel hhandle (.handle p i)
        (Nat.zero_le _)) ?_ hp
        hlive hp0 (fun _ => Function.update_self ..)⟩,
        ⟨rfl, rfl, rfl, rfl, rfl, fun _ => rfl, fun _ => rfl, fun _ => rfl,
          fun _ => rfl⟩⟩
      intro x o hx _
      have hlabel := hs.uses x o hx
      have hne : x ≠ handle := by
        intro heq
        rw [heq, hhandle] at hlabel
        cases hlabel
        cases hx
      rw [Function.update_of_ne hne]
      exact hlabel
  · rcases ok_bind_iff.mp hrun with ⟨⟨newTable, s₁⟩, hmalloc, hrun⟩
    rcases hs.malloc hmalloc (o := .pending) (Nat.zero_le _) with ⟨hnone, hs₁⟩
    have hsame₁ := kernel_malloc_sameTasks hmalloc
    dsimp only at hrun
    split at hrun
    · cases hrun
      exact ⟨⟨_, hs₁⟩, hsame₁.view⟩
    · next hnew =>
        have hne : handle ≠ newTable := by
          intro heq
          rw [heq, hnone] at hhandle
          cases hhandle
        have hlive₁ := hsame₁.live hlive
        have hhandle₁ := (Function.update_of_ne hne (some Owner.pending)
          label).trans hhandle
        have htable₁ : Function.update label newTable (some Owner.pending)
            newTable = some .pending := Function.update_self ..
        rcases hs₁.installTable (hsame₁.taskList ▸ hp) hlive₁ hnew htable₁
          hhandle₁ hne with ⟨label₂, hs₂, hkeep⟩
        have hview := hsame₁.view.trans (installTable_view s₁ p newTable handle
          (s₁.task p).handleCount.toNat)
        rw [← hsame₁.task] at hrun
        split at hrun
        · next hp0 =>
            rcases ok_bind_iff.mp hrun with ⟨s₂, hfree, hr⟩
            cases hr
            rcases kernel_free_eq hfree with ⟨h, hheap, rfl⟩
            have htable : label (s₁.task p).handles = some (.table p) := by
              rw [hsame₁.task] at hp0 ⊢
              exact hs.uses _ _ (Uses.table hp hlive hp0)
            have hold : (s₁.task p).handles ≠ newTable := by
              intro heq
              rw [heq, hnone] at htable
              cases htable
            have htable₂ := hkeep _ _
              ((Function.update_of_ne hold (some Owner.pending) label).trans
                htable) (by simp)
            refine ⟨⟨_, hs₂.free htable₂ ?_ (kernel_free_of_heap hheap)⟩,
              hview.trans ⟨rfl, rfl, rfl, rfl, rfl, fun _ => rfl, fun _ => rfl,
                fun _ => rfl, fun _ => rfl⟩⟩
            intro o' huse
            have ho := hs₂.use_eq htable₂ huse
            subst ho
            have hself : ((Kernel.installTable s₁ p newTable handle
                (s₁.task p).handleCount.toNat).task p).handles = newTable :=
              congrArg Task.handles (setTask_self ..)
            exact hold (huse.table_eq.trans hself)
        · rcases ok_bind_iff.mp hrun with ⟨s₂, hgrow, hr⟩
          cases hgrow
          cases hr
          exact ⟨⟨label₂, hs₂⟩, hview⟩

theorem KernelOwned.openNode (hs : KernelOwned s label) {p node mode : Word}
    (hp : p ∈ s.taskList) (hlive : s.Live p)
    (hrun : openNode s p node mode = .ok s') :
    (exists label', KernelOwned s' label') ∧ SameView s s' := by
  rcases ok_bind_iff.mp hrun with ⟨⟨handle, fs⟩, hopen, hrun⟩
  have hsame : SameTasks s { s with fs := fs } := ⟨rfl, rfl, rfl, rfl, rfl, rfl⟩
  dsimp only at hrun
  rcases fileOpen_eq hopen with ⟨rfl, rfl⟩ | hheap
  · cases hrun
    exact ⟨⟨label, hs⟩, hsame.view⟩
  · have hmalloc : s.malloc fileHandleSize =
        .ok (handle, { s with fs := { s.fs with heap := fs.heap } }) :=
      ok_bind_iff.mpr ⟨_, ok_bind_iff.mpr ⟨_, hheap, rfl⟩, rfl⟩
    rcases hs.malloc hmalloc (o := .pending) (Nat.zero_le _) with ⟨_, hs₁⟩
    have hs₁ : KernelOwned { s with fs := fs } _ := hs₁.setFs rfl
    split at hrun
    · cases hrun
      exact ⟨⟨_, hs₁⟩, hsame.view⟩
    · rcases ok_bind_iff.mp hrun with ⟨r, hadd, hr⟩
      cases hr
      rcases hs₁.taskAddHandle hp hlive (Function.update_self ..) hadd with
        ⟨howned, hview⟩
      exact ⟨howned, hsame.view.trans hview⟩

/-!
# Fork
-/

theorem KernelOwned.addTask (hs : KernelOwned s label) {p stack : Word}
    {s₁ s₂ : KernelState} {t : Task}
    (htask : s.malloc taskSize = .ok (p, s₁))
    (hstack : s₁.malloc kernelStackBytes = .ok (stack, s₂))
    (hst : t.stack = stack) (hhandles : t.handles = 0)
    (hcount : t.handleCount = 0)
    (hfs : s'.fs = s₂.fs) (hlist : s'.taskList = p :: s.taskList)
    (htasks : s'.task = Function.update s.task p t)
    (htable : s'.handleTable = s.handleTable)
    (halarms : s'.clock.alarmQueue = s.clock.alarmQueue)
    (hirqs : s'.irqEvents = s.irqEvents) :
    exists label', KernelOwned s' label' := by
  rcases hs.malloc htask (o := .task) (Nat.le_refl _) with ⟨hpNone, hs₁⟩
  rcases hs₁.malloc hstack (o := .stack p) (Nat.le_refl _) with ⟨hstNone, hs₂⟩
  rcases kernel_malloc_eq htask with ⟨h₁, _, rfl⟩
  rcases kernel_malloc_eq hstack with ⟨h₂, _, rfl⟩
  have hpst : p ≠ stack := by
    intro heq
    rw [← heq, Function.update_self] at hstNone
    cases hstNone
  have hnew : p ∉ s.taskList := fun hmem => hs.unused hpNone (Uses.task hmem)
  have htaskP : s'.task p = t := by rw [htasks, Function.update_self]
  have hold : forall q, q ∈ s.taskList -> s'.task q = s.task q := by
    intro q hq
    have hqp : q ≠ p := fun heq => hnew (heq ▸ hq)
    rw [htasks, Function.update_of_ne hqp]
  refine ⟨_, by rw [hfs]; exact hs₂.owned, by rw [hfs]; exact hs₂.pool_pos, ?_,
    ?_, ?_, ?_, ?_⟩
  · rw [hlist]
    exact List.nodup_cons.mpr ⟨hnew, hs.tasks_nodup⟩
  · intro q hq hlive hzero
    rw [hlist] at hq
    rcases List.mem_cons.mp hq with rfl | hq
    · rw [htaskP, hcount]
      rfl
    · unfold KernelState.Live at hlive
      rw [hold q hq] at hlive hzero ⊢
      exact hs.noTable q hq hlive hzero
  · rw [halarms]
    exact hs.alarms_nodup
  · rw [hirqs]
    exact hs.waits_nodup
  · intro x o hx
    cases hx with
    | @task q hq =>
        rw [hlist] at hq
        rcases List.mem_cons.mp hq with rfl | hq
        · rw [Function.update_of_ne hpst, Function.update_self]
        · exact hs₂.uses _ _ (Uses.task hq)
    | @stack q hq hlive =>
        rw [hlist] at hq
        rcases List.mem_cons.mp hq with rfl | hq
        · rw [htaskP, hst, Function.update_self]
        · unfold KernelState.Live at hlive
          rw [hold q hq] at hlive ⊢
          exact hs₂.uses _ _ (Uses.stack hq hlive)
    | @table q hq hlive hne =>
        rw [hlist] at hq
        rcases List.mem_cons.mp hq with rfl | hq
        · rw [htaskP] at hne
          exact absurd hhandles hne
        · unfold KernelState.Live at hlive
          rw [hold q hq] at hlive hne ⊢
          exact hs₂.uses _ _ (Uses.table hq hlive hne)
    | @handle q i hq hlive hi hne =>
        rw [hlist] at hq
        rcases List.mem_cons.mp hq with rfl | hq
        · rw [htaskP, hcount] at hi
          exact absurd hi (Nat.not_lt_zero i)
        · unfold KernelState.Live at hlive
          unfold KernelState.entry at hne ⊢
          rw [hold q hq] at hlive hi hne ⊢
          rw [htable] at hne ⊢
          exact hs₂.uses _ _ (Uses.handle hq hlive hi hne)
    | @alarm a ha =>
        rw [halarms] at ha
        exact hs₂.uses _ _ (Uses.alarm ha)
    | @irqWait irq w hw =>
        rw [hirqs] at hw
        exact hs₂.uses _ _ (Uses.irqWait hw)

theorem fork_eq {segment : Word} (hrun : fork s = .ok (segment, s')) :
    exists p stack s₁ s₂, s.malloc taskSize = .ok (p, s₁) ∧
      s₁.malloc kernelStackBytes = .ok (stack, s₂) ∧
      (allocateSegment s.segmentBitmap).1 = segment ∧ segment ≠ 0 ∧ p ≠ 0 ∧
      s' = ({ s₂ with
        mem := forkMem s segment stack
        segmentBitmap := (allocateSegment s.segmentBitmap).2
        taskList := p :: s.taskList } : KernelState).setTask p
          (forkTask (s.task s.currentTask) segment stack) := by
  rcases ok_bind_iff.mp hrun with ⟨⟨p, s₁⟩, htask, hrun⟩
  rcases ok_bind_iff.mp hrun with ⟨⟨stack, s₂⟩, hstack, hrun⟩
  rcases kernel_malloc_eq htask with ⟨h₁, _, heq₁⟩
  rcases kernel_malloc_eq hstack with ⟨h₂, _, heq₂⟩
  subst heq₁
  subst heq₂
  dsimp only at hrun
  split at hrun
  · cases hrun
  · next hnull =>
      rw [not_or, not_or] at hnull
      cases hrun
      exact ⟨p, stack, _, _, htask, hstack, rfl, hnull.2.2, hnull.1, rfl⟩

theorem KernelOwned.fork (hs : KernelOwned s label) {segment : Word}
    (hrun : fork s = .ok (segment, s')) :
    exists label', KernelOwned s' label' := by
  rcases fork_eq hrun with ⟨p, stack, s₁, s₂, htask, hstack, _, _, _, rfl⟩
  have hfields : s₂.task = s.task ∧ s₂.handleTable = s.handleTable ∧
      s₂.clock = s.clock ∧ s₂.irqEvents = s.irqEvents := by
    rcases kernel_malloc_eq htask with ⟨h₁, _, rfl⟩
    rcases kernel_malloc_eq hstack with ⟨h₂, _, rfl⟩
    exact ⟨rfl, rfl, rfl, rfl⟩
  rcases hfields with ⟨htasks, htable, hclock, hirqs⟩
  refine hs.addTask htask hstack
    (t := forkTask (s.task s.currentTask) segment stack) rfl rfl rfl rfl rfl ?_
    htable ?_ hirqs
  · change Function.update s₂.task p _ = _
    rw [htasks]
  · change s₂.clock.alarmQueue = _
    rw [hclock]

structure Boot (s : KernelState) : Prop where
  heap : HeapInv s.fs.heap
  pool_pos : 0 < s.fs.heap.poolStart.toNat
  taskList : s.taskList = []
  bitmap : s.segmentBitmap = 0
  alarms : s.clock.alarmQueue = []
  irqEvents : forall irq, s.irqEvents irq = []

theorem Boot.owned (hs : Boot s) : KernelOwned s (fun _ => none) := by
  refine ⟨⟨hs.heap, by simp⟩, hs.pool_pos, ?_, ?_, ?_, ?_, ?_⟩
  · rw [hs.taskList]
    exact List.nodup_nil
  · rw [hs.taskList]
    simp
  · rw [hs.alarms]
    exact List.nodup_nil
  · intro irq
    rw [hs.irqEvents irq]
    exact List.nodup_nil
  · intro x o hx
    cases hx with
    | task hp => simp [hs.taskList] at hp
    | stack hp _ => simp [hs.taskList] at hp
    | table hp _ _ => simp [hs.taskList] at hp
    | handle hp _ _ _ => simp [hs.taskList] at hp
    | alarm ha => simp [hs.alarms] at ha
    | irqWait hw => simp [hs.irqEvents] at hw

theorem taskInit_eq (hs : Boot s) (hrun : taskInit s = .ok s') :
    exists p stack s₁ s₂, s.malloc taskSize = .ok (p, s₁) ∧
      s₁.malloc kernelStackBytes = .ok (stack, s₂) ∧ p ≠ 0 ∧
      s' = ({ s₂ with
        mem := newTaskMem s.mem firstSegment stack
        segmentBitmap := 0x80
        taskList := [p]
        currentTask := p } : KernelState).setTask p
          (newTask firstSegment stack) := by
  have hbitmap : allocateSegment s.segmentBitmap = (firstSegment, 0x80) := by
    rw [hs.bitmap]
    rfl
  unfold taskInit at hrun
  rw [hbitmap] at hrun
  rcases ok_bind_iff.mp hrun with ⟨r, hadd, hr⟩
  rcases ok_bind_iff.mp hadd with ⟨⟨p, s₁⟩, htask, hadd⟩
  rcases ok_bind_iff.mp hadd with ⟨⟨stack, s₂⟩, hstack, hadd⟩
  rcases ok_bind_iff.mp htask with ⟨r₁, hfs₁, hr₁⟩
  cases hr₁
  rcases ok_bind_iff.mp hstack with ⟨r₂, hfs₂, hr₂⟩
  cases hr₂
  dsimp only at hadd
  split at hadd
  · cases hadd
  · next hnull =>
      rw [not_or] at hnull
      cases hadd
      cases hr
      refine ⟨r₁.1, r₂.1, { s with fs := r₁.2 }, { s with fs := r₂.2 },
        ok_bind_iff.mpr ⟨r₁, hfs₁, rfl⟩, ok_bind_iff.mpr ⟨r₂, hfs₂, rfl⟩,
        hnull.1, ?_⟩
      simp only [hs.taskList, if_true]

theorem taskInit_owned (hs : Boot s) (hrun : taskInit s = .ok s') :
    exists label', KernelOwned s' label' := by
  rcases taskInit_eq hs hrun with
    ⟨p, stack, s₁, s₂, htask, hstack, _, rfl⟩
  have hfields : s₂.task = s.task ∧ s₂.handleTable = s.handleTable ∧
      s₂.clock = s.clock ∧ s₂.irqEvents = s.irqEvents := by
    rcases kernel_malloc_eq htask with ⟨h₁, _, rfl⟩
    rcases kernel_malloc_eq hstack with ⟨h₂, _, rfl⟩
    exact ⟨rfl, rfl, rfl, rfl⟩
  rcases hfields with ⟨htasks, htable, hclock, hirqs⟩
  refine hs.owned.addTask htask hstack (t := newTask firstSegment stack)
    rfl rfl rfl rfl ?_ ?_ htable ?_ hirqs
  · change [p] = _
    rw [hs.taskList]
  · change Function.update s₂.task p _ = _
    rw [htasks]
  · change s₂.clock.alarmQueue = _
    rw [hclock]

end Steps

end Kernel
end Rmmtos
