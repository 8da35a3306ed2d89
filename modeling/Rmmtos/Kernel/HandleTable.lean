import Rmmtos.Kernel.System

/-!
# Handle tables

A task's table gives each of its handles an id.  A full table is replaced by a
copy that is five entries longer, and its length is kept in one byte: the table
that grows from 255 entries to 260 keeps the length four.
-/

namespace Rmmtos
namespace Kernel

open Library Library.Zones Fs

def entryIndex (id : Word) : Nat :=
  (id - 1).toNat

def taskRemoveHandle (s : KernelState) (p id : Word) : KernelState :=
  if entryIndex id < (s.task p).handleCount.toNat then
    s.setEntry (s.task p).handles (entryIndex id) 0
  else s

def taskGetHandle (s : KernelState) (p id : Word) : Word :=
  if entryIndex id < (s.task p).handleCount.toNat then
    s.entry p (entryIndex id)
  else 0

/-!
# Histories of handle tables

The handles that are live are kept in a list beside the kernel's state, the
last one first.
-/

structure LiveHandle where
  task : Word
  id : Word
  handle : Word
deriving DecidableEq, Repr

def LiveHandle.named (p id : Word) (e : LiveHandle) : Bool :=
  e.task == p && e.id == id

def liveHandle (live : List LiveHandle) (p id : Word) : Word :=
  ((live.find? (LiveHandle.named p id)).map LiveHandle.handle).getD 0

structure TableRun where
  kernel : KernelState
  live : List LiveHandle

inductive TableOp where
  | add (task handle : Word)
  | remove (task id : Word)
deriving DecidableEq, Repr

inductive TableStep : TableRun -> TableOp -> TableRun -> Prop where
  | add {s : TableRun} {p handle id : Word} {k : KernelState} :
      p ∈ s.kernel.taskList -> handle ≠ 0 ->
      taskAddHandle s.kernel p handle = .ok (id, k) ->
      TableStep s (.add p handle)
        ⟨k, if id = 0 then s.live else ⟨p, id, handle⟩ :: s.live⟩
  | remove {s : TableRun} {p id : Word} : p ∈ s.kernel.taskList ->
      TableStep s (.remove p id) ⟨taskRemoveHandle s.kernel p id,
        s.live.filter (fun e => !e.named p id)⟩

structure TableStart (s : TableRun) : Prop where
  live : s.live = []
  heap : HeapInv s.kernel.fs.heap
  pool_pos : 0 < s.kernel.fs.heap.poolStart.toNat
  handles : forall p, p ∈ s.kernel.taskList -> (s.kernel.task p).handles = 0
  handleCount : forall p, p ∈ s.kernel.taskList ->
    (s.kernel.task p).handleCount = 0

/-- The ids of the live handles differ and are not zero, and every id yields
its live handle. -/
structure TableSound (s : TableRun) : Prop where
  ids : forall e, e ∈ s.live -> e.id ≠ 0
  distinct : (s.live.map (fun e => (e.task, e.id))).Nodup
  get : forall p, p ∈ s.kernel.taskList -> forall id,
    taskGetHandle s.kernel p id = liveHandle s.live p id

def openEntries (s : KernelState) (p : Word) : Nat :=
  (List.range (s.task p).handleCount.toNat).countP (fun i => s.entry p i != 0)

/-- A handle is added only to a table with fewer than 255 handles. -/
def RoomFor (s : KernelState) : TableOp -> Prop
  | .add p _ => openEntries s p < 255
  | .remove _ _ => True

/-!
# Adding a handle
-/

def KernelState.withHeap (s : KernelState) (h : Heap) : KernelState :=
  { s with fs := { s.fs with heap := h } }

theorem kernel_malloc_of_heap {s : KernelState} {n p : Word} {h : Heap}
    (hmalloc : Kernel.malloc s.fs.heap n = .ok (p, h)) :
    s.malloc n = .ok (p, s.withHeap h) :=
  ok_bind_iff.mpr ⟨_, ok_bind_iff.mpr ⟨_, hmalloc, rfl⟩, rfl⟩

structure AddedInPlace (s s' : KernelState) (p handle id : Word) (i : Nat) :
    Prop where
  index : i < (s.task p).handleCount.toNat
  free : s.entry p i = 0
  full : forall j, j < i -> s.entry p j ≠ 0
  id : id = BitVec.ofNat 16 (i + 1)
  state : s' = s.setEntry (s.task p).handles i handle

structure AddedBehind (s s' : KernelState) (p handle id newTable : Word)
    (h h' : Heap) : Prop where
  full : forall i, i < (s.task p).handleCount.toNat -> s.entry p i ≠ 0
  malloc : Kernel.malloc s.fs.heap (taskHandleSize *
    BitVec.ofNat 16 ((s.task p).handleCount.toNat + 5)) = .ok (newTable, h)
  ne_zero : newTable ≠ 0
  freed : if (s.task p).handles ≠ 0 then
    Kernel.free h (s.task p).handles = .ok h' else h' = h
  id : id = BitVec.ofNat 16 ((s.task p).handleCount.toNat + 1)
  state : s' = (installTable s p newTable handle
    (s.task p).handleCount.toNat).withHeap h'

section Add

variable {s s' : KernelState} {p handle id : Word}

theorem find?_range_entry (s : KernelState) (table : Word) (n : Nat) :
    match (List.range n).find? (fun i => s.handleTable table i == 0) with
    | some i => i < n ∧ s.handleTable table i = 0 ∧
        forall j, j < i -> s.handleTable table j ≠ 0
    | none => forall i, i < n -> s.handleTable table i ≠ 0 := by
  split
  · next i hfind =>
      rw [List.find?_range_eq_some] at hfind
      rcases hfind with ⟨hzero, hi, hbefore⟩
      refine ⟨List.mem_range.mp hi, beq_iff_eq.mp hzero, ?_⟩
      intro j hj
      simpa using hbefore j hj
  · next hfind =>
      intro i hi
      rw [List.find?_range_eq_none] at hfind
      simpa using hfind i hi

theorem taskAddHandle_cases (hrun : taskAddHandle s p handle = .ok (id, s')) :
    (exists i, AddedInPlace s s' p handle id i) ∨
      (exists h, Kernel.malloc s.fs.heap (taskHandleSize *
          BitVec.ofNat 16 ((s.task p).handleCount.toNat + 5)) = .ok (0, h)) ∨
      exists newTable h h', AddedBehind s s' p handle id newTable h h' := by
  have hfind := find?_range_entry s (s.task p).handles
    (s.task p).handleCount.toNat
  unfold taskAddHandle at hrun
  dsimp only at hrun
  split at hrun
  · next i hsome =>
      rw [hsome] at hfind
      cases hrun
      exact Or.inl ⟨i, hfind.1, hfind.2.1, hfind.2.2, rfl, rfl⟩
  · next hnone =>
      rw [hnone] at hfind
      rcases ok_bind_iff.mp hrun with ⟨⟨newTable, s₁⟩, hmalloc, hrun⟩
      rcases kernel_malloc_eq hmalloc with ⟨h, hheap, rfl⟩
      dsimp only at hrun
      split at hrun
      · next hzero =>
          rw [hzero] at hheap
          exact Or.inr (Or.inl ⟨h, hheap⟩)
      · next hnew =>
          right
          right
          split at hrun
          · next hp0 =>
              rcases ok_bind_iff.mp hrun with ⟨s₂, hfree, hr⟩
              cases hr
              rcases kernel_free_eq hfree with ⟨h', hheap', rfl⟩
              exact ⟨newTable, h, h', hfind, hheap, hnew,
                by rw [if_pos hp0]; exact hheap', rfl, rfl⟩
          · next hp0 =>
              rcases ok_bind_iff.mp hrun with ⟨s₂, hgrow, hr⟩
              cases hgrow
              cases hr
              exact ⟨newTable, h, h, hfind, hheap, hnew,
                by rw [if_neg hp0], rfl, rfl⟩

end Add

/-!
# The list of live handles
-/

section Live

variable {live : List LiveHandle} {p q id id' handle : Word}

theorem named_iff {e : LiveHandle} :
    e.named p id = true <-> e.task = p ∧ e.id = id := by
  simp [LiveHandle.named]

theorem liveHandle_cons : liveHandle (⟨p, id, handle⟩ :: live) q id' =
    if q = p ∧ id' = id then handle else liveHandle live q id' := by
  unfold liveHandle
  by_cases h : q = p ∧ id' = id
  · rw [List.find?_cons_of_pos (named_iff.mpr ⟨h.1.symm, h.2.symm⟩), if_pos h]
    rfl
  · rw [List.find?_cons_of_neg (fun hn => h
      ⟨(named_iff.mp hn).1.symm, (named_iff.mp hn).2.symm⟩), if_neg h]

theorem liveHandle_filter :
    liveHandle (live.filter (fun e => !e.named p id)) q id' =
      if q = p ∧ id' = id then 0 else liveHandle live q id' := by
  unfold liveHandle
  rw [List.find?_filter]
  by_cases h : q = p ∧ id' = id
  · rw [h.1, h.2, if_pos ⟨rfl, rfl⟩, List.find?_eq_none.mpr]
    · rfl
    · intro e _
      simp
  · rw [if_neg h]
    congr 3
    funext e
    cases hn : e.named q id' with
    | false => simp
    | true =>
        have hother : e.named p id = false := by
          rw [← Bool.not_eq_true]
          intro hp
          have hq := named_iff.mp hn
          have hp := named_iff.mp hp
          exact h ⟨hq.1.symm.trans hp.1, hq.2.symm.trans hp.2⟩
        simp [hother]

theorem not_mem_of_liveHandle (hne : forall e, e ∈ live -> e.handle ≠ 0)
    (h : liveHandle live p id = 0) :
    (p, id) ∉ live.map (fun e => (e.task, e.id)) := by
  intro hmem
  rcases List.mem_map.mp hmem with ⟨e, he, heq⟩
  have hnamed : e.named p id = true :=
    named_iff.mpr ⟨congrArg Prod.fst heq, congrArg Prod.snd heq⟩
  unfold liveHandle at h
  cases hfind : live.find? (LiveHandle.named p id) with
  | none => exact List.find?_eq_none.mp hfind e he hnamed
  | some e' =>
      rw [hfind] at h
      exact hne e' (List.mem_of_find?_eq_some hfind) h

end Live

/-!
# Indices
-/

theorem entryIndex_ofNat {i : Nat} (hi : i < 65535) :
    entryIndex (BitVec.ofNat 16 (i + 1)) = i := by
  unfold entryIndex
  bv_omega

theorem entryIndex_eq_iff (id : Word) {i : Nat} (hi : i < 65535) :
    entryIndex id = i <-> id = BitVec.ofNat 16 (i + 1) := by
  unfold entryIndex
  constructor
  · intro h
    bv_omega
  · intro h
    bv_omega

/-!
# The invariant
-/

/-- Every table is the block of one task, and grows by five entries. -/
structure TableInv (s : TableRun) (label : Word -> Option Word) : Prop where
  owned : Owned (fun _ : Word => 0) s.kernel.fs.heap label
  pool_pos : 0 < s.kernel.fs.heap.poolStart.toNat
  table : forall p, p ∈ s.kernel.taskList -> (s.kernel.task p).handles ≠ 0 ->
    label (s.kernel.task p).handles = some p
  empty : forall p, p ∈ s.kernel.taskList -> (s.kernel.task p).handles = 0 ->
    (s.kernel.task p).handleCount.toNat = 0
  fives : forall p, p ∈ s.kernel.taskList ->
    5 ∣ (s.kernel.task p).handleCount.toNat
  handles : forall e, e ∈ s.live -> e.handle ≠ 0

section Inv

variable {s : TableRun} {label : Word -> Option Word} {p q : Word}

theorem TableInv.table_inj (hs : TableInv s label) (hp : p ∈ s.kernel.taskList)
    (hq : q ∈ s.kernel.taskList)
    (hp0 : (s.kernel.task p).handleCount.toNat ≠ 0)
    (heq : (s.kernel.task q).handles = (s.kernel.task p).handles) : q = p := by
  have hne : (s.kernel.task p).handles ≠ 0 := fun h => hp0 (hs.empty p hp h)
  have hlabel := hs.table q hq (heq ▸ hne)
  rw [heq, hs.table p hp hne] at hlabel
  exact (Option.some.inj hlabel).symm

theorem TableInv.get_setEntry (hs : TableInv s label)
    (hp : p ∈ s.kernel.taskList) (hq : q ∈ s.kernel.taskList) {i : Nat}
    (hi : i < (s.kernel.task p).handleCount.toNat) (handle id : Word) :
    taskGetHandle (s.kernel.setEntry (s.kernel.task p).handles i handle) q id =
      if q = p ∧ id = BitVec.ofNat 16 (i + 1) then handle
      else taskGetHandle s.kernel q id := by
  have hbyte := (s.kernel.task p).handleCount.isLt
  have hi' : i < 65535 := by omega
  have htable : (s.kernel.task q).handles = (s.kernel.task p).handles <->
      q = p := by
    constructor
    · exact hs.table_inj hp hq (by omega)
    · exact fun h => h ▸ rfl
  change (if entryIndex id < (s.kernel.task q).handleCount.toNat then
    (s.kernel.setEntry (s.kernel.task p).handles i handle).entry q
      (entryIndex id) else 0) = _
  rw [setEntry_entry]
  simp only [htable, entryIndex_eq_iff _ hi']
  by_cases h : q = p ∧ id = BitVec.ofNat 16 (i + 1)
  · rw [if_pos h, if_pos h, if_pos]
    rw [h.1, h.2, entryIndex_ofNat hi']
    exact hi
  · rw [if_neg h, if_neg h]
    rfl

/-!
# Adding and removing
-/

theorem TableSound.add (hx : TableSound s) (hs : TableInv s label)
    {k : KernelState} {id handle : Word} (hp : p ∈ s.kernel.taskList)
    (hlist : k.taskList = s.kernel.taskList) (hid : id ≠ 0)
    (hfree : taskGetHandle s.kernel p id = 0)
    (hget : forall q, q ∈ s.kernel.taskList -> forall id',
      taskGetHandle k q id' = if q = p ∧ id' = id then handle
        else taskGetHandle s.kernel q id') :
    TableSound ⟨k, ⟨p, id, handle⟩ :: s.live⟩ := by
  constructor
  · intro e he
    rcases List.mem_cons.mp he with rfl | he
    · exact hid
    · exact hx.ids e he
  · rw [List.map_cons, List.nodup_cons]
    refine ⟨not_mem_of_liveHandle hs.handles ?_, hx.distinct⟩
    rw [← hx.get p hp]
    exact hfree
  · intro q hq id'
    rw [hlist] at hq
    rw [hget q hq, liveHandle_cons, hx.get q hq]

theorem taskRemoveHandle_eq (k : KernelState) (p id : Word) :
    taskRemoveHandle k p id = k ∨
      taskRemoveHandle k p id =
        k.setEntry (k.task p).handles (entryIndex id) 0 := by
  unfold taskRemoveHandle
  split
  · exact Or.inr rfl
  · exact Or.inl rfl

theorem TableInv.get_remove (hs : TableInv s label)
    (hp : p ∈ s.kernel.taskList) (hq : q ∈ s.kernel.taskList) (id id' : Word) :
    taskGetHandle (taskRemoveHandle s.kernel p id) q id' =
      if q = p ∧ id' = id then 0 else taskGetHandle s.kernel q id' := by
  unfold taskRemoveHandle
  split
  · next hi =>
      have hbyte := (s.kernel.task p).handleCount.isLt
      have hid := (entryIndex_eq_iff id (by omega)).mp (Eq.refl (entryIndex id))
      rw [hs.get_setEntry hp hq hi, ← hid]
  · next hi =>
      split
      · next heq =>
          unfold taskGetHandle
          rw [heq.1, heq.2, if_neg hi]
      · rfl

theorem TableSound.remove (hx : TableSound s) (hs : TableInv s label)
    (hp : p ∈ s.kernel.taskList) (id : Word) :
    TableSound ⟨taskRemoveHandle s.kernel p id,
      s.live.filter (fun e => !e.named p id)⟩ := by
  have hlist : (taskRemoveHandle s.kernel p id).taskList =
      s.kernel.taskList := by
    rcases taskRemoveHandle_eq s.kernel p id with h | h
    · rw [h]
    · rw [h]
      rfl
  refine ⟨fun e he => hx.ids e (List.mem_of_mem_filter he),
    (List.filter_sublist.map _).nodup hx.distinct, ?_⟩
  intro q hq id'
  change q ∈ (taskRemoveHandle s.kernel p id).taskList at hq
  rw [hlist] at hq
  rw [liveHandle_filter, hs.get_remove hp hq, hx.get q hq]

theorem installTable_task (k : KernelState) (newTable handle : Word)
    (count : Nat) (q : Word) :
    ((installTable k p newTable handle count).task q).handles =
        (if q = p then newTable else (k.task q).handles) ∧
      ((installTable k p newTable handle count).task q).handleCount =
        (if q = p then BitVec.ofNat 8 (count + 5)
          else (k.task q).handleCount) := by
  change ((k.setTask p _).task q).handles = _ ∧
    ((k.setTask p _).task q).handleCount = _
  rw [setTask_task]
  split
  · exact ⟨rfl, rfl⟩
  · exact ⟨rfl, rfl⟩

section Behind

variable {k : KernelState} {handle id newTable : Word} {h h' : Heap}

theorem AddedBehind.fresh (ha : AddedBehind s.kernel k p handle id newTable h h')
    (hs : TableInv s label) : label newTable = none ∧
      Owned (fun _ : Word => 0) h
        (Function.update label newTable (some p)) :=
  hs.owned.malloc ha.malloc (Nat.zero_le _)

theorem AddedBehind.other (ha : AddedBehind s.kernel k p handle id newTable h h')
    (hs : TableInv s label) (hq : q ∈ s.kernel.taskList) :
    (s.kernel.task q).handles ≠ newTable := by
  intro heq
  have hlabel := hs.table q hq (heq ▸ ha.ne_zero)
  rw [heq, (ha.fresh hs).1] at hlabel
  cases hlabel

theorem AddedBehind.get_other
    (ha : AddedBehind s.kernel k p handle id newTable h h')
    (hs : TableInv s label) (hq : q ∈ s.kernel.taskList) (hqp : q ≠ p)
    (id' : Word) : taskGetHandle k q id' = taskGetHandle s.kernel q id' := by
  have htask := installTable_task (p := p) s.kernel newTable handle
    (s.kernel.task p).handleCount.toNat q
  unfold taskGetHandle
  rw [ha.state]
  change (if entryIndex id' < ((installTable s.kernel p newTable handle
      (s.kernel.task p).handleCount.toNat).task q).handleCount.toNat then
    (installTable s.kernel p newTable handle
      (s.kernel.task p).handleCount.toNat).entry q (entryIndex id') else 0) = _
  rw [htask.2, if_neg hqp, installTable_entry_other hqp (ha.other hs hq)]

theorem AddedBehind.get_self
    (ha : AddedBehind s.kernel k p handle id newTable h h')
    (hs : TableInv s label) (hp : p ∈ s.kernel.taskList)
    (hfew : (s.kernel.task p).handleCount.toNat < 255) (id' : Word) :
    taskGetHandle k p id' = if id' = id then handle
      else taskGetHandle s.kernel p id' := by
  have htask := installTable_task (p := p) s.kernel newTable handle
    (s.kernel.task p).handleCount.toNat p
  have hfives := hs.fives p hp
  have hempty := hs.empty p hp
  have hid := entryIndex_eq_iff id'
    (Nat.lt_trans hfew (by decide : 255 < 65535))
  rw [← ha.id] at hid
  unfold taskGetHandle
  rw [ha.state]
  change (if entryIndex id' < ((installTable s.kernel p newTable handle
      (s.kernel.task p).handleCount.toNat).task p).handleCount.toNat then
    (installTable s.kernel p newTable handle
      (s.kernel.task p).handleCount.toNat).entry p (entryIndex id') else 0) = _
  rw [htask.2, if_pos rfl, BitVec.toNat_ofNat, installTable_entry]
  simp only [hid]
  generalize (s.kernel.task p).handleCount.toNat = count at *
  have hmod : (count + 5) % 2 ^ 8 = count + 5 := by
    apply Nat.mod_eq_of_lt
    omega
  rw [hmod]
  by_cases hnew : id' = id
  · rw [if_pos hnew, if_pos hnew, if_pos]
    rw [hid.mpr hnew]
    omega
  · rw [if_neg hnew, if_neg hnew]
    by_cases hi : entryIndex id' < count
    · have hp0 : (s.kernel.task p).handles ≠ 0 := by
        intro hzero
        rw [hempty hzero] at hi
        exact Nat.not_lt_zero _ hi
      rw [if_pos (by omega), if_pos ⟨hp0, hi⟩, if_pos hi]
    · rw [if_neg hi]
      split
      · exact if_neg (fun hold => hi hold.2)
      · rfl

/-- The length of a table that grows from 255 entries is lost. -/
theorem AddedBehind.get_lost
    (ha : AddedBehind s.kernel k p handle id newTable h h')
    (hmany : (s.kernel.task p).handleCount.toNat = 255) :
    taskGetHandle k p id = 0 := by
  have htask := installTable_task (p := p) s.kernel newTable handle
    (s.kernel.task p).handleCount.toNat p
  unfold taskGetHandle
  rw [ha.state, ha.id]
  change (if entryIndex _ < ((installTable s.kernel p newTable handle
      (s.kernel.task p).handleCount.toNat).task p).handleCount.toNat then
    _ else 0) = _
  rw [htask.2, if_pos rfl, hmany, entryIndex_ofNat (by decide)]
  exact if_neg (by decide)

theorem AddedBehind.inv
    (ha : AddedBehind s.kernel k p handle id newTable h h')
    (hs : TableInv s label) (hp : p ∈ s.kernel.taskList) (hne : handle ≠ 0)
    (hfew : (s.kernel.task p).handleCount.toNat < 255) :
    exists label', TableInv ⟨k, ⟨p, id, handle⟩ :: s.live⟩ label' := by
  have htask := installTable_task (p := p) s.kernel newTable handle
    (s.kernel.task p).handleCount.toNat
  have hold := ha.other hs hp
  let label₁ := Function.update label newTable (some p)
  have hlabel₁ : forall q, q ∈ s.kernel.taskList ->
      (s.kernel.task q).handles ≠ 0 ->
      label₁ (s.kernel.task q).handles = some q := by
    intro q hq hq0
    exact (Function.update_of_ne (ha.other hs hq) ..).trans (hs.table q hq hq0)
  have hfreed : exists label', Owned (fun _ : Word => 0) h' label' ∧
      h'.poolStart = h.poolStart ∧ forall x q, x ≠ (s.kernel.task p).handles ->
        label₁ x = some q -> label' x = some q := by
    have hif := ha.freed
    split at hif
    · next hp0 =>
        rcases (ha.fresh hs).2.free (hlabel₁ p hp hp0) with
          ⟨h₁, hfree, howned⟩
        rw [hif] at hfree
        cases hfree
        refine ⟨_, howned, free_poolStart hif, ?_⟩
        intro x q hx hlabel
        exact (Function.update_of_ne hx ..).trans hlabel
    · rw [hif]
      exact ⟨label₁, (ha.fresh hs).2, rfl, fun _ _ _ hlabel => hlabel⟩
  rcases hfreed with ⟨label', howned, hpool, hkeep⟩
  refine ⟨label', ?_⟩
  have hcount := hs.fives p hp
  rw [ha.state]
  refine ⟨howned, ?_, ?_, ?_, ?_, ?_⟩
  · change 0 < h'.poolStart.toNat
    rw [hpool, malloc_poolStart ha.malloc]
    exact hs.pool_pos
  · intro q hq hq0
    change ((installTable s.kernel p newTable handle _).task q).handles ≠ 0
      at hq0
    change label' ((installTable s.kernel p newTable handle _).task q).handles =
      some q
    rw [(htask q).1] at hq0 ⊢
    by_cases hqp : q = p
    · rw [if_pos hqp, hqp]
      exact hkeep newTable p (Ne.symm hold) (Function.update_self ..)
    · rw [if_neg hqp] at hq0 ⊢
      refine hkeep _ q ?_ (hlabel₁ q hq hq0)
      intro heq
      have hq' := hlabel₁ q hq hq0
      rw [heq, hlabel₁ p hp (heq ▸ hq0)] at hq'
      exact hqp (Option.some.inj hq').symm
  · intro q hq hq0
    change ((installTable s.kernel p newTable handle _).task q).handles = 0
      at hq0
    change ((installTable s.kernel p newTable handle _).task
      q).handleCount.toNat = 0
    rw [(htask q).1] at hq0
    rw [(htask q).2]
    split at hq0
    · exact absurd hq0 ha.ne_zero
    · next hqp =>
        rw [if_neg hqp]
        exact hs.empty q hq hq0
  · intro q hq
    change 5 ∣ ((installTable s.kernel p newTable handle _).task
      q).handleCount.toNat
    rw [(htask q).2]
    split
    · rw [BitVec.toNat_ofNat, Nat.mod_eq_of_lt (by omega)]
      omega
    · exact hs.fives q hq
  · intro e he
    rcases List.mem_cons.mp he with rfl | he
    · exact hne
    · exact hs.handles e he

end Behind

/-!
# Every step
-/

theorem openEntries_lt {i : Nat}
    (hi : i < (s.kernel.task p).handleCount.toNat)
    (hfree : s.kernel.entry p i = 0) : openEntries s.kernel p < 255 := by
  have hbyte := (s.kernel.task p).handleCount.isLt
  have hlt : openEntries s.kernel p <
      (List.range (s.kernel.task p).handleCount.toNat).length := by
    unfold openEntries
    apply Nat.lt_of_le_of_ne List.countP_le_length
    intro heq
    have hall := List.countP_eq_length.mp heq i (List.mem_range.mpr hi)
    rw [hfree] at hall
    cases hall
  rw [List.length_range] at hlt
  omega

theorem openEntries_full (hfull : forall i,
    i < (s.kernel.task p).handleCount.toNat -> s.kernel.entry p i ≠ 0) :
    openEntries s.kernel p = (s.kernel.task p).handleCount.toNat := by
  unfold openEntries
  rw [List.countP_eq_length.mpr, List.length_range]
  intro i hi
  exact bne_iff_ne.mpr (hfull i (List.mem_range.mp hi))

theorem TableInv.step (hs : TableInv s label) (hx : TableSound s)
    {s' : TableRun} {op : TableOp} (hstep : TableStep s op s') :
    (RoomFor s.kernel op -> (exists label', TableInv s' label') ∧
      TableSound s') ∧ (TableSound s' -> RoomFor s.kernel op) := by
  cases hstep with
  | @add p handle id k hp hne hrun =>
      rcases taskAddHandle_cases hrun with ⟨i, ha⟩ | ⟨h, hmalloc⟩ |
        ⟨newTable, h, h', ha⟩
      · have hbyte := (s.kernel.task p).handleCount.isLt
        have hi := ha.index
        have hid : id ≠ 0 := by
          rw [ha.id]
          bv_omega
        have hroom := openEntries_lt ha.index ha.free
        have hfree : taskGetHandle s.kernel p id = 0 := by
          unfold taskGetHandle
          rw [ha.id, entryIndex_ofNat (by omega), if_pos hi, ha.free]
        rw [if_neg hid, ha.state]
        refine ⟨fun _ => ⟨⟨label, hs.owned, hs.pool_pos, hs.table, hs.empty,
          hs.fives, ?_⟩, ?_⟩, fun _ => hroom⟩
        · intro e he
          rcases List.mem_cons.mp he with rfl | he
          · exact hne
          · exact hs.handles e he
        · refine hx.add hs hp rfl hid hfree fun q hq id' => ?_
          rw [hs.get_setEntry hp hq hi, ha.id]
      · exact absurd rfl (malloc_ne_zero hs.owned.heap hs.pool_pos hmalloc)
      · have hbyte := (s.kernel.task p).handleCount.isLt
        have hid : id ≠ 0 := by
          rw [ha.id]
          bv_omega
        have hopen := openEntries_full ha.full
        rw [if_neg hid]
        constructor
        · intro hroom
          have hfew : (s.kernel.task p).handleCount.toNat < 255 :=
            hopen ▸ hroom
          have hfree : taskGetHandle s.kernel p id = 0 := by
            unfold taskGetHandle
            rw [ha.id, entryIndex_ofNat (by omega)]
            exact if_neg (Nat.lt_irrefl _)
          have hlist : k.taskList = s.kernel.taskList := by
            rw [ha.state]
            rfl
          refine ⟨ha.inv hs hp hne hfew, hx.add hs hp hlist hid hfree ?_⟩
          intro q hq id'
          by_cases hqp : q = p
          · subst hqp
            rw [ha.get_self hs hp hfew]
            simp only [true_and]
          · rw [ha.get_other hs hq hqp, if_neg (fun h => hqp h.1)]
        · intro hx'
          change openEntries s.kernel p < 255
          rw [hopen]
          by_contra hmany
          have hlost := ha.get_lost (by omega)
          have hp' : p ∈ k.taskList := by
            rw [ha.state]
            exact hp
          have hget := hx'.get p hp' id
          rw [liveHandle_cons, if_pos ⟨rfl, rfl⟩] at hget
          exact hne (hget.symm.trans hlost)
  | @remove p id hp =>
      refine ⟨fun _ => ⟨⟨label, ?_⟩, hx.remove hs hp id⟩, fun _ => trivial⟩
      have hlive : forall e, e ∈ s.live.filter (fun e => !e.named p id) ->
          e.handle ≠ 0 := fun e he => hs.handles e (List.mem_of_mem_filter he)
      rcases taskRemoveHandle_eq s.kernel p id with h | h
      · rw [h]
        exact ⟨hs.owned, hs.pool_pos, hs.table, hs.empty, hs.fives, hlive⟩
      · rw [h]
        exact ⟨hs.owned, hs.pool_pos, hs.table, hs.empty, hs.fives, hlive⟩

end Inv

theorem TableStart.sound {s : TableRun} (hs : TableStart s) :
    (exists label, TableInv s label) ∧ TableSound s := by
  rcases s with ⟨k, live⟩
  rcases hs with ⟨rfl, hheap, hpool, hhandles, hcount⟩
  refine ⟨⟨fun _ => none, ⟨hheap, ?_⟩, hpool, ?_, ?_, ?_, ?_⟩, ?_, ?_, ?_⟩
  · intro p o hp
    cases hp
  · intro p hp hp0
    exact absurd (hhandles p hp) hp0
  · intro p hp _
    rw [hcount p hp]
    rfl
  · intro p hp
    rw [hcount p hp]
    exact Nat.dvd_zero 5
  · intro e he
    cases he
  · intro e he
    cases he
  · exact List.nodup_nil
  · intro p hp id
    change p ∈ k.taskList at hp
    change taskGetHandle k p id = 0
    unfold taskGetHandle
    have hzero : (k.task p).handleCount = 0 := hcount p hp
    rw [hzero]
    exact if_neg (Nat.not_lt_zero _)

def RoomyStep (s s' : TableRun) : Prop :=
  exists op, RoomFor s.kernel op ∧ TableStep s op s'

theorem reachable_tables {s : TableRun} (hs : Reachable TableStart RoomyStep s) :
    (exists label, TableInv s label) ∧ TableSound s := by
  apply hs.invariant
    (I := fun s => (exists label, TableInv s label) ∧ TableSound s)
  · exact fun s h => h.sound
  · intro s s' h hstep
    rcases h with ⟨⟨label, hinv⟩, hx⟩
    rcases hstep with ⟨op, hroom, hstep⟩
    exact (hinv.step hx hstep).1 hroom

/-- The tables are right as long as no task with 255 handles gets one more, and
they no longer are after the first one that does. -/
theorem handle_table {s : TableRun} (hs : Reachable TableStart RoomyStep s) :
    TableSound s ∧ forall op s', TableStep s op s' ->
      (TableSound s' <-> RoomFor s.kernel op) := by
  rcases reachable_tables hs with ⟨⟨label, hinv⟩, hx⟩
  refine ⟨hx, fun op s' hstep => ?_⟩
  rcases hinv.step hx hstep with ⟨hgood, hbad⟩
  exact ⟨hbad, fun hroom => (hgood hroom).2⟩

/-!
# A table with 256 handles

The one task of a kernel with an empty heap keeps adding handles.
-/

def oneTask : TableRun where
  kernel := { smallBoot with taskList := [8] }
  live := []

theorem oneTask_start : TableStart oneTask :=
  ⟨rfl, smallBoot_boot.heap, smallBoot_boot.pool_pos, fun _ _ => rfl,
    fun _ _ => rfl⟩

theorem oneTask_add : exists s, TableStep oneTask (.add 8 1) s :=
  ⟨_, .add List.mem_cons_self (by decide) rfl⟩

theorem handle_table_one_task : exists s,
    TableStep oneTask (.add 8 1) s ∧ TableSound s := by
  have hroom : openEntries oneTask.kernel 8 < 255 := by decide
  rcases oneTask_add with ⟨s, hstep⟩
  exact ⟨s, hstep, (handle_table (Reachable.step
    (Reachable.start oneTask_start) ⟨.add 8 1, hroom, hstep⟩)).1⟩

structure Filled (s : TableRun) (n : Nat) : Prop where
  tasks : s.kernel.taskList = [8]
  inv : exists label, TableInv s label
  sound : TableSound s
  layout : s.kernel.fs.heap.layout = smallHeap.layout
  only : forall b, s.kernel.fs.heap.taken b = true ->
    s.kernel.fs.heap.address b = (s.kernel.task 8).handles
  few : n ≤ (s.kernel.task 8).handleCount.toNat
  entries : forall i, i < (s.kernel.task 8).handleCount.toNat ->
    (s.kernel.entry 8 i ≠ 0 <-> i < n)

section Filled

variable {s : TableRun} {n : Nat}

theorem smallHeap_layout : smallHeap.layout =
    [⟨4, 0⟩, ⟨8, 0⟩, ⟨18, 0⟩, ⟨38, 0⟩, ⟨512, 8⟩, ⟨4096, 5⟩] := by
  decide +kernel

theorem Filled.malloc (hs : Filled s n) (size : Word) (hsize : size.toNat ≤ 4096) :
    exists b, b < blockCount s.kernel.fs.heap.layout ∧
      Kernel.malloc s.kernel.fs.heap size =
        .ok (s.kernel.fs.heap.address b, s.kernel.fs.heap.take b) := by
  rcases hs.inv with ⟨label, hinv⟩
  have hheap := hinv.owned.heap
  have hskip : skipCount size.toNat s.kernel.fs.heap.layout ≤ 8 := by
    rw [hs.layout, smallHeap_layout]
    simp only [skipCount]
    split_ifs <;> omega
  have hblocks : blockCount s.kernel.fs.heap.layout = 13 := by
    rw [hs.layout, smallHeap_layout]
    rfl
  rcases malloc_eq hheap.zoneTable size with ⟨b, _, hb, _, _, heq⟩ | ⟨hall, _⟩
  · exact ⟨b, hb, heq⟩
  · have h₁ := hs.only 11 (hall 11 (by omega) (by omega))
    have h₂ := hs.only 12 (hall 12 (by omega) (by omega))
    have hsame := address_injective hheap.table (by omega) (by omega)
      (h₁.trans h₂.symm)
    cases hsame

theorem taskAddHandle_ok {k : KernelState} {p handle newTable : Word}
    {h : Heap} (hmalloc : Kernel.malloc k.fs.heap (taskHandleSize *
      BitVec.ofNat 16 ((k.task p).handleCount.toNat + 5)) = .ok (newTable, h))
    (hnew : newTable ≠ 0) (h' : Heap) (hfree : (k.task p).handles ≠ 0 ->
      Kernel.free h (k.task p).handles = .ok h') :
    exists id k', taskAddHandle k p handle = .ok (id, k') := by
  unfold taskAddHandle
  dsimp only
  split
  · exact ⟨_, _, rfl⟩
  · rw [kernel_malloc_of_heap hmalloc, ok_bind]
    dsimp only
    rw [if_neg hnew]
    split
    · next hp0 =>
        rw [kernel_free_of_heap (h := h') (hfree hp0)]
        exact ⟨_, _, rfl⟩
    · exact ⟨_, _, rfl⟩

theorem tableBytes (count : Byte) : (taskHandleSize *
    BitVec.ofNat 16 (count.toNat + 5)).toNat = 2 * (count.toNat + 5) := by
  have hbyte := count.isLt
  rw [BitVec.toNat_mul, BitVec.toNat_ofNat]
  change 2 * _ % 2 ^ 16 = _
  omega

theorem Filled.add (hs : Filled s n) : exists id k,
    taskAddHandle s.kernel 8 1 = .ok (id, k) := by
  have hbyte := (s.kernel.task 8).handleCount.isLt
  rcases hs.inv with ⟨label, hinv⟩
  rcases hs.malloc (taskHandleSize * BitVec.ofNat 16
    ((s.kernel.task 8).handleCount.toNat + 5)) (by rw [tableBytes]; omega)
    with ⟨b, hb, hmalloc⟩
  have hnew := malloc_ne_zero hinv.owned.heap hinv.pool_pos hmalloc
  rcases hinv.owned.malloc hmalloc (o := (8 : Word)) (Nat.zero_le _) with
    ⟨hnone, howned⟩
  by_cases hp0 : (s.kernel.task 8).handles = 0
  · exact taskAddHandle_ok hmalloc hnew smallHeap (fun h => absurd hp0 h)
  · have hp : (8 : Word) ∈ s.kernel.taskList :=
      hs.tasks ▸ List.mem_singleton_self _
    have hlabel := hinv.table 8 hp hp0
    have hne : (s.kernel.task 8).handles ≠ s.kernel.fs.heap.address b := by
      intro heq
      rw [heq, hnone] at hlabel
      cases hlabel
    rcases howned.free ((Function.update_of_ne hne ..).trans hlabel) with
      ⟨h', hfree, _⟩
    exact taskAddHandle_ok hmalloc hnew h' (fun _ => hfree)

theorem Filled.only_new (hs : Filled s n) {k : KernelState}
    {id newTable : Word} {h h' : Heap}
    (ha : AddedBehind s.kernel k 8 1 id newTable h h') :
    h'.layout = smallHeap.layout ∧
      forall c, h'.taken c = true -> h'.address c = newTable := by
  rcases hs.inv with ⟨label, hinv⟩
  have hheap := hinv.owned.heap
  have hp : (8 : Word) ∈ s.kernel.taskList :=
    hs.tasks ▸ List.mem_singleton_self _
  have hbyte := (s.kernel.task 8).handleCount.isLt
  rcases hs.malloc (taskHandleSize * BitVec.ofNat 16
    ((s.kernel.task 8).handleCount.toNat + 5)) (by rw [tableBytes]; omega)
    with ⟨b, hb, hmalloc⟩
  have hfresh := ha.fresh hinv
  have hfreed := ha.freed
  have hother := ha.other hinv hp
  rw [ha.malloc] at hmalloc
  cases hmalloc
  split at hfreed
  · next hp0 =>
      have hlabel := hinv.table 8 hp hp0
      rcases hinv.owned.taken _ _ hlabel with ⟨c, hc, hcp, _⟩
      have hclt := hheap.taken_lt c hc
      rw [← hcp] at hfreed
      have hrelease := free_address (h := s.kernel.fs.heap.take b)
        hfresh.2.heap.table (b := c) hclt
      rw [take_address, hfreed] at hrelease
      cases hrelease
      refine ⟨hs.layout, ?_⟩
      intro d hd
      change s.kernel.fs.heap.address d = s.kernel.fs.heap.address b
      rw [release_taken, take_taken] at hd
      by_cases hdb : d = b
      · rw [hdb]
      · by_cases hdt : s.kernel.fs.heap.taken d = true
        · have hdc := address_injective hheap.table (hheap.taken_lt d hdt) hclt
            ((hs.only d hdt).trans hcp.symm)
          simp [hdc, hc] at hd
        · by_cases hdc : d = c
          · exact absurd (hdc ▸ hc) hdt
          · simp [hdb, hdc, hdt] at hd
  · next hp0 =>
      rw [hfreed]
      refine ⟨hs.layout, ?_⟩
      intro d hd
      change s.kernel.fs.heap.address d = s.kernel.fs.heap.address b
      rw [take_taken, Bool.or_eq_true, decide_eq_true_eq] at hd
      rcases hd with hd | rfl
      · have hzero := (hs.only d hd).trans (not_not.mp hp0)
        exact absurd hzero
          (address_ne_zero hheap hinv.pool_pos (hheap.taken_lt d hd))
      · rfl

/-- With fewer than 255 handles one more is added behind them. -/
theorem Filled.next (hs : Filled s n) (hn : n < 255) :
    exists s', TableStep s (.add 8 1) s' ∧ Filled s' (n + 1) := by
  rcases hs.add with ⟨id, k, hrun⟩
  have hp : (8 : Word) ∈ s.kernel.taskList :=
    hs.tasks ▸ List.mem_singleton_self _
  have hstep := TableStep.add hp (by decide) hrun
  refine ⟨_, hstep, ?_⟩
  rcases hs.inv with ⟨label, hinv⟩
  rcases taskAddHandle_cases hrun with ⟨i, ha⟩ | ⟨h, hmalloc⟩ |
    ⟨newTable, h, h', ha⟩
  · have hroom := openEntries_lt ha.index ha.free
    rcases (hinv.step hs.sound hstep).1 hroom with ⟨hinv', hsound⟩
    have hi : i = n := by
      have hge : ¬ i < n := fun h => (hs.entries i ha.index).mpr h ha.free
      have hle : ¬ n < i := by
        intro h
        have hfull := ha.full n h
        rw [hs.entries n (by have := ha.index; omega)] at hfull
        exact Nat.lt_irrefl _ hfull
      omega
    subst hi
    refine ⟨?_, hinv', hsound, ?_, ?_, ?_, ?_⟩ <;> rw [ha.state]
    · exact hs.tasks
    · exact hs.layout
    · exact hs.only
    · exact ha.index
    · intro j hj
      change (s.kernel.setEntry _ i 1).entry 8 j ≠ 0 <-> _
      rw [setEntry_entry]
      by_cases hji : j = i
      · rw [if_pos ⟨rfl, hji⟩, hji]
        exact iff_of_true (by decide) (Nat.lt_succ_self i)
      · rw [if_neg (fun h => hji h.2), hs.entries j hj]
        omega
  · exact absurd rfl (malloc_ne_zero hinv.owned.heap hinv.pool_pos hmalloc)
  · have hcount : (s.kernel.task 8).handleCount.toNat = n := by
      have hfew := hs.few
      by_contra hne
      have hfull := ha.full n (by omega)
      rw [hs.entries n (by omega)] at hfull
      exact Nat.lt_irrefl _ hfull
    have hroom : openEntries s.kernel 8 < 255 := by
      rw [openEntries_full ha.full, hcount]
      exact hn
    rcases (hinv.step hs.sound hstep).1 hroom with ⟨hinv', hsound⟩
    have htask := installTable_task (p := 8) s.kernel newTable 1 n 8
    have hfives := hinv.fives 8 hp
    have hempty := hinv.empty 8 hp
    have hlong : ((installTable s.kernel 8 newTable 1 n).task
        8).handleCount.toNat = n + 5 := by
      rw [htask.2, if_pos rfl, BitVec.toNat_ofNat]
      apply Nat.mod_eq_of_lt
      omega
    have hnew := hs.only_new ha
    have hstate := ha.state
    rw [hcount] at hstate hempty
    refine ⟨?_, hinv', hsound, ?_, ?_, ?_, ?_⟩ <;> rw [hstate]
    · exact hs.tasks
    · exact hnew.1
    · intro b hb
      refine (hnew.2 b hb).trans ?_
      change _ = ((installTable s.kernel 8 newTable 1 n).task 8).handles
      rw [htask.1, if_pos rfl]
    · change n + 1 ≤ ((installTable s.kernel 8 newTable 1 n).task
        8).handleCount.toNat
      omega
    · intro j hj
      change (installTable s.kernel 8 newTable 1 n).entry 8 j ≠ 0 <-> _
      rw [installTable_entry]
      by_cases hjn : j = n
      · rw [if_pos hjn, hjn]
        exact iff_of_true (by decide) (Nat.lt_succ_self n)
      · rw [if_neg hjn]
        by_cases hlt : j < n
        · have hp0 : (s.kernel.task 8).handles ≠ 0 := fun h => by
            have := hempty h
            omega
          rw [if_pos ⟨hp0, hlt⟩, hs.entries j (by omega)]
          omega
        · rw [if_neg (fun h => hlt h.2)]
          refine iff_of_false (fun h => h rfl) ?_
          omega

end Filled

theorem oneTask_filled : Filled oneTask 0 := by
  have hstart := oneTask_start.sound
  refine ⟨rfl, hstart.1, hstart.2, rfl, ?_, Nat.le_refl _, ?_⟩
  · intro b hb
    change smallHeap.taken b = true at hb
    have hlt := smallBoot_boot.heap.taken_lt b hb
    have hfree : forall b, b < blockCount smallHeap.layout ->
        smallHeap.taken b = false := by decide +kernel
    rw [hfree b hlt] at hb
    cases hb
  · intro i hi
    exact absurd hi (Nat.not_lt_zero i)

/-- The task gets any number of handles up to 255. -/
theorem exists_filled {n : Nat} (hn : n ≤ 255) : exists s,
    Reachable TableStart (fun s s' => exists op, TableStep s op s') s ∧
      Filled s n := by
  induction n with
  | zero => exact ⟨oneTask, Reachable.start oneTask_start, oneTask_filled⟩
  | succ n ih =>
      rcases ih (by omega) with ⟨s, hs, hfilled⟩
      rcases hfilled.next (by omega) with ⟨s', hstep, hfilled'⟩
      exact ⟨s', Reachable.step hs ⟨_, hstep⟩, hfilled'⟩

/-- With 256 handles the table is wrong. -/
theorem handle_table_lost : exists s,
    Reachable TableStart (fun s s' => exists op, TableStep s op s') s ∧
      ¬ TableSound s := by
  rcases exists_filled (n := 255) (by decide) with ⟨s, hs, hfilled⟩
  rcases hfilled.add with ⟨id, k, hrun⟩
  have hp : (8 : Word) ∈ s.kernel.taskList :=
    hfilled.tasks ▸ List.mem_singleton_self _
  have hstep := TableStep.add hp (by decide) hrun
  refine ⟨_, Reachable.step hs ⟨_, hstep⟩, ?_⟩
  rcases hfilled.inv with ⟨label, hinv⟩
  intro hsound
  have hroom : openEntries s.kernel 8 < 255 :=
    (hinv.step hfilled.sound hstep).2 hsound
  have hbyte := (s.kernel.task 8).handleCount.isLt
  have hfew := hfilled.few
  rw [openEntries_full (fun i hi => (hfilled.entries i hi).mpr (by omega))]
    at hroom
  omega

end Kernel
end Rmmtos
