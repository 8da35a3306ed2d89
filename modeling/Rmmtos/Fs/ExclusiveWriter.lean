import Rmmtos.Fs.OpenHandles
import Rmmtos.Kernel.System

/-!
# Exclusive writers

A handle that writes should be the only handle on its node that reads or
writes.  An open tests the counts of the directory it is given.  The handle is
counted on the directory that one is redirected to, so that an open through a
redirected directory is only safe when its target would have passed the test,
too.
-/

namespace Rmmtos
namespace Fs

open Library Kernel

/-!
# Histories of handles
-/

/-- The file system and all handles that are open. -/
structure HandleRun where
  fs : FsState
  live : List Word

inductive HandleOp where
  | directoryOpen (node mode : Word)
  | directoryClose (handle : Word)
  | directoryRedirect (node destination : Word)
  | fileOpen (node mode : Word)
  | fileClose (handle : Word)
deriving DecidableEq, Repr

/-- An open that is refused returns no handle. -/
def addLive (p : Word) (live : List Word) : List Word :=
  if p = 0 then live else p :: live

inductive HandleStep : HandleRun -> HandleOp -> HandleRun -> Prop where
  | directoryOpen {s : HandleRun} {node mode p : Word} {fs : FsState} :
      directoryOpen s.fs node mode = .ok (p, fs) ->
      HandleStep s (.directoryOpen node mode) ⟨fs, addLive p s.live⟩
  | directoryClose {s : HandleRun} {h : Word} {fs : FsState} :
      h ∈ s.live -> directoryClose s.fs h = .ok fs ->
      HandleStep s (.directoryClose h) ⟨fs, s.live.erase h⟩
  | directoryRedirect {s : HandleRun} {node destination : Word}
      {fs : FsState} : directoryRedirect s.fs node destination = .ok fs ->
      HandleStep s (.directoryRedirect node destination) ⟨fs, s.live⟩
  | fileOpen {s : HandleRun} {node mode p : Word} {fs : FsState} :
      fileOpen s.fs node mode = .ok (p, fs) ->
      HandleStep s (.fileOpen node mode) ⟨fs, addLive p s.live⟩
  | fileClose {s : HandleRun} {h : Word} {fs : FsState} :
      h ∈ s.live -> fileClose s.fs h = .ok fs ->
      HandleStep s (.fileClose h) ⟨fs, s.live.erase h⟩

structure HandleStart (s : HandleRun) : Prop where
  live : s.live = []
  heap : HeapInv s.fs.heap
  pool_pos : 0 < s.fs.heap.poolStart.toNat
  readers : forall node, (s.fs.node node).readers = 0
  writers : forall node, (s.fs.node node).writers = 0

/-- A handle that writes is the only one on its node that reads or writes. -/
def Exclusive (s : HandleRun) : Prop :=
  forall h, h ∈ s.live -> asks (s.fs.handle h).flags handleWrite = true ->
    forall h', h' ∈ s.live -> h' ≠ h ->
      (s.fs.handle h').node = (s.fs.handle h).node ->
      asks (s.fs.handle h').flags handleRead = false ∧
        asks (s.fs.handle h').flags handleWrite = false

instance (s : HandleRun) : Decidable (Exclusive s) :=
  inferInstanceAs (Decidable (forall h, h ∈ s.live -> _ ->
    forall h', h' ∈ s.live -> _))

/-- An open that passes the test of a directory passes the one of the directory
it is redirected to. -/
def TargetFree (s : FsState) : HandleOp -> Prop
  | .directoryOpen node mode => busy (s.node node) mode = false ->
      busy (s.node (openTarget s node)) mode = false
  | _ => True

instance (s : FsState) : (op : HandleOp) -> Decidable (TargetFree s op)
  | .directoryOpen node mode => inferInstanceAs (Decidable
      (busy (s.node node) mode = false ->
        busy (s.node (openTarget s node)) mode = false))
  | .directoryClose _ => instDecidableTrue
  | .directoryRedirect _ _ => instDecidableTrue
  | .fileOpen _ _ => instDecidableTrue
  | .fileClose _ => instDecidableTrue

/-!
# The invariant
-/

structure HandleInv (s : HandleRun) : Prop where
  owned : OwnsAll s.fs.heap s.live
  pool_pos : 0 < s.fs.heap.poolStart.toNat
  counted : Counted s.fs s.live

theorem Exclusive.mono {s s' : HandleRun} (hs : Exclusive s)
    (hlive : forall h, h ∈ s'.live -> h ∈ s.live)
    (hhandle : forall h, h ∈ s'.live -> s'.fs.handle h = s.fs.handle h) :
    Exclusive s' := by
  intro h hh hwrite h' hh' hne hnode
  rw [hhandle h hh] at hwrite hnode
  rw [hhandle h' hh'] at hnode ⊢
  exact hs h (hlive h hh) hwrite h' (hlive h' hh') hne hnode

section Open

variable {s : HandleRun} {n p node type mode : Word} {h : Heap}

def openedRun (s : HandleRun) (h : Heap) (p node type mode : Word) :
    HandleRun :=
  ⟨openHandle { s.fs with heap := h } p node type mode, p :: s.live⟩

theorem HandleInv.open (hs : HandleInv s)
    (hmalloc : Kernel.malloc s.fs.heap n = .ok (p, h))
    (htype : PlainType type) (node mode : Word) :
    p ∉ s.live ∧ p ≠ 0 ∧ HandleInv (openedRun s h p node type mode) := by
  rcases hs.owned.malloc hmalloc with ⟨hp, howned⟩
  have hp0 := malloc_ne_zero hs.owned.heap hs.pool_pos hmalloc
  have hcounted : Counted { s.fs with heap := h } s.live :=
    hs.counted.congr (fun _ _ => rfl) (fun _ => rfl) (fun _ => rfl)
  refine ⟨hp, hp0, howned, ?_, hcounted.open hp hp0 htype⟩
  change 0 < h.poolStart.toNat
  rw [malloc_poolStart hmalloc]
  exact hs.pool_pos

theorem openedRun_self :
    (openedRun s h p node type mode).fs.handle p =
      ⟨type ||| mode, node, init64 0 0 0 0⟩ :=
  (openHandle_handle p).trans (if_pos rfl)

theorem openedRun_other {q : Word} (hq : q ≠ p) :
    (openedRun s h p node type mode).fs.handle q = s.fs.handle q :=
  (openHandle_handle q).trans (if_neg hq)

/-- A new handle on a node that is not busy keeps the writers exclusive. -/
theorem Exclusive.open (hx : Exclusive s) (hs : HandleInv s)
    (htype : PlainType type) (hp : p ∉ s.live)
    (hbusy : busy (s.fs.node node) mode = false) :
    Exclusive (openedRun s h p node type mode) := by
  intro a hmema hwrite b hmemb hne hnode
  rcases List.mem_cons.mp hmema with rfl | ha
  · rcases List.mem_cons.mp hmemb with rfl | hb
    · exact absurd rfl hne
    · rw [openedRun_self] at hwrite hnode
      rw [openedRun_other hne] at hnode ⊢
      rw [asks_or htype.2] at hwrite
      exact (hs.counted.free_of_not_busy hbusy hb hnode).1 hwrite
  · have hap : a ≠ p := fun h => hp (h ▸ ha)
    rw [openedRun_other hap] at hwrite hnode
    rcases List.mem_cons.mp hmemb with rfl | hb
    · rw [openedRun_self] at hnode ⊢
      have hfree := hs.counted.free_of_not_busy hbusy ha hnode.symm
      rw [asks_or htype.1, asks_or htype.2]
      constructor
      · by_contra hread
        have hnot := hfree.2 (by simpa using hread)
        rw [hwrite] at hnot
        cases hnot
      · by_contra hmode
        have hnot := (hfree.1 (by simpa using hmode)).2
        rw [hwrite] at hnot
        cases hnot
    · have hbp : b ≠ p := fun h => hp (h ▸ hb)
      rw [openedRun_other hbp] at hnode ⊢
      exact hx a ha hwrite b hb hne hnode

/-- A new handle on a busy node is one beside a writer, or a writer beside
another handle. -/
theorem not_exclusive_open (hs : HandleInv s) (htype : PlainType type)
    (hp : p ∉ s.live) (hbusy : busy (s.fs.node node) mode = true) :
    ¬ Exclusive (openedRun s h p node type mode) := by
  intro hx
  have hmem : forall access, openCount s.fs s.live node access ≠ 0 ->
      exists a, a ∈ s.live ∧ a ≠ p ∧ (s.fs.handle a).node = node ∧
        asks (s.fs.handle a).flags access = true := by
    intro access hcount
    rcases List.countP_pos_iff.mp (Nat.pos_of_ne_zero hcount) with
      ⟨a, ha, hon⟩
    unfold onNode at hon
    rw [Bool.and_eq_true, beq_iff_eq] at hon
    exact ⟨a, ha, fun h => hp (h ▸ ha), hon⟩
  have hcount : forall access (w : Word),
      w.toNat = openCount s.fs s.live node access ->
      (w != 0) = true -> openCount s.fs s.live node access ≠ 0 := by
    intro access w hw hne hzero
    rw [hzero] at hw
    exact bne_iff_ne.mp hne (BitVec.eq_of_toNat_eq hw)
  have hself : (openedRun s h p node type mode).fs.handle p =
      ⟨type ||| mode, node, init64 0 0 0 0⟩ := openedRun_self
  unfold busy at hbusy
  rw [Bool.or_eq_true, Bool.and_eq_true, Bool.and_eq_true, Bool.or_eq_true]
    at hbusy
  rcases hbusy with ⟨hmode, hopen⟩ | ⟨hmode, hopen⟩
  · have hconflict : forall a, a ∈ s.live -> a ≠ p ->
        (s.fs.handle a).node = node ->
        asks (s.fs.handle a).flags handleRead = false ∧
          asks (s.fs.handle a).flags handleWrite = false := by
      intro a ha hap hon
      have hbeside := hx p List.mem_cons_self (by
        rw [hself]
        exact (asks_or htype.2).trans hmode) a (List.mem_cons_of_mem p ha) hap
      rw [hself, openedRun_other hap] at hbeside
      exact hbeside hon
    rcases hopen with hreaders | hwriters
    · rcases hmem _ (hcount _ _ (hs.counted.readers node) hreaders) with
        ⟨a, ha, hap, hon, hasks⟩
      rw [(hconflict a ha hap hon).1] at hasks
      cases hasks
    · rcases hmem _ (hcount _ _ (hs.counted.writers node) hwriters) with
        ⟨a, ha, hap, hon, hasks⟩
      rw [(hconflict a ha hap hon).2] at hasks
      cases hasks
  · rcases hmem _ (hcount _ _ (hs.counted.writers node) hopen) with
      ⟨a, ha, hap, hon, hasks⟩
    have hbeside := hx a (List.mem_cons_of_mem p ha)
      (by rw [openedRun_other hap]; exact hasks) p List.mem_cons_self
      (Ne.symm hap)
    rw [hself, openedRun_other hap] at hbeside
    have hread := (hbeside hon.symm).1
    rw [asks_or htype.1] at hread
    rw [hread] at hmode
    cases hmode

end Open

/-!
# Every step
-/

section Steps

variable {s s' : HandleRun}

theorem HandleInv.opened (hs : HandleInv s) {fs : FsState}
    {p node target size type mode : Word} (htype : PlainType type)
    (h : Opened s.fs fs p node target size type mode) :
    HandleInv ⟨fs, addLive p s.live⟩ ∧
      (Exclusive s -> (Exclusive ⟨fs, addLive p s.live⟩ <->
        (busy (s.fs.node node) mode = false ->
          busy (s.fs.node target) mode = false))) := by
  rcases h with ⟨hbusy, rfl, rfl⟩ | ⟨hbusy, heap, hmalloc, rfl⟩
  · refine ⟨hs, fun hx => ⟨fun _ hfree => ?_, fun _ => hx⟩⟩
    rw [hbusy] at hfree
    cases hfree
  · rcases hs.open hmalloc htype target mode with ⟨hp, hp0, hinv⟩
    unfold addLive
    rw [if_neg hp0, if_neg hp0]
    refine ⟨hinv, fun hx => ⟨fun hx' _ => ?_, fun hfree => ?_⟩⟩
    · rw [← Bool.not_eq_true]
      exact fun htarget => not_exclusive_open hs htype hp htarget hx'
    · exact hx.open hs htype hp (hfree hbusy)

theorem HandleInv.closed (hs : HandleInv s) {h : Word} {fs : FsState}
    (hh : h ∈ s.live) (hrun : closeHandle s.fs h = .ok fs) :
    HandleInv ⟨fs, s.live.erase h⟩ ∧
      (Exclusive s -> Exclusive ⟨fs, s.live.erase h⟩) := by
  rcases closeHandle_eq hrun with ⟨hfree, hnode, hhandle⟩
  refine ⟨⟨hs.owned.free hs.counted.nodup hh hfree, ?_,
    hs.counted.close hh hnode hhandle⟩, ?_⟩
  · change 0 < fs.heap.poolStart.toNat
    rw [free_poolStart hfree]
    exact hs.pool_pos
  · intro hx
    exact hx.mono (fun _ => List.mem_of_mem_erase) fun q _ => congrFun hhandle q

theorem HandleInv.step (hs : HandleInv s) {op : HandleOp}
    (hstep : HandleStep s op s') :
    HandleInv s' ∧ (Exclusive s -> (Exclusive s' <-> TargetFree s.fs op)) := by
  cases hstep with
  | directoryOpen hrun =>
      exact hs.opened plainType_directory (directoryOpen_opened hrun)
  | directoryClose hh hrun =>
      rcases hs.closed hh hrun with ⟨hinv, hx⟩
      exact ⟨hinv, fun h => iff_of_true (hx h) trivial⟩
  | @directoryRedirect node destination fs hrun =>
      unfold Fs.directoryRedirect at hrun
      split at hrun
      · cases hrun
      · cases hrun
        have hcount : forall n, ((s.fs.setNode node { s.fs.node node with
              redirect := destination }).node n).readers =
                (s.fs.node n).readers ∧
            ((s.fs.setNode node { s.fs.node node with
              redirect := destination }).node n).writers =
                (s.fs.node n).writers := by
          intro n
          unfold FsState.setNode
          by_cases hn : n = node <;> simp [hn]
        refine ⟨⟨hs.owned, hs.pool_pos, hs.counted.congr (fun _ _ => rfl)
          (fun n => (hcount n).1) (fun n => (hcount n).2)⟩, ?_⟩
        exact fun h => iff_of_true
          (h.mono (fun _ hmem => hmem) fun _ _ => rfl) trivial
  | fileOpen hrun =>
      rcases hs.opened plainType_file (fileOpen_opened hrun) with ⟨hinv, hx⟩
      exact ⟨hinv, fun h => iff_of_true ((hx h).mpr fun hfree => hfree) trivial⟩
  | fileClose hh hrun =>
      rcases hs.closed hh hrun with ⟨hinv, hx⟩
      exact ⟨hinv, fun h => iff_of_true (hx h) trivial⟩

theorem HandleStart.inv (hs : HandleStart s) : HandleInv s ∧ Exclusive s := by
  rcases s with ⟨fs, live⟩
  rcases hs with ⟨rfl, hheap, hpool, hreaders, hwriters⟩
  refine ⟨⟨⟨hheap, ?_⟩, hpool, List.nodup_nil, List.not_mem_nil, ?_, ?_⟩, ?_⟩
  · intro p o hp
    cases hp
  · intro node
    rw [hreaders]
    rfl
  · intro node
    rw [hwriters]
    rfl
  · intro h hh
    cases hh

/-- The steps that open through a redirected directory only when its target is
free. -/
def FreeStep (s s' : HandleRun) : Prop :=
  exists op, TargetFree s.fs op ∧ HandleStep s op s'

theorem reachable_exclusive (hs : Reachable HandleStart FreeStep s) :
    HandleInv s ∧ Exclusive s := by
  apply hs.invariant (I := fun s => HandleInv s ∧ Exclusive s)
  · exact fun s h => h.inv
  · rintro s s' ⟨hinv, hx⟩ ⟨op, hfree, hstep⟩
    rcases hinv.step hstep with ⟨hinv', hiff⟩
    exact ⟨hinv', (hiff hx).mpr hfree⟩

/-- Writers are exclusive as long as every open through a redirected directory
finds the target free, and they no longer are after the first one that does
not. -/
theorem exclusive_writer (hs : Reachable HandleStart FreeStep s) :
    Exclusive s ∧ forall op s', HandleStep s op s' ->
      (Exclusive s' <-> TargetFree s.fs op) := by
  rcases reachable_exclusive hs with ⟨hinv, hx⟩
  exact ⟨hx, fun op s' hstep => (hinv.step hstep).2 hx⟩

end Steps

/-!
# A directory with two names

Directory {lit}`8` is redirected to directory {lit}`10`.
-/

def twoNames : HandleRun where
  fs := {
    heap := smallHeap
    node := fun p =>
      ⟨[], directoryFlag, 0, 0, 0, 0, .ramfs, 0, if p = 8 then 16 else 0⟩
    handle := fun _ => ⟨0, 0, init64 0 0 0 0⟩ }
  live := []

theorem twoNames_start : HandleStart twoNames :=
  ⟨rfl, smallBoot_boot.heap, smallBoot_boot.pool_pos, fun _ => rfl,
    fun _ => rfl⟩

def openWriter (s : HandleRun) : HandleRun :=
  let r := (directoryOpen s.fs 8 handleWrite).toOption.getD (0, s.fs)
  ⟨r.2, addLive r.1 s.live⟩

theorem openWriter_step :
    HandleStep twoNames (.directoryOpen 8 handleWrite) (openWriter twoNames) :=
  HandleStep.directoryOpen rfl

theorem openWriter_step_again :
    HandleStep (openWriter twoNames) (.directoryOpen 8 handleWrite)
      (openWriter (openWriter twoNames)) :=
  HandleStep.directoryOpen rfl

theorem exclusive_writer_two_names : Exclusive (openWriter twoNames) :=
  (exclusive_writer (Reachable.step (Reachable.start twoNames_start)
    ⟨_, by decide +kernel, openWriter_step⟩)).1

theorem two_writers : exists s,
    Reachable HandleStart (fun s s' => exists op, HandleStep s op s') s ∧
      ¬ Exclusive s := by
  refine ⟨openWriter (openWriter twoNames), ?_, ?_⟩
  · exact Reachable.step (Reachable.step (Reachable.start twoNames_start)
      ⟨_, openWriter_step⟩) ⟨_, openWriter_step_again⟩
  · rcases twoNames_start.inv with ⟨hinv, hx⟩
    rcases hinv.step openWriter_step with ⟨hinv', hiff⟩
    have hx' := (hiff hx).mpr (by decide +kernel)
    rw [(hinv'.step openWriter_step_again).2 hx']
    decide +kernel

end Fs
end Rmmtos
