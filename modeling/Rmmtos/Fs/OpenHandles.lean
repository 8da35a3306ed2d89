import Rmmtos.Fs.Node
import Rmmtos.Kernel.Ownership

/-!
# Open handles and their counts

A node counts the handles that are open on it, those that read and those that
write.  The counts are right when they are the numbers of such handles among
all handles that exist.
-/

namespace Rmmtos
namespace Fs

open Library Kernel

def onNode (s : FsState) (node access h : Word) : Bool :=
  (s.handle h).node == node && asks (s.handle h).flags access

def openCount (s : FsState) (live : List Word) (node access : Word) : Nat :=
  live.countP (onNode s node access)

/-- The counts of all nodes are right for these handles. -/
structure Counted (s : FsState) (live : List Word) : Prop where
  nodup : live.Nodup
  nonzero : 0 ∉ live
  readers : forall node,
    (s.node node).readers.toNat = openCount s live node handleRead
  writers : forall node,
    (s.node node).writers.toNat = openCount s live node handleWrite

/-!
# Access bits
-/

/-- The type of a handle says nothing on its access. -/
def PlainType (type : Word) : Prop :=
  type &&& handleRead = 0 ∧ type &&& handleWrite = 0

theorem plainType_file : PlainType fileFlag := ⟨rfl, rfl⟩

theorem plainType_directory : PlainType directoryFlag := ⟨rfl, rfl⟩

theorem asks_or {type mode access : Word} (h : type &&& access = 0) :
    asks (type ||| mode) access = asks mode access := by
  have hand : (type ||| mode) &&& access = mode &&& access := by
    rw [BitVec.and_comm, BitVec.and_or_distrib_left, BitVec.and_comm access type,
      h, BitVec.and_comm access mode]
    exact BitVec.zero_or
  unfold asks
  rw [hand]

/-!
# What an open and a close leave
-/

section Frame

variable {s : FsState} {p node type mode : Word}

theorem openHandle_handle (q : Word) :
    (openHandle s p node type mode).handle q =
      if q = p then ⟨type ||| mode, node, init64 0 0 0 0⟩ else s.handle q :=
  Function.update_apply ..

theorem openHandle_readers (q : Word) :
    ((openHandle s p node type mode).node q).readers =
      if q = node ∧ asks mode handleRead = true then (s.node q).readers + 1
      else (s.node q).readers := by
  by_cases hq : q = node
  · subst hq
    simp [openHandle, nodeAcquire, FsState.setNode, FsState.setHandle,
      countOpen]
  · simp [openHandle, nodeAcquire, FsState.setNode, FsState.setHandle, hq]

theorem openHandle_writers (q : Word) :
    ((openHandle s p node type mode).node q).writers =
      if q = node ∧ asks mode handleWrite = true then (s.node q).writers + 1
      else (s.node q).writers := by
  by_cases hq : q = node
  · subst hq
    simp [openHandle, nodeAcquire, FsState.setNode, FsState.setHandle,
      countOpen]
  · simp [openHandle, nodeAcquire, FsState.setNode, FsState.setHandle, hq]

/-- What an open does: it is refused, or it takes a block for a handle on the
target. -/
def Opened (s s' : FsState) (p node target size type mode : Word) : Prop :=
  busy (s.node node) mode = true ∧ p = 0 ∧ s' = s ∨
    busy (s.node node) mode = false ∧ exists h,
      Kernel.malloc s.heap size = .ok (p, h) ∧
      s' = if p = 0 then { s with heap := h }
        else openHandle { s with heap := h } p target type mode

theorem fs_malloc_eq {s' : FsState} {size : Word}
    (hrun : s.malloc size = .ok (p, s')) :
    exists h, Kernel.malloc s.heap size = .ok (p, h) ∧
      s' = { s with heap := h } := by
  rcases ok_bind_iff.mp hrun with ⟨r, hheap, hr⟩
  cases hr
  exact ⟨r.2, hheap, rfl⟩

theorem opened_of_run {s' : FsState} {target size : Word} {refused : Prop}
    [Decidable refused] {kind : Panic}
    (hrun : (if busy (s.node node) mode then .ok (0, s)
      else if refused then panic kind
      else s.malloc size >>= fun r =>
        if r.1 = 0 then .ok r
        else .ok (r.1, openHandle r.2 r.1 target type mode)) = .ok (p, s')) :
    Opened s s' p node target size type mode := by
  split at hrun
  · next hbusy =>
      cases hrun
      exact Or.inl ⟨hbusy, rfl, rfl⟩
  · next hbusy =>
      split at hrun
      · cases hrun
      · rcases ok_bind_iff.mp hrun with ⟨⟨q, s₁⟩, hmalloc, hrun⟩
        rcases fs_malloc_eq hmalloc with ⟨h, hheap, rfl⟩
        refine Or.inr ⟨Bool.eq_false_iff.mpr hbusy, h, ?_⟩
        dsimp only at hrun
        split at hrun <;> cases hrun <;> simp_all

theorem fileOpen_opened {s' : FsState}
    (hrun : fileOpen s node mode = .ok (p, s')) :
    Opened s s' p node node fileHandleSize fileFlag mode :=
  opened_of_run hrun

theorem directoryOpen_opened {s' : FsState}
    (hrun : directoryOpen s node mode = .ok (p, s')) :
    Opened s s' p node (openTarget s node) directoryHandleSize directoryFlag
      mode :=
  opened_of_run hrun

/-- The state in which {lit}`closeHandle` frees the handle. -/
def uncountHandle (s : FsState) (p : Word) : FsState :=
  let handle := s.handle p
  nodeRelease (s.setNode handle.node
    (countClose handle.flags (s.node handle.node))) handle.node

theorem closeHandle_eq {s' : FsState} (hrun : closeHandle s p = .ok s') :
    Kernel.free s.heap p = .ok s'.heap ∧
      s'.node = (uncountHandle s p).node ∧ s'.handle = s.handle := by
  rcases ok_bind_iff.mp hrun with ⟨h, hfree, hr⟩
  cases hr
  exact ⟨hfree, rfl, rfl⟩

theorem uncountHandle_readers (q : Word) :
    ((uncountHandle s p).node q).readers =
      if onNode s q handleRead p then (s.node q).readers - 1
      else (s.node q).readers := by
  unfold onNode
  by_cases hq : (s.handle p).node = q
  · subst hq
    simp [uncountHandle, nodeRelease, FsState.setNode, countClose]
  · simp [uncountHandle, nodeRelease, FsState.setNode, hq, Ne.symm hq]

theorem uncountHandle_writers (q : Word) :
    ((uncountHandle s p).node q).writers =
      if onNode s q handleWrite p then (s.node q).writers - 1
      else (s.node q).writers := by
  unfold onNode
  by_cases hq : (s.handle p).node = q
  · subst hq
    simp [uncountHandle, nodeRelease, FsState.setNode, countClose]
  · simp [uncountHandle, nodeRelease, FsState.setNode, hq, Ne.symm hq]

end Frame

/-!
# The counts stay right
-/

section Counts

variable {s s' : FsState} {live : List Word}

theorem length_lt_of_nodup {l : List Word} (hnodup : l.Nodup) (h0 : 0 ∉ l) :
    l.length < 65536 := by
  have hnat : (l.map BitVec.toNat).Nodup :=
    hnodup.map (fun _ _ h => BitVec.eq_of_toNat_eq h)
  have hsub : l.map BitVec.toNat ⊆ List.range' 1 65535 := by
    intro n hn
    rcases List.mem_map.mp hn with ⟨w, hw, rfl⟩
    have hne : w ≠ 0 := fun h => h0 (h ▸ hw)
    have hpos : 0 < w.toNat := by
      apply Nat.pos_of_ne_zero
      intro hzero
      exact hne (BitVec.eq_of_toNat_eq hzero)
    have hlt := w.isLt
    rw [List.mem_range'_1]
    omega
  have hlen := (hnat.subperm hsub).length_le
  rw [List.length_map, List.length_range'] at hlen
  omega

theorem openCount_congr {l : List Word} {node access : Word}
    (h : forall p, p ∈ l -> s'.handle p = s.handle p) :
    openCount s' l node access = openCount s l node access := by
  apply List.countP_congr
  intro p hp
  unfold onNode
  rw [h p hp]

theorem Counted.congr (hs : Counted s live)
    (hhandle : forall p, p ∈ live -> s'.handle p = s.handle p)
    (hreaders : forall n, (s'.node n).readers = (s.node n).readers)
    (hwriters : forall n, (s'.node n).writers = (s.node n).writers) :
    Counted s' live := by
  refine ⟨hs.nodup, hs.nonzero, ?_, ?_⟩
  · intro n
    rw [hreaders, openCount_congr hhandle]
    exact hs.readers n
  · intro n
    rw [hwriters, openCount_congr hhandle]
    exact hs.writers n

theorem openCount_openHandle {p node type mode n access : Word}
    (hp : p ∉ live) (htype : type &&& access = 0) :
    openCount (openHandle s p node type mode) (p :: live) n access =
      openCount s live n access +
        if n = node ∧ asks mode access = true then 1 else 0 := by
  have hrest : openCount (openHandle s p node type mode) live n access =
      openCount s live n access := by
    apply openCount_congr
    intro q hq
    rw [openHandle_handle, if_neg (fun h : q = p => hp (h ▸ hq))]
  have hhead : onNode (openHandle s p node type mode) n access p = true <->
      n = node ∧ asks mode access = true := by
    unfold onNode
    rw [openHandle_handle, if_pos rfl, asks_or htype, Bool.and_eq_true,
      beq_iff_eq]
    exact and_congr_left' eq_comm
  unfold openCount at hrest ⊢
  rw [List.countP_cons, hrest, if_congr hhead rfl rfl]

theorem toNat_succ_of_lt {w : Word} {n : Nat} (hw : w.toNat = n)
    (hn : n < 65535) : (w + 1).toNat = n + 1 := by
  bv_omega

theorem toNat_pred_of_pos {w : Word} {n : Nat} (hw : w.toNat = n)
    (hn : 0 < n) : (w - 1).toNat = n - 1 := by
  bv_omega

theorem Counted.open (hs : Counted s live) {p node type mode : Word}
    (hp : p ∉ live) (hp0 : p ≠ 0) (htype : PlainType type) :
    Counted (openHandle s p node type mode) (p :: live) := by
  have hnodup : (p :: live).Nodup := List.nodup_cons.mpr ⟨hp, hs.nodup⟩
  have hnonzero : 0 ∉ p :: live := by
    intro h
    rcases List.mem_cons.mp h with h | h
    · exact hp0 h.symm
    · exact hs.nonzero h
  have hfew : forall n access, openCount s live n access < 65535 := by
    intro n access
    have hlen := length_lt_of_nodup hnodup hnonzero
    rw [List.length_cons] at hlen
    exact Nat.lt_of_le_of_lt List.countP_le_length (by omega)
  refine ⟨hnodup, hnonzero, ?_, ?_⟩
  · intro n
    rw [openCount_openHandle hp htype.1, openHandle_readers]
    split
    · exact toNat_succ_of_lt (hs.readers n) (hfew n handleRead)
    · exact hs.readers n
  · intro n
    rw [openCount_openHandle hp htype.2, openHandle_writers]
    split
    · exact toNat_succ_of_lt (hs.writers n) (hfew n handleWrite)
    · exact hs.writers n

theorem openCount_erase {p n access : Word} (hp : p ∈ live) :
    openCount s (live.erase p) n access =
      openCount s live n access - if onNode s n access p then 1 else 0 := by
  unfold openCount
  rw [List.countP_erase]
  simp only [hp, true_and]

theorem Counted.close (hs : Counted s live) {p : Word} (hp : p ∈ live)
    (hnode : s'.node = (uncountHandle s p).node)
    (hhandle : s'.handle = s.handle) : Counted s' (live.erase p) := by
  have hpos : forall n access, onNode s n access p = true ->
      0 < openCount s live n access := by
    intro n access hon
    exact List.countP_pos_iff.mpr ⟨p, hp, hon⟩
  have hcongr : forall n access, openCount s' (live.erase p) n access =
      openCount s (live.erase p) n access := by
    intro n access
    exact openCount_congr fun q _ => congrFun hhandle q
  refine ⟨hs.nodup.erase p, fun h => hs.nonzero (List.mem_of_mem_erase h),
    ?_, ?_⟩
  · intro n
    rw [hcongr, openCount_erase hp, hnode, uncountHandle_readers]
    split
    · next hon =>
        exact toNat_pred_of_pos (hs.readers n) (hpos n handleRead hon)
    · exact hs.readers n
  · intro n
    rw [hcongr, openCount_erase hp, hnode, uncountHandle_writers]
    split
    · next hon =>
        exact toNat_pred_of_pos (hs.writers n) (hpos n handleWrite hon)
    · exact hs.writers n

theorem Counted.free_of_not_busy (hs : Counted s live) {node mode h : Word}
    (hbusy : busy (s.node node) mode = false) (hh : h ∈ live)
    (hon : (s.handle h).node = node) :
    (asks mode handleWrite = true -> asks (s.handle h).flags handleRead = false ∧
      asks (s.handle h).flags handleWrite = false) ∧
    (asks mode handleRead = true ->
      asks (s.handle h).flags handleWrite = false) := by
  have hzero : forall access, openCount s live node access = 0 ->
      asks (s.handle h).flags access = false := by
    intro access hcount
    have hnone := List.countP_eq_zero.mp hcount h hh
    unfold onNode at hnone
    simpa [hon] using hnone
  have hreaders := hs.readers node
  have hwriters := hs.writers node
  unfold busy at hbusy
  rw [Bool.or_eq_false_iff, Bool.and_eq_false_iff, Bool.and_eq_false_iff]
    at hbusy
  constructor
  · intro hmode
    rcases hbusy.1 with h | h
    · rw [hmode] at h
      cases h
    · simp only [Bool.or_eq_false_iff, bne_eq_false_iff_eq] at h
      rw [h.1] at hreaders
      rw [h.2] at hwriters
      exact ⟨hzero _ hreaders.symm, hzero _ hwriters.symm⟩
  · intro hmode
    rcases hbusy.2 with h | h
    · rw [hmode] at h
      cases h
    · rw [bne_eq_false_iff_eq] at h
      rw [h] at hwriters
      exact hzero _ hwriters.symm

end Counts

end Fs
end Rmmtos
