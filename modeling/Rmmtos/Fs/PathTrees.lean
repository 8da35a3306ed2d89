import Rmmtos.Fs.PathParts
import Rmmtos.Fs.OpenHandles
import Rmmtos.Library.LinkedList

/-!
# Trees in memory

The trees that no file system adds to while they are searched.  A search opens
the directory, looks its children through and closes it again, which changes
nothing but how often the node that was found is referred to.
-/

namespace Rmmtos
namespace Fs

open Library Zones Kernel

/-!
# Trees in memory
-/

def isDirectory (s : VfsState) (node : Word) : Bool :=
  asks (s.fs.node node).flags directoryFlag

/-- The nodes of a tree without a lookup of a file system: none of its
directories is open for writing, and {lit}`children` are the nodes on the list
of the directory that each one stands for. -/
structure MemoryTree (s : VfsState) (nodes : Set Word)
    (children : Word -> List Word) : Prop where
  root : s.vfsRoot ∈ nodes
  nonzero : 0 ∉ nodes
  names : forall p, p ∈ nodes -> 0 ∉ (s.fs.node p).name
  noWriter : forall p, p ∈ nodes -> isDirectory s p = true ->
    (s.fs.node p).writers = 0
  noLookup : forall p, p ∈ nodes -> isDirectory s p = true ->
    (s.fs.node (openTarget s.fs p)).ops ≠ .fatRoot
  listed : forall p, p ∈ nodes -> isDirectory s p = true ->
    NextPath (fun q => (s.fs.node q).next) 0
      (s.fs.node (openTarget s.fs p)).child (children p)
  inside : forall p, p ∈ nodes -> isDirectory s p = true ->
    forall q, q ∈ children p -> q ∈ nodes

def namedChild (s : VfsState) (children : Word -> List Word) (node : Word)
    (name : List Byte) : Option Word :=
  (children node).find? fun q => (s.fs.node q).name == name

/-- The node that the components lead to. -/
def reached (s : VfsState) (children : Word -> List Word) :
    Word -> List (List Byte) -> Option Word
  | node, [] => some node
  | node, name :: rest =>
      if isDirectory s node then
        (namedChild s children node name).bind fun q => reached s children q rest
      else none

/-- A component is missing or follows a file. -/
def Missing (s : VfsState) (children : Word -> List Word) (node : Word)
    (names : List (List Byte)) : Prop :=
  exists before name behind last, names = before ++ name :: behind ∧
    reached s children node before = some last ∧
    (isDirectory s last = true ->
      forall q, q ∈ children last -> (s.fs.node q).name ≠ name)

section Trees

variable {s : VfsState} {children : Word -> List Word} {nodes : Set Word}

theorem namedChild_none {node : Word} {name : List Byte} :
    namedChild s children node name = none <->
      forall q, q ∈ children node -> (s.fs.node q).name ≠ name := by
  unfold namedChild
  rw [List.find?_eq_none]
  simp only [beq_iff_eq]

theorem missing_cons {node : Word} {name : List Byte} {rest : List (List Byte)} :
    Missing s children node (name :: rest) <->
      (isDirectory s node = true ->
        forall q, q ∈ children node -> (s.fs.node q).name ≠ name) ∨
      isDirectory s node = true ∧ exists q,
        namedChild s children node name = some q ∧ Missing s children q rest := by
  constructor
  · intro h
    rcases h with ⟨before, other, behind, last, hnames, hlast, hmissing⟩
    cases before with
    | nil =>
        cases hnames
        cases hlast
        exact Or.inl hmissing
    | cons first before =>
        cases hnames
        unfold reached at hlast
        split at hlast
        · next hdir =>
            rcases Option.bind_eq_some_iff.mp hlast with ⟨q, hq, hrest⟩
            exact Or.inr ⟨hdir, q, hq, before, other, behind, last, rfl, hrest,
              hmissing⟩
        · cases hlast
  · intro h
    rcases h with hhere | ⟨hdir, q, hq, before, other, behind, last, rfl, hlast, hmissing⟩
    · exact ⟨[], name, rest, node, rfl, rfl, hhere⟩
    · refine ⟨name :: before, other, behind, last, rfl, ?_, hmissing⟩
      unfold reached
      rw [if_pos hdir, hq]
      exact hlast

theorem reached_none_iff (node : Word) (names : List (List Byte)) :
    reached s children node names = none <-> Missing s children node names := by
  induction names generalizing node with
  | nil =>
      refine iff_of_false nofun ?_
      intro h
      rcases h with ⟨before, name, behind, last, hnames, _⟩
      cases before <;> cases hnames
  | cons name rest ih =>
      rw [missing_cons]
      unfold reached
      cases hdir : isDirectory s node with
      | false => simp
      | true =>
          rw [if_pos rfl, Option.bind_eq_none_iff]
          cases hchild : namedChild s children node name with
          | none =>
              have hnone := namedChild_none.mp hchild
              simpa using hnone
          | some q =>
              have hsome : ¬ forall q, q ∈ children node ->
                  (s.fs.node q).name ≠ name := by
                intro h
                rw [namedChild_none.mpr h] at hchild
                cases hchild
              simp [ih, hsome]

theorem namedChild_mem {node q : Word} {name : List Byte}
    (h : namedChild s children node name = some q) : q ∈ children node :=
  List.mem_of_find?_eq_some h

theorem MemoryTree.reached_mem (htree : MemoryTree s nodes children)
    {node q : Word} {names : List (List Byte)} (hnode : node ∈ nodes)
    (h : reached s children node names = some q) : q ∈ nodes := by
  induction names generalizing node with
  | nil =>
      cases h
      exact hnode
  | cons name rest ih =>
      unfold reached at h
      split at h
      · next hdir =>
          rcases Option.bind_eq_some_iff.mp h with ⟨p, hp, hrest⟩
          exact ih (htree.inside node hnode hdir p (namedChild_mem hp)) hrest
      · cases h

end Trees

/-!
# Looking a part up
-/

def Node.shape (n : Node) : Node :=
  { n with refcount := 0, writers := 0, readers := 0 }

structure SameShape (s t : FsState) : Prop where
  shape : forall p, (t.node p).shape = (s.node p).shape

structure SameNodes (s t : FsState) : Prop extends SameShape s t where
  readers : forall p, (t.node p).readers = (s.node p).readers
  writers : forall p, (t.node p).writers = (s.node p).writers

namespace SameShape

variable {s t : FsState}

theorem name (h : SameShape s t) (p : Word) :
    (t.node p).name = (s.node p).name := by
  have hshape := congrArg Node.name (h.shape p)
  exact hshape

theorem flags (h : SameShape s t) (p : Word) :
    (t.node p).flags = (s.node p).flags := by
  have hshape := congrArg Node.flags (h.shape p)
  exact hshape

theorem next (h : SameShape s t) (p : Word) :
    (t.node p).next = (s.node p).next := by
  have hshape := congrArg Node.next (h.shape p)
  exact hshape

theorem ops (h : SameShape s t) (p : Word) :
    (t.node p).ops = (s.node p).ops := by
  have hshape := congrArg Node.ops (h.shape p)
  exact hshape

theorem child (h : SameShape s t) (p : Word) :
    (t.node p).child = (s.node p).child := by
  have hshape := congrArg Node.child (h.shape p)
  exact hshape

theorem redirect (h : SameShape s t) (p : Word) :
    (t.node p).redirect = (s.node p).redirect := by
  have hshape := congrArg Node.redirect (h.shape p)
  exact hshape

theorem openTarget (h : SameShape s t) (p : Word) :
    openTarget t p = openTarget s p := by
  unfold Fs.openTarget
  rw [h.redirect]

end SameShape

namespace SameNodes

variable {s t u : FsState}

theorem refl (s : FsState) : SameNodes s s :=
  ⟨⟨fun _ => rfl⟩, fun _ => rfl, fun _ => rfl⟩

theorem trans (h : SameNodes s t) (h' : SameNodes t u) : SameNodes s u :=
  ⟨⟨fun p => (h'.shape p).trans (h.shape p)⟩,
    fun p => (h'.readers p).trans (h.readers p),
    fun p => (h'.writers p).trans (h.writers p)⟩

end SameNodes

theorem setNode_shape {s : FsState} {p : Word} {node : Node}
    (h : node.shape = (s.node p).shape) (q : Word) :
    ((s.setNode p node).node q).shape = (s.node q).shape := by
  unfold FsState.setNode
  dsimp only
  cases Decidable.em (q = p) with
  | inl hq =>
      rw [hq, Function.update_self]
      exact h
  | inr hq => rw [Function.update_of_ne hq]

theorem nodeAcquire_same (s : FsState) (p : Word) :
    SameNodes s (nodeAcquire s p) := by
  have hfield : forall {α : Type} (f : Node -> α),
      (forall n : Node, f { n with refcount := n.refcount + 1 } = f n) ->
      forall q, f ((nodeAcquire s p).node q) = f (s.node q) := by
    intro α f hf q
    unfold nodeAcquire FsState.setNode
    dsimp only
    cases Decidable.em (q = p) with
    | inl hq =>
        rw [hq, Function.update_self]
        exact hf _
    | inr hq => rw [Function.update_of_ne hq]
  exact ⟨⟨hfield Node.shape fun _ => rfl⟩, hfield Node.readers fun _ => rfl,
    hfield Node.writers fun _ => rfl⟩

theorem openHandle_shape {s : FsState} {p node type mode : Word} (q : Word) :
    ((openHandle s p node type mode).node q).shape = (s.node q).shape := by
  have hcount : forall n : Node, (countOpen mode n).shape = n.shape := fun _ => rfl
  unfold openHandle
  dsimp only
  rw [(nodeAcquire_same _ node).shape]
  exact setNode_shape (hcount _) q

theorem uncountHandle_shape {s : FsState} {p : Word} (q : Word) :
    ((uncountHandle s p).node q).shape = (s.node q).shape := by
  have hcount : forall n : Node,
      (countClose (s.handle p).flags n).shape = n.shape := fun _ => rfl
  have hrelease : forall n : Node,
      ({ n with refcount := n.refcount - 1 } : Node).shape = n.shape := fun _ => rfl
  unfold uncountHandle nodeRelease
  exact (setNode_shape (hrelease _) q).trans (setNode_shape (hcount _) q)

theorem handleRead_read : asks (directoryFlag ||| handleRead) handleRead = true := by
  decide

theorem handleRead_write :
    asks (directoryFlag ||| handleRead) handleWrite = false := by
  decide

theorem openHandle_uncount {s u : FsState} {p node : Word}
    (h : SameNodes (openHandle s p node directoryFlag handleRead) u)
    (hhandle : u.handle p = ⟨directoryFlag ||| handleRead, node, init64 0 0 0 0⟩) :
    SameNodes s { (uncountHandle u p) with heap := s.heap } := by
  have hread : forall q, onNode u q handleRead p = decide (q = node) := by
    intro q
    unfold onNode
    rw [hhandle, Bool.eq_iff_iff, Bool.and_eq_true, beq_iff_eq, decide_eq_true_eq]
    exact ⟨fun h => h.1.symm, fun h => ⟨h.symm, handleRead_read⟩⟩
  have hwrite : forall q, onNode u q handleWrite p = false := by
    intro q
    unfold onNode
    rw [hhandle, Bool.and_eq_false_iff]
    exact Or.inr handleRead_write
  refine ⟨⟨fun q => ?_⟩, fun q => ?_, fun q => ?_⟩
  · change ((uncountHandle u p).node q).shape = _
    rw [uncountHandle_shape, h.shape, openHandle_shape]
  · change ((uncountHandle u p).node q).readers = _
    rw [uncountHandle_readers, hread, h.readers, openHandle_readers]
    cases Decidable.em (q = node) with
    | inl hq =>
        simp only [hq, decide_true, if_true, true_and]
        exact BitVec.add_sub_cancel _ _
    | inr hq => simp [hq]
  · change ((uncountHandle u p).node q).writers = _
    rw [uncountHandle_writers, hwrite, h.writers, openHandle_writers]
    cases Decidable.em (q = node) with
    | inl hq =>
        rw [if_neg Bool.false_ne_true, if_neg]
        exact fun h => Bool.false_ne_true h.2
    | inr hq => simp [hq]

structure OnTheWay (s : PathState) (heap : Heap) (mem : Mem) (t : PathState) :
    Prop where
  heap : t.fs.heap = heap
  mem : t.mem = mem
  root : t.vfsRoot = s.vfsRoot
  nodes : SameNodes s.fs t.fs

/-- Is a block for a handle to be had? -/
def HandleFails (heap : Heap) : Prop :=
  Kernel.malloc heap directoryHandleSize = panic .outOfMem

/-- An address that no new block gets. -/
def NotFree (h : Heap) (p : Word) : Prop :=
  forall b, b < blockCount h.layout -> h.taken b = false -> p ≠ h.address b

theorem NotFree.take {h : Heap} {p : Word} {b : Nat} (hp : NotFree h p) :
    NotFree (h.take b) p := by
  intro c hc hfree
  rw [take_taken, Bool.or_eq_false_iff] at hfree
  exact hp c hc hfree.1

structure MemoryDirectory (s : VfsState) (children : Word -> List Word)
    (node : Word) : Prop where
  nonzero : node ≠ 0
  noLookup : (s.fs.node (openTarget s.fs node)).ops ≠ .fatRoot
  listed : NextPath (fun q => (s.fs.node q).next) 0
    (s.fs.node (openTarget s.fs node)).child (children node)
  names : forall q, q ∈ children node -> 0 ∉ (s.fs.node q).name

theorem MemoryTree.directory {s : VfsState} {nodes : Set Word}
    {children : Word -> List Word} (htree : MemoryTree s nodes children)
    {node : Word} (hnode : node ∈ nodes) (hdir : isDirectory s node = true) :
    MemoryDirectory s children node where
  nonzero := fun hzero => htree.nonzero (hzero ▸ hnode)
  noLookup := htree.noLookup node hnode hdir
  listed := htree.listed node hnode hdir
  names := fun q hq => htree.names q (htree.inside node hnode hdir q hq)

/-- A search of a directory for a part that finds {lit}`q` and asks no volume. -/
structure Searched (s : VfsState) (node : Word) (part : List Byte) (q : Word) :
    Prop where
  nonzero : node ≠ 0
  found : forall {t : VfsState} {bytes : Bytes}, SameShape s.fs t.fs ->
    (forall i, i < part.length -> bytes i = part.getD i 0) ->
    bytes part.length = 0 ->
    findChild t bytes (t.fs.node (openTarget s.fs node)).child = .ok q
  memory : q ≠ 0 ∨ (s.fs.node (openTarget s.fs node)).ops ≠ .fatRoot

/-- What a search of directories in memory leaves of the volumes: the handles
that are in use, and what a lookup on a volume depends on. -/
structure VolumesKept (heap : Heap) (s t : PathState) : Prop where
  handle : forall p, NotFree heap p -> t.fs.handle p = s.fs.handle p
  fatRoot : t.fatRoot = s.fatRoot
  content : t.content = s.content
  stack : t.stack = s.stack
  lookups : t.lookups = s.lookups

theorem VolumesKept.refl (heap : Heap) (s : PathState) : VolumesKept heap s s :=
  ⟨fun _ _ => rfl, rfl, rfl, rfl, rfl⟩

theorem VolumesKept.mono {heap heap' : Heap} {s t : PathState}
    (h : VolumesKept heap' s t) (hfree : forall p, NotFree heap p -> NotFree heap' p) :
    VolumesKept heap s t :=
  ⟨fun p hp => h.handle p (hfree p hp), h.fatRoot, h.content, h.stack, h.lookups⟩

theorem VolumesKept.trans {heap : Heap} {s t u : PathState}
    (h : VolumesKept heap s t) (h' : VolumesKept heap t u) : VolumesKept heap s u :=
  ⟨fun p hp => (h'.handle p hp).trans (h.handle p hp), h'.fatRoot.trans h.fatRoot,
    h'.content.trans h.content, h'.stack.trans h.stack, h'.lookups.trans h.lookups⟩

section Lookups

variable {s t : PathState} {nodes : Set Word} {children : Word -> List Word}
  {heap : Heap} {mem : Mem} {node : Word}

theorem findChild_named {t : VfsState} (hnode : MemoryDirectory s.toVfsState children node)
    (hsame : SameShape s.fs t.fs) {part : List Byte} {bytes : Bytes}
    (hpart : 0 ∉ part) (hbytes : forall i, i < part.length -> bytes i = part.getD i 0)
    (hend : bytes part.length = 0) :
    findChild t bytes (t.fs.node (openTarget s.fs node)).child =
      .ok ((namedChild s.toVfsState children node part).getD 0) := by
  have hpath : NextPath (fun q => (t.fs.node q).next) 0
      (t.fs.node (openTarget s.fs node)).child (children node) := by
    rw [hsame.child]
    exact hnode.listed.congr fun q _ => hsame.next q
  have hnonzero : 0 ∉ children node := hnode.listed.not_mem
  have hfew : (children node).length ≤ wordCount := by
    have hnodup := hnode.listed.nodup
    exact Nat.le_of_lt (length_lt_of_nodup hnodup hnonzero)
  have hwalk := hpath.walk_find (e := Stop.hang)
    (c := fun p => p != 0 && !sameString (t.fs.node p).name bytes) rfl hfew
  unfold findChild
  rw [hwalk]
  unfold namedChild
  have hfind : (children node).find?
        (fun q => !(q != 0 && !sameString (t.fs.node q).name bytes)) =
      (children node).find? fun q => (s.fs.node q).name == part := by
    apply List.find?_congr
    intro q hq
    have hq0 : (q != 0) = true := bne_iff_ne.mpr fun h => hnonzero (h ▸ hq)
    have hname := hnode.names q hq
    rw [hsame.name, sameString_part hname hpart hbytes hend, hq0, Bool.true_and,
      Bool.not_not]
  rw [hfind]

theorem MemoryDirectory.named_none (hnode : MemoryDirectory s.toVfsState children node)
    {part : List Byte} :
    (namedChild s.toVfsState children node part).getD 0 = 0 <->
      namedChild s.toVfsState children node part = none := by
  cases hq : namedChild s.toVfsState children node part with
  | none => exact iff_of_true rfl rfl
  | some q =>
      refine iff_of_false ?_ nofun
      intro hzero
      rw [Option.getD_some] at hzero
      exact hnode.listed.not_mem (hzero ▸ namedChild_mem hq)

theorem MemoryDirectory.searched (hnode : MemoryDirectory s.toVfsState children node)
    {part : List Byte} (hpart : 0 ∉ part) : Searched s.toVfsState node part
      ((namedChild s.toVfsState children node part).getD 0) where
  nonzero := hnode.nonzero
  found := by
    intro u bytes hsame hbytes hend
    exact findChild_named hnode hsame hpart hbytes hend
  memory := Or.inr hnode.noLookup

theorem mayRead_opened (node : Word) (position : Uint64) :
    mayRead ⟨directoryFlag ||| handleRead, node, position⟩ = true :=
  (by decide : asks ((directoryFlag ||| handleRead) &&& attributeMask) handleRead = true)

theorem directoryFindNode_searched {part : List Byte} {q : Word}
    (hnode : Searched s.toVfsState node part q) (hsame : SameShape s.fs t.fs) {p : Word}
    (hhandle : t.fs.handle p = ⟨directoryFlag ||| handleRead, openTarget s.fs node,
      init64 0 0 0 0⟩) {bytes : Bytes}
    (hbytes : forall i, i < part.length -> bytes i = part.getD i 0)
    (hend : bytes part.length = 0) :
    exists fs, t.directoryFindNode p bytes = .ok (q, { t with fs := fs }) ∧
      SameNodes t.fs fs ∧ fs.heap = t.fs.heap ∧ fs.handle = t.fs.handle := by
  have hmay : mayRead (t.fs.handle p) = true := by
    rw [hhandle]
    exact mayRead_opened _ _
  have hasks : ¬ (q = 0 ∧ (t.fs.node (openTarget s.fs node)).ops = .fatRoot) := by
    rw [hsame.ops]
    intro h
    rcases hnode.memory with hq | hops
    · exact hq h.1
    · exact hops h.2
  have hfind := hnode.found hsame hbytes hend
  have hrun : Fs.directoryFindNode t.toVfsState p bytes =
      if q ≠ 0 then
        .ok (q, { t.toVfsState with fs := nodeAcquire t.fs q })
      else .ok (q, t.toVfsState) := by
    unfold Fs.directoryFindNode
    rw [hhandle] at hmay ⊢
    dsimp only
    rw [hmay, if_neg nofun, hfind, ok_bind, if_neg hasks, ok_bind]
  unfold PathState.directoryFindNode
  rw [hrun]
  split
  · exact ⟨_, rfl, nodeAcquire_same .., rfl, rfl⟩
  · exact ⟨_, rfl, SameNodes.refl _, rfl, rfl⟩

theorem directory_busy (ht : OnTheWay s heap mem t)
    (hwriters : (s.fs.node node).writers ≠ 0) :
    t.directoryOpen node handleRead = .ok (0, t) := by
  have hbusy : busy (t.fs.node node) handleRead = true := by
    rw [← ht.nodes.writers] at hwriters
    have hread : asks handleRead handleRead = true := by
      decide
    unfold busy
    rw [bne_iff_ne.mpr hwriters, hread]
    simp
  unfold PathState.directoryOpen Fs.directoryOpen
  rw [hbusy, if_pos rfl]
  rfl

theorem directory_idle (ht : OnTheWay s heap mem t)
    (hwriters : (s.fs.node node).writers = 0) :
    busy (t.fs.node node) handleRead = false := by
  rw [← ht.nodes.writers] at hwriters
  have hread : asks handleRead handleWrite = false := by
    decide
  unfold busy
  rw [hwriters, hread]
  simp

def openedFor (s : FsState) (heap : Heap) (b : Nat) (target : Word) : FsState :=
  openHandle { s with heap := heap.take b } (heap.address b) target directoryFlag
    handleRead

theorem directory_opened (hheap : HeapInv heap) (hpool : 0 < heap.poolStart.toNat)
    (ht : OnTheWay s heap mem t) (hnonzero : node ≠ 0)
    (hwriters : (s.fs.node node).writers = 0)
    (hdir : isDirectory s.toVfsState node = true) :
    HandleFails heap ∧ t.directoryOpen node handleRead = panic .outOfMem ∨
      exists b, b < blockCount heap.layout ∧ heap.taken b = false ∧
        heap.address b ≠ 0 ∧ t.directoryOpen node handleRead =
          .ok (heap.address b,
            { t with fs := openedFor t.fs heap b (openTarget s.fs node) }) := by
  have hbusy := directory_idle ht hwriters
  have hopens : ¬ (asks (t.fs.node node).flags directoryFlag = false ∨ node = 0) := by
    rw [ht.nodes.flags]
    intro h
    rcases h with hfile | hzero
    · exact Bool.false_ne_true (hfile.symm.trans hdir)
    · exact hnonzero hzero
  have hopen : t.directoryOpen node handleRead =
      (t.fs.malloc directoryHandleSize >>= fun r =>
        if r.1 = 0 then .ok r
        else .ok (r.1, openHandle r.2 r.1 (openTarget t.fs node) directoryFlag
          handleRead)).within fun fs => { t with fs := fs } := by
    unfold PathState.directoryOpen Fs.directoryOpen
    rw [hbusy, if_neg Bool.false_ne_true, if_neg hopens]
  unfold FsState.malloc at hopen
  rw [ht.heap] at hopen
  rcases malloc_eq hheap.zoneTable directoryHandleSize with
    ⟨b, _, hb, hfree, _, hmalloc⟩ | ⟨_, hfail⟩
  · right
    have hp := address_ne_zero hheap hpool hb
    rw [hmalloc] at hopen
    simp only [Result.within_ok, ok_bind] at hopen
    rw [if_neg hp] at hopen
    simp only [Result.within_ok] at hopen
    rw [ht.nodes.openTarget node] at hopen
    exact ⟨b, hb, hfree, hp, hopen⟩
  · left
    refine ⟨hfail, ?_⟩
    rw [hopen, hfail]
    rfl

theorem openedFor_shape (s : FsState) (heap : Heap) (b : Nat) (target : Word) :
    SameShape s (openedFor s heap b target) :=
  ⟨fun _ => openHandle_shape _⟩

theorem openedFor_sameShape (ht : OnTheWay s heap mem t) (b : Nat) (target : Word) :
    SameShape s.fs (openedFor t.fs heap b target) :=
  ⟨fun q => ((openedFor_shape ..).shape q).trans (ht.nodes.shape q)⟩

theorem openedFor_handle (s : FsState) (heap : Heap) (b : Nat) (target : Word) :
    (openedFor s heap b target).handle (heap.address b) =
      ⟨directoryFlag ||| handleRead, target, init64 0 0 0 0⟩ := by
  unfold openedFor
  rw [openHandle_handle, if_pos rfl]

theorem VolumesKept.opened (hkept : VolumesKept heap s t) {b : Nat}
    (hb : b < blockCount heap.layout) (hfree : heap.taken b = false) (target : Word) :
    VolumesKept heap s { t with fs := openedFor t.fs heap b target } where
  handle := by
    intro q hq
    rw [← hkept.handle q hq]
    unfold openedFor
    dsimp only
    rw [openHandle_handle, if_neg (hq b hb hfree)]
  fatRoot := hkept.fatRoot
  content := hkept.content
  stack := hkept.stack
  lookups := hkept.lookups

theorem directory_closed {s v : PathState} {target : Word} {b : Nat}
    (hheap : HeapInv heap) (hb : b < blockCount heap.layout)
    (hfree : heap.taken b = false)
    (hsame : SameNodes (openedFor s.fs heap b target) v.fs)
    (hvheap : v.fs.heap = heap.take b)
    (hhandle : v.fs.handle (heap.address b) =
      ⟨directoryFlag ||| handleRead, target, init64 0 0 0 0⟩) :
    exists fs, v.directoryClose (heap.address b) = .ok { v with fs := fs } ∧
      fs.heap = heap ∧ fs.handle = v.fs.handle ∧ SameNodes s.fs fs := by
  have hclose : v.directoryClose (heap.address b) =
      .ok { v with fs := { uncountHandle v.fs (heap.address b) with
        heap := heap } } := by
    have hfreed : Kernel.free v.fs.heap (heap.address b) = .ok heap := by
      rw [hvheap]
      have hrelease := free_address (take_inv hheap hb hfree).table hb
      rw [take_release hfree] at hrelease
      exact hrelease
    change (Kernel.free v.fs.heap (heap.address b) >>= fun h => .ok
      { uncountHandle v.fs (heap.address b) with heap := h }) >>= _ = _
    rw [hfreed]
    rfl
  unfold openedFor at hsame
  have hcount := openHandle_uncount hsame hhandle
  exact ⟨_, hclose, rfl, rfl, ⟨⟨hcount.shape⟩, hcount.readers, hcount.writers⟩⟩

/-- A directory is opened, searched and closed, or there is no memory for the
handle. -/
theorem directory_lookup {part : List Byte} {q : Word}
    (hnode : Searched s.toVfsState node part q)
    (hheap : HeapInv heap) (hpool : 0 < heap.poolStart.toNat)
    (ht : OnTheWay s heap mem t) (hwriters : (s.fs.node node).writers = 0)
    (hdir : isDirectory s.toVfsState node = true) {bytes : Bytes}
    (hbytes : forall i, i < part.length -> bytes i = part.getD i 0)
    (hend : bytes part.length = 0) :
    HandleFails heap ∧ t.directoryOpen node handleRead = panic .outOfMem ∨
      exists p u v w, t.directoryOpen node handleRead = .ok (p, u) ∧ p ≠ 0 ∧
        u.directoryFindNode p bytes = .ok (q, v) ∧
        v.directoryClose p = .ok w ∧ OnTheWay s heap mem w ∧
        u.mem = t.mem ∧ w.resolution = t.resolution ∧ VolumesKept heap t w := by
  rcases directory_opened hheap hpool ht hnode.nonzero hwriters hdir with
    hfails | ⟨b, hb, hfree, hp, hopen⟩
  · exact Or.inl hfails
  · right
    have hshape := openedFor_sameShape ht b (openTarget s.fs node)
    have hhandle := openedFor_handle t.fs heap b (openTarget s.fs node)
    rcases directoryFindNode_searched
      (t := { t with fs := openedFor t.fs heap b (openTarget s.fs node) }) hnode
      hshape hhandle hbytes hend with ⟨fs, hfind, hsame, hvheap, hvhandle⟩
    rcases directory_closed (s := t) (v := { t with fs := fs }) hheap hb hfree hsame
      hvheap ((congrFun hvhandle _).trans hhandle) with
      ⟨fs', hclose, hheap', hhandle', hnodes⟩
    refine ⟨_, _, _, _, hopen, hp, hfind, hclose,
      ⟨hheap', ht.mem, ht.root, ht.nodes.trans hnodes⟩, rfl, rfl, ?_⟩
    refine ⟨?_, rfl, rfl, rfl, rfl⟩
    intro q hq
    change fs'.handle q = t.fs.handle q
    rw [hhandle']
    change fs.handle q = t.fs.handle q
    rw [hvhandle]
    change (openedFor t.fs heap b (openTarget s.fs node)).handle q = t.fs.handle q
    unfold openedFor
    rw [openHandle_handle, if_neg (hq b hb hfree)]

end Lookups

end Fs
end Rmmtos
