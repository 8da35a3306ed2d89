import Rmmtos.Library.LinkedList
import Rmmtos.Fs.Vfs
import Rmmtos.Kernel.System

/-!
# The lists of the children

Whether a node is on the list of some directory is told from its own pointer
alone.  The last node of a list has the pointer of a node that is on none, so it
passes the guard of {lit}`directory_add_to_children`.
-/

namespace Rmmtos
namespace Fs

open Library Kernel

def nextOf (s : FsState) (p : Word) : Word := (s.node p).next

def childOf (s : FsState) (p : Word) : Word := (s.node p).child

/-- The list of the children of each directory ends, and no node is on two lists,
nor twice on one. -/
def ProperChildren (directories : Set Word) (s : FsState) : Prop :=
  exists children, ListsApart (nextOf s) 0 directories (childOf s) children

/-- The node that the children of some directory end with. -/
def LastChild (directories : Set Word) (s : FsState) (node : Word) : Prop :=
  LastOfList (nextOf s) 0 directories (childOf s) node

/-- The links of the directories and of the nodes on their lists are kept. -/
structure LinksKept (directories : Set Word) (s s' : FsState) : Prop where
  child : forall d, d ∈ directories -> childOf s' d = childOf s d
  next : forall d xs, d ∈ directories -> NextPath (nextOf s) 0 (childOf s d) xs ->
    forall p, p ∈ xs -> nextOf s' p = nextOf s p

/-- The calls of {lit}`directory_add_node` on nodes of some kind that do not panic,
and everything that leaves the links alone. -/
inductive AddStep (directories : Set Word) (mayAdd : FsState -> Word -> Prop) :
    FsState -> FsState -> Prop where
  | add {s s' : FsState} {handle node node' : Word} :
      (s.handle handle).node ∈ directories -> mayAdd s node ->
      directoryAddNode s handle node = .ok (node', s') ->
      AddStep directories mayAdd s s'
  | other {s s' : FsState} : LinksKept directories s s' ->
      AddStep directories mayAdd s s'

section Adding

variable {directories : Set Word} {s s' : FsState} {handle directory node node' : Word}

theorem setNode_nextOf (p q : Word) (n : Node) :
    nextOf (s.setNode p n) q = if q = p then n.next else nextOf s q := by
  unfold nextOf FsState.setNode
  dsimp only
  rw [Function.update_apply]
  split <;> rfl

theorem setNode_childOf (p q : Word) (n : Node) :
    childOf (s.setNode p n) q = if q = p then n.child else childOf s q := by
  unfold childOf FsState.setNode
  dsimp only
  rw [Function.update_apply]
  split <;> rfl

theorem directoryAddToChildren_links
    (hadd : directoryAddToChildren s directory node = .ok s') :
    nextOf s node = 0 ∧
      nextOf s' = Function.update (nextOf s) node (childOf s directory) ∧
      childOf s' = Function.update (childOf s) directory node := by
  unfold directoryAddToChildren at hadd
  split at hadd
  · cases hadd
  · rename_i hnext
    cases hadd
    refine ⟨Decidable.not_not.mp hnext, ?_, ?_⟩
    · funext p
      rw [setNode_nextOf, Function.update_apply]
      change (if p = directory then nextOf (s.setNode node _) directory else _) = _
      split
      · rename_i hp
        rw [hp, setNode_nextOf]
        rfl
      · rw [setNode_nextOf]
        rfl
    · funext p
      rw [setNode_childOf, Function.update_apply]
      split
      · rfl
      · rw [setNode_childOf]
        split
        · rename_i hp
          rw [hp]
          rfl
        · rfl

/-- The guard lets the nodes pass that are on no list, and those that a list ends
with: just the latter break the lists. -/
theorem directoryAddToChildren_proper_iff (hs : ProperChildren directories s)
    (hdir : directory ∈ directories)
    (hadd : directoryAddToChildren s directory node = .ok s') :
    ProperChildren directories s' <-> ¬ LastChild directories s node := by
  rcases directoryAddToChildren_links hadd with ⟨hzero, hnext, hchild⟩
  unfold ProperChildren
  rw [hnext, hchild]
  constructor
  · intro hproper hlast
    rcases hproper with ⟨children, hproper⟩
    exact hlast.not_push hdir hproper
  · intro hnot
    rcases hs with ⟨children, hs⟩
    rcases eq_or_ne node 0 with rfl | hne
    · exact ⟨_, hs.clear _⟩
    · refine ⟨_, hs.push ?_ hdir hne⟩
      intro d hd hmem
      exact hnot ⟨d, _, hd, hs.path d hd, (hs.path d hd).last_of_next hmem hzero⟩

theorem directoryAddNode_proper_iff (hs : ProperChildren directories s)
    (hdir : (s.handle handle).node ∈ directories)
    (hadd : directoryAddNode s handle node = .ok (node', s')) :
    ProperChildren directories s' <-> ¬ LastChild directories s node := by
  unfold directoryAddNode at hadd
  split at hadd
  · cases hadd
  · rcases ok_bind_iff.mp hadd with ⟨t, hrun, hret⟩
    cases hret
    exact directoryAddToChildren_proper_iff hs hdir hrun

theorem LinksKept.proper (h : LinksKept directories s s')
    (hs : ProperChildren directories s) : ProperChildren directories s' := by
  rcases hs with ⟨children, hs⟩
  refine ⟨children, ?_, hs.apart⟩
  intro d hd
  rw [h.child d hd]
  exact (hs.path d hd).congr (h.next d _ hd (hs.path d hd))

/-- A list whose last node is added to it again has no end: the search for a name
that is not there never returns. -/
theorem findChild_readded {t : VfsState} {children : List Word}
    (hpath : NextPath (nextOf s) 0 (childOf s directory) children)
    (hlast : children.getLast? = some node)
    (hadd : directoryAddToChildren s directory node = .ok t.fs) {name : Bytes}
    (hmissing : forall p, p ∈ children -> sameString (t.fs.node p).name name = false) :
    findChild t name (t.fs.node directory).child = .error .hang := by
  rcases directoryAddToChildren_links hadd with ⟨_, hnext, hchild⟩
  have hmem : node ∈ children := List.mem_of_getLast? hlast
  have hchild' : (t.fs.node directory).child = node := by
    change childOf t.fs directory = node
    rw [hchild, Function.update_self]
  rw [hchild']
  refine whileLoop_diverges (I := fun p => p ∈ children) ?_ ?_ _ hmem
  · intro p hp
    have hp0 : (p != 0) = true := bne_iff_ne.mpr fun h => hpath.not_mem (h ▸ hp)
    rw [hp0, hmissing p hp]
    rfl
  · intro p hp
    refine ⟨_, rfl, ?_⟩
    change nextOf t.fs p ∈ children
    rw [hnext]
    rcases eq_or_ne p node with rfl | hne
    · rw [Function.update_self]
      refine hpath.head_mem ?_
      intro hzero
      rw [hzero] at hpath
      cases hpath with
      | done => cases hmem
      | node hne _ => exact hne rfl
    · rw [Function.update_of_ne hne]
      refine hpath.next_mem hp ?_
      intro hzero
      have hlast' := hpath.last_of_next hp hzero
      rw [hlast] at hlast'
      exact hne (Option.some.inj hlast').symm

/-- The lists of the children stay proper as long as no node is added that ends one
of them, and not beyond. -/
theorem child_lists_proper
    (hs : Reachable (ProperChildren directories)
      (AddStep directories fun s node => ¬ LastChild directories s node) s) :
    ProperChildren directories s ∧
      forall handle node node' s', (s.handle handle).node ∈ directories ->
        directoryAddNode s handle node = .ok (node', s') ->
        (ProperChildren directories s' <-> ¬ LastChild directories s node) := by
  have hproper : ProperChildren directories s := by
    refine hs.invariant (fun _ h => h) ?_
    intro s s' hs hstep
    cases hstep with
    | add hdir hnode hadd => exact (directoryAddNode_proper_iff hs hdir hadd).mpr hnode
    | other hkept => exact hkept.proper hs
  exact ⟨hproper, fun _ _ _ _ hdir hadd => directoryAddNode_proper_iff hproper hdir hadd⟩

end Adding

def twoDirectories : FsState :=
  { smallBoot.fs with
    handle := fun _ => ⟨directoryFlag ||| handleWrite, 8, init64 0 0 0 0⟩ }

theorem twoDirectories_proper : ProperChildren {8, 12} twoDirectories :=
  ⟨fun _ => [], fun _ _ => NextPath.done, fun _ _ _ _ _ _ => nofun⟩

theorem directoryAddNode_returns (s : FsState) (handle node : Word)
    (hmay : mayWrite (s.handle handle) = true) (hzero : nextOf s node = 0) :
    exists s', directoryAddNode s handle node = .ok (node, s') ∧
      directoryAddToChildren s (s.handle handle).node node = .ok s' ∧
      s'.handle = s.handle := by
  have hpasses : ¬ (s.node node).next ≠ 0 := fun h => h hzero
  unfold directoryAddNode directoryAddToChildren
  rw [hmay, if_neg nofun, if_neg hpasses]
  exact ⟨_, rfl, rfl, rfl⟩

theorem not_lastChild_empty {node : Word} :
    ¬ LastChild {8, 12} twoDirectories node := by
  intro hlast
  rcases hlast with ⟨d, xs, _, hxs, hlast⟩
  cases hxs with
  | done => cases hlast
  | node hne _ => exact hne rfl

/-- Two files are added to a directory without children. -/
theorem child_lists_proper_second :
    exists s s', directoryAddNode twoDirectories 40 16 = .ok (16, s) ∧
      directoryAddNode s 40 20 = .ok (20, s') ∧ ProperChildren {8, 12} s' := by
  have hmay : mayWrite (twoDirectories.handle 40) = true := by
    decide
  have hdir : (twoDirectories.handle 40).node ∈ ({8, 12} : Set Word) := Or.inl rfl
  rcases directoryAddNode_returns _ _ 16 hmay rfl with ⟨s, hadd, hrun, hhandle⟩
  rcases directoryAddToChildren_links hrun with ⟨_, hnext, hchild⟩
  rw [← hhandle] at hmay
  have hnext16 : nextOf s 16 = 0 := by
    rw [hnext]
    rfl
  have hnext20 : nextOf s 20 = 0 := by
    rw [hnext]
    rfl
  have hother : ¬ LastChild {8, 12} s 20 := by
    rintro ⟨d, xs, hd, hxs, hlast⟩
    rcases hd with rfl | rfl
    · have hchild8 : childOf s 8 = 16 := by
        rw [hchild]
        rfl
      rw [hchild8] at hxs
      cases hxs with
      | node _ hrest =>
          rw [hnext16] at hrest
          cases hrest with
          | done => exact absurd hlast (by decide)
          | node hne _ => exact hne rfl
    · have hchild12 : childOf s 12 = 0 := by
        rw [hchild]
        rfl
      rw [hchild12] at hxs
      cases hxs with
      | done => cases hlast
      | node hne _ => exact hne rfl
  rcases directoryAddNode_returns _ _ 20 hmay hnext20 with ⟨s', hadd', _⟩
  exact ⟨s, s', hadd, hadd', (child_lists_proper
    (.step (.step (.start twoDirectories_proper) (.add hdir not_lastChild_empty hadd))
      (.add (hhandle ▸ hdir) hother hadd'))).1⟩

/-- The only child of a directory is added to it again, and its list has no end. -/
theorem child_lists_readded :
    ¬ forall (directories : Set Word) s,
      Reachable (ProperChildren directories) (AddStep directories fun _ _ => True) s ->
      ProperChildren directories s := by
  intro hall
  have hmay : mayWrite (twoDirectories.handle 40) = true := by
    decide
  have hdir : (twoDirectories.handle 40).node ∈ ({8, 12} : Set Word) := Or.inl rfl
  rcases directoryAddNode_returns _ _ 16 hmay rfl with ⟨s, hadd, hrun, hhandle⟩
  rcases directoryAddToChildren_links hrun with ⟨_, hnext, hchild⟩
  rw [← hhandle] at hmay hdir
  have hnext16 : nextOf s 16 = 0 := by
    rw [hnext]
    rfl
  have hchild8 : childOf s 8 = 16 := by
    rw [hchild]
    rfl
  have hlast : LastChild {8, 12} s 16 := by
    refine ⟨8, [16], Or.inl rfl, ?_, rfl⟩
    rw [hchild8]
    refine NextPath.node (by decide) ?_
    rw [hnext16]
    exact NextPath.done
  have hfirst : Reachable (ProperChildren {8, 12})
      (AddStep {8, 12} fun _ _ => True) s :=
    .step (.start twoDirectories_proper) (.add (hhandle ▸ hdir) trivial hadd)
  rcases directoryAddNode_returns _ _ _ hmay hnext16 with ⟨s', hagain, _⟩
  have hproper := hall {8, 12} s hfirst
  have hproper' := hall {8, 12} s' (.step hfirst (.add hdir trivial hagain))
  exact (directoryAddNode_proper_iff hproper hdir hagain).mp hproper' hlast

end Fs
end Rmmtos
