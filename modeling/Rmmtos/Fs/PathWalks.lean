import Rmmtos.Fs.PathLookups

/-!
# Walks along paths

What a path leads to on any tree, with volumes in it and with directories that
are open for writing.  As long as no volume is asked for a name that it has no
node for, a resolution follows the nodes that there are and leaves them alone.
-/

namespace Rmmtos
namespace Fs

open Library Zones Kernel

/-!
# Walks
-/

/-- The nodes of a tree, each one in a block that is in use, like the handles of
its volumes. -/
structure TreeHeld (s : PathState) (nodes : Set Word) : Prop where
  root : s.vfsRoot ∈ nodes
  names : forall p, p ∈ nodes -> 0 ∉ (s.fs.node p).name
  child : forall p, p ∈ nodes -> (s.fs.node p).child = 0 ∨ (s.fs.node p).child ∈ nodes
  next : forall p, p ∈ nodes -> (s.fs.node p).next = 0 ∨ (s.fs.node p).next ∈ nodes
  redirect : forall p, p ∈ nodes ->
    (s.fs.node p).redirect = 0 ∨ (s.fs.node p).redirect ∈ nodes
  held : forall p, p ∈ nodes -> NotFree s.fs.heap p
  volumes : forall p, p ∈ nodes -> (s.fs.node p).ops = .fatRoot ->
    NotFree s.fs.heap (s.fatRoot p).handle

/-- The child that a search of a directory finds, or none when the directory is
on a volume that would be asked or when the search does not end. -/
def foundChild (s : VfsState) (node : Word) (part : List Byte) : Option Word :=
  match findChild s (fun i => part.getD i 0)
    (s.fs.node (openTarget s.fs node)).child with
  | .ok q =>
      if q = 0 ∧ (s.fs.node (openTarget s.fs node)).ops = .fatRoot then none
      else some q
  | .error _ => none

/-- A walk leads to a node, or it stops in front of a part that the directory has
no node for: its volume would be asked for it. -/
inductive WalkEnd where
  | leads (node : Word)
  | stops (directory : Word) (part : List Byte) (rest : List (List Byte))
deriving DecidableEq

/-- What the components lead to from a node: zero when one of them is missing,
follows a file or is in a directory that is open for writing. -/
def walk (s : VfsState) : Word -> List (List Byte) -> WalkEnd
  | node, [] => .leads node
  | node, part :: rest =>
      if isDirectory s node = false ∨ (s.fs.node node).writers ≠ 0 then .leads 0
      else if node = 0 then .stops node part rest
      else
        match foundChild s node part with
        | none => .stops node part rest
        | some q => if q = 0 then .leads 0 else walk s q rest

section Same

variable {s t : VfsState}

theorem findChild_same (h : SameShape s.fs t.fs) (name : Bytes) (p : Word) :
    findChild t name p = findChild s name p := by
  unfold findChild
  simp only [h.name, h.next]

end Same

section Searches

variable {s : PathState} {nodes : Set Word} {node : Word} {part : List Byte}

theorem TreeHeld.target (htree : TreeHeld s nodes) (hnode : node ∈ nodes) :
    openTarget s.fs node ∈ nodes := by
  unfold openTarget
  split
  · next hredirect => exact (htree.redirect node hnode).resolve_left hredirect
  · exact hnode

theorem TreeHeld.step (htree : TreeHeld s nodes) {bytes : Bytes} {p q : Word}
    (hp : p = 0 ∨ p ∈ nodes)
    (hcond : (p != 0 && !sameString (s.fs.node p).name bytes) = true)
    (hq : (.ok (s.fs.node p).next : Result Word) = .ok q) : q = 0 ∨ q ∈ nodes := by
  cases hq
  rw [Bool.and_eq_true, bne_iff_ne] at hcond
  exact htree.next p (hp.resolve_left hcond.1)

theorem findChild_part (htree : TreeHeld s nodes) (h0 : 0 ∉ part) {bytes : Bytes}
    (hbytes : forall i, i < part.length -> bytes i = part.getD i 0)
    (hend : bytes part.length = 0) {p : Word} (hp : p = 0 ∨ p ∈ nodes) :
    findChild s.toVfsState bytes p =
      findChild s.toVfsState (fun i => part.getD i 0) p := by
  refine whileLoop_agree (I := fun p => p = 0 ∨ p ∈ nodes) ?_ ?_ wordCount hp
  · intro p hp
    rcases hp with rfl | hp
    · rfl
    · have hname := htree.names p hp
      have hdefault : part.getD part.length 0 = 0 :=
        List.getD_eq_default _ _ (Nat.le_refl _)
      rw [sameString_part hname h0 hbytes hend,
        sameString_part hname h0 (fun _ _ => rfl) hdefault]
  · intro p q hp hcond hq
    exact htree.step hp hcond hq

theorem foundChild_mem (htree : TreeHeld s nodes) (hnode : node ∈ nodes) {q : Word}
    (h : foundChild s.toVfsState node part = some q) : q = 0 ∨ q ∈ nodes := by
  unfold foundChild at h
  cases hfind : findChild s.toVfsState (fun i => part.getD i 0)
      (s.fs.node (openTarget s.fs node)).child with
  | error e =>
      rw [hfind] at h
      cases h
  | ok p =>
      rw [hfind] at h
      dsimp only at h
      split at h
      · cases h
      · cases h
        unfold findChild at hfind
        exact (whileLoop_invariant (I := fun p => p = 0 ∨ p ∈ nodes)
          (fun p q hp hcond hq => htree.step hp hcond hq) hfind
          (htree.child _ (htree.target hnode))).1

theorem foundChild_searched (htree : TreeHeld s nodes) (hnode : node ∈ nodes)
    (hnonzero : node ≠ 0) (h0 : 0 ∉ part) {q : Word}
    (h : foundChild s.toVfsState node part = some q) :
    Searched s.toVfsState node part q := by
  have hstart := htree.child _ (htree.target hnode)
  unfold foundChild at h
  cases hfind : findChild s.toVfsState (fun i => part.getD i 0)
      (s.fs.node (openTarget s.fs node)).child with
  | error e =>
      rw [hfind] at h
      cases h
  | ok p =>
      rw [hfind] at h
      dsimp only at h
      split at h
      · cases h
      · next hasks =>
          cases h
          refine ⟨hnonzero, ?_, ?_⟩
          · intro t bytes hsame hbytes hend
            rw [findChild_same hsame, hsame.child,
              findChild_part htree h0 hbytes hend hstart]
            exact hfind
          · exact not_and_or.mp hasks

theorem TreeHeld.walk_mem (htree : TreeHeld s nodes) {q : Word}
    {names : List (List Byte)} (hnode : node ∈ nodes)
    (h : walk s.toVfsState node names = .leads q) : q = 0 ∨ q ∈ nodes := by
  induction names generalizing node with
  | nil =>
      cases h
      exact Or.inr hnode
  | cons name rest ih =>
      unfold walk at h
      split at h
      · cases h
        exact Or.inl rfl
      · split at h
        · cases h
        · split at h
          · cases h
          · next p hp =>
              split at h
              · cases h
                exact Or.inl rfl
              · next hp0 =>
                  exact ih ((foundChild_mem htree hnode hp).resolve_left hp0) h

theorem TreeHeld.same {t : PathState} (htree : TreeHeld s nodes)
    (hsame : SameNodes s.fs t.fs) (hroot : t.vfsRoot = s.vfsRoot)
    (hfat : t.fatRoot = s.fatRoot)
    (hheld : forall p, NotFree s.fs.heap p -> NotFree t.fs.heap p) :
    TreeHeld t nodes where
  root := by
    rw [hroot]
    exact htree.root
  names := by
    intro p hp
    rw [hsame.name]
    exact htree.names p hp
  child := by
    intro p hp
    rw [hsame.child]
    exact htree.child p hp
  next := by
    intro p hp
    rw [hsame.next]
    exact htree.next p hp
  redirect := by
    intro p hp
    rw [hsame.redirect]
    exact htree.redirect p hp
  held := fun p hp => hheld p (htree.held p hp)
  volumes := by
    intro p hp hops
    rw [hsame.ops] at hops
    rw [hfat]
    exact hheld _ (htree.volumes p hp hops)

end Searches

/-!
# Turns on a walk
-/

section Steps

variable {s : VfsState} {node q : Word} {part : List Byte} {rest : List (List Byte)}

theorem walk_opens (hdir : isDirectory s node = true)
    (hwriters : (s.fs.node node).writers = 0) :
    ¬ (isDirectory s node = false ∨ (s.fs.node node).writers ≠ 0) := by
  rw [hdir]
  exact fun h => h.elim nofun fun h => h hwriters

theorem walk_found (hdir : isDirectory s node = true)
    (hwriters : (s.fs.node node).writers = 0) (hnonzero : node ≠ 0)
    (hfound : foundChild s node part = some q) :
    walk s node (part :: rest) = if q = 0 then .leads 0 else walk s q rest := by
  rw [walk, if_neg (walk_opens hdir hwriters), if_neg hnonzero, hfound]

theorem walk_stopped (hdir : isDirectory s node = true)
    (hwriters : (s.fs.node node).writers = 0)
    (hstops : node = 0 ∨ foundChild s node part = none) :
    walk s node (part :: rest) = .stops node part rest := by
  rw [walk, if_neg (walk_opens hdir hwriters)]
  split
  · rfl
  · next hnonzero => rw [hstops.resolve_left hnonzero]

theorem walk_missed (h : isDirectory s node = false ∨ (s.fs.node node).writers ≠ 0) :
    walk s node (part :: rest) = .leads 0 :=
  if_pos h

end Steps

theorem findNode_asks {s t : VfsState} {handle p : Word} {name : Bytes}
    (hrun : directoryFindNode s handle name = .ok (p, t)) :
    s.lookups < t.lookups ∨
      exists q, findChild s name (s.fs.node (s.fs.handle handle).node).child = .ok q ∧
        ¬ (q = 0 ∧ (s.fs.node (s.fs.handle handle).node).ops = .fatRoot) := by
  unfold directoryFindNode at hrun
  dsimp only at hrun
  split at hrun
  · cases hrun
  · rcases ok_bind_iff.mp hrun with ⟨q, hfind, hrun⟩
    split at hrun
    · left
      rcases ok_bind_iff.mp hrun with ⟨⟨q₁, s₁⟩, hload, hrun⟩
      rcases ok_bind_iff.mp hrun with ⟨s₂, hadd, hrun⟩
      have hloaded := ((fatLoadNode_only hload).trans (addToChildren_only hadd)).lookups
      have hends : t.lookups = s₂.lookups := by
        rw [ok_bind] at hrun
        dsimp only at hrun
        split at hrun <;> cases hrun <;> rfl
      rw [hends]
      exact hloaded
    · next hasks => exact Or.inr ⟨q, hfind, hasks⟩

/-- What the status says of the walk, at the node that a turn has come to. -/
def WalksOn (s : VfsState) (nodes : Set Word) (goal : WalkEnd) (node : Word)
    (rest : List Byte) : ResolutionStatus -> Prop
  | .ok => node ∈ nodes ∧ goal = walk s node (laterComponents rest)
  | .ended => goal = .leads node
  | .notFound | .isFile => goal = .leads 0

def TurnWalked (s : PathState) (nodes : Set Word) (heap : Heap) (mem : Mem)
    (copy last resolution : Word) (goal : WalkEnd)
    (x : ResolutionStatus × PathState) : Prop :=
  exists rest, AtRest s heap mem copy last resolution rest x.2 ∧
    VolumesKept heap s x.2 ∧
    WalksOn s.toVfsState nodes goal (x.2.resolution resolution).currentNode rest x.1

/-- A resolution in front of the part that its walk stops at. -/
structure AtStop (s : PathState) (nodes : Set Word) (heap : Heap) (mem : Mem)
    (copy last resolution node : Word) (part rest : List Byte) (t : PathState) :
    Prop where
  atRest : AtRest s heap mem copy last resolution rest t
  volumes : VolumesKept heap s t
  current : (t.resolution resolution).currentNode = node
  inTree : node ∈ nodes
  first : FirstPart part rest
  nonempty : part ≠ []
  directory : isDirectory s.toVfsState node = true
  idle : (s.fs.node node).writers = 0
  stopped : node = 0 ∨ foundChild s.toVfsState node part = none

section Turns

variable {s t : PathState} {nodes : Set Word} {heap : Heap} {mem : Mem}
  {copy last resolution node : Word} {goal : WalkEnd} {part rest : List Byte}

theorem directory_null (ht : OnTheWay s heap mem t)
    (hwriters : (s.fs.node 0).writers = 0) :
    t.directoryOpen 0 handleRead = panic .nonDir := by
  unfold PathState.directoryOpen Fs.directoryOpen
  rw [directory_idle ht hwriters, if_neg Bool.false_ne_true, if_pos (Or.inr rfl)]
  rfl

theorem AtStop.searched (htree : TreeHeld s nodes)
    (ht : AtStop s nodes heap mem copy last resolution node part rest t) (b : Nat) :
    findChild { t.toVfsState with fs := openedFor t.fs heap b (openTarget s.fs node) }
        (stringAt t.mem (t.resolution resolution).currentPart)
        ((openedFor t.fs heap b (openTarget s.fs node)).node
          (openTarget s.fs node)).child =
      findChild s.toVfsState (fun i => part.getD i 0)
        (s.fs.node (openTarget s.fs node)).child := by
  have hshape := openedFor_sameShape ht.atRest.toOnTheWay b (openTarget s.fs node)
  rcases stringAt_part ht.atRest.laid ht.first with ⟨hbytes, hend⟩
  rw [findChild_same hshape, hshape.child]
  exact findChild_part htree (ht.first.zero_not_mem ht.atRest.chars) hbytes hend
    (htree.child _ (htree.target ht.inTree))

theorem AtStop.counted (htree : TreeHeld s nodes) (hheap : HeapInv heap)
    (hpool : 0 < heap.poolStart.toNat)
    (ht : AtStop s nodes heap mem copy last resolution node part rest t)
    {x : ResolutionStatus × PathState} (hrun : vfsRetryResolution t resolution = .ok x) :
    s.lookups < x.2.lookups := by
  have hchar := byte_of_part ht.atRest.laid ht.atRest.chars ht.first
  have hflags : asks (t.fs.node node).flags directoryFlag = true := by
    rw [ht.atRest.nodes.flags]
    exact ht.directory
  unfold vfsRetryResolution at hrun
  dsimp only at hrun
  rw [ht.current, if_neg fun h => ht.nonempty (hchar.mp h), hflags, if_pos rfl] at hrun
  have hnonzero : node ≠ 0 := by
    intro hzero
    subst hzero
    rw [directory_null ht.atRest.toOnTheWay ht.idle] at hrun
    cases hrun
  rcases directory_opened hheap hpool ht.atRest.toOnTheWay hnonzero ht.idle ht.directory with
    ⟨_, hpanic⟩ | ⟨b, _, _, hp, hopen⟩
  · rw [hpanic] at hrun
    cases hrun
  · rw [hopen, ok_bind, if_pos hp] at hrun
    rcases ok_bind_iff.mp hrun with ⟨⟨q, v⟩, hfind, hrun⟩
    rcases ok_bind_iff.mp hrun with ⟨w, hclose, hrun⟩
    have hlast : x.2.lookups = v.lookups := by
      rcases ok_bind_iff.mp hclose with ⟨fs, _, hw⟩
      cases hw
      dsimp only at hrun
      split at hrun <;> cases hrun <;> rfl
    rcases ok_bind_iff.mp hfind with ⟨⟨q', v'⟩, hsearch, hv⟩
    cases hv
    rw [hlast, ← ht.volumes.lookups]
    rcases findNode_asks hsearch with hmore | ⟨q', hchild, hnot⟩
    · exact hmore
    · exfalso
      have hshape := openedFor_sameShape ht.atRest.toOnTheWay b (openTarget s.fs node)
      dsimp only at hchild hnot
      rw [openedFor_handle] at hchild hnot
      rw [ht.searched htree b] at hchild
      rw [hshape.ops] at hnot
      have hnone := ht.stopped.resolve_left hnonzero
      rw [foundChild, hchild] at hnone
      dsimp only at hnone
      rw [if_neg hnot] at hnone
      cases hnone

/-- A turn of a walk runs out of memory, goes where the walk goes, or is the one
that the walk stops at. -/
theorem retry_walked (htree : TreeHeld s nodes) (hheap : HeapInv heap)
    (hpool : 0 < heap.poolStart.toNat)
    (ht : AtRest s heap mem copy last resolution rest t)
    (hvolumes : VolumesKept heap s t)
    (hnode : (t.resolution resolution).currentNode ∈ nodes)
    (hgoal : goal = walk s.toVfsState (t.resolution resolution).currentNode
      (components rest)) :
    HandleFails heap ∧ vfsRetryResolution t resolution = panic .outOfMem ∨
      (exists x, vfsRetryResolution t resolution = .ok x ∧
        TurnWalked s nodes heap mem copy last resolution goal x ∧
        (x.2.resolution resolution).currentPart =
          (t.resolution resolution).currentPart) ∨
      exists node part, goal = .stops node part (laterComponents rest) ∧
        AtStop s nodes heap mem copy last resolution node part rest t := by
  rcases exists_firstPart rest with ⟨part, hpart⟩
  have hcomponents : part ≠ [] ->
      components rest = part :: laterComponents rest := by
    intro hne
    cases part with
    | nil => exact absurd rfl hne
    | cons c part => exact components_part hpart
  generalize hcurrent : (t.resolution resolution).currentNode = node at hnode hgoal
  by_cases hstops : part ≠ [] ∧ isDirectory s.toVfsState node = true ∧
    (s.fs.node node).writers = 0 ∧ (node = 0 ∨ foundChild s.toVfsState node part = none)
  · rcases hstops with ⟨hne, hdir, hwriters, hstops⟩
    rw [hcomponents hne, walk_stopped hdir hwriters hstops] at hgoal
    exact Or.inr (Or.inr ⟨node, part, hgoal,
      ⟨ht, hvolumes, hcurrent, hnode, hpart, hne, hdir, hwriters, hstops⟩⟩)
  · have hfound : part ≠ [] -> isDirectory s.toVfsState node = true ->
        (s.fs.node node).writers = 0 -> node ≠ 0 ∧
          foundChild s.toVfsState node part =
            some ((foundChild s.toVfsState node part).getD 0) := by
      intro hne hdir hwriters
      have hsome := not_or.mp fun h => hstops ⟨hne, hdir, hwriters, h⟩
      refine ⟨hsome.1, ?_⟩
      cases hq : foundChild s.toVfsState node part with
      | none => exact absurd hq hsome.2
      | some q => rfl
    generalize (foundChild s.toVfsState node part).getD 0 = q at hfound
    rcases retry_part hheap hpool ht hcurrent hpart (q := q)
      (fun hne hdir hwriters => foundChild_searched htree hnode
        (hfound hne hdir hwriters).1 (hpart.zero_not_mem ht.chars)
        (hfound hne hdir hwriters).2) with
      hfails | ⟨status, u, hrun, hrest, hkept, hcursor, hturn⟩
    · exact Or.inl hfails
    · refine Or.inr (Or.inl ⟨(status, u), hrun,
        ⟨rest, hrest, hvolumes.trans hkept, ?_⟩, hcursor⟩)
      dsimp only
      generalize (u.resolution resolution).currentNode = node' at hturn
      have hchild : part ≠ [] -> isDirectory s.toVfsState node = true ->
          (s.fs.node node).writers = 0 -> goal =
            if q = 0 then .leads 0 else walk s.toVfsState q (laterComponents rest) := by
        intro hne hdir hwriters
        have hsome := hfound hne hdir hwriters
        rw [hcomponents hne, walk_found hdir hwriters hsome.1 hsome.2] at hgoal
        exact hgoal
      cases hturn with
      | empty =>
          rw [components_nil hpart] at hgoal
          exact ⟨hnode, hgoal⟩
      | file hne hdir =>
          rw [hcomponents hne, walk_missed (Or.inl hdir)] at hgoal
          exact hgoal
      | busy hne hwriters hdir =>
          rw [hcomponents hne, walk_missed (Or.inr hwriters)] at hgoal
          exact hgoal
      | missing hne hdir hwriters hq =>
          have hgoal := hchild hne hdir hwriters
          rw [if_pos hq] at hgoal
          exact hgoal
      | found hne hdir hwriters hq =>
          have hgoal := hchild hne hdir hwriters
          rw [if_neg hq] at hgoal
          have hmem := foundChild_mem htree hnode (hfound hne hdir hwriters).2
          exact ⟨hmem.resolve_left hq, hgoal⟩

theorem advance_walked (htree : TreeHeld s nodes) (hheap : HeapInv heap)
    (hpool : 0 < heap.poolStart.toNat)
    (ht : TurnWalked s nodes heap mem copy last resolution goal (.ok, t)) :
    HandleFails heap ∧ vfsAdvanceResolution t resolution = panic .outOfMem ∨
      (exists x, vfsAdvanceResolution t resolution = .ok x ∧
        TurnWalked s nodes heap mem copy last resolution goal x ∧
        (x.1 = .ok -> (t.resolution resolution).currentPart.toNat <
          (x.2.resolution resolution).currentPart.toNat)) ∨
      exists node part rest u, goal = .stops node part (laterComponents rest) ∧
        AtStop s nodes heap mem copy last resolution node part rest u ∧
        vfsAdvanceResolution t resolution = vfsRetryResolution u resolution ∧
        (t.resolution resolution).currentPart.toNat <
          (u.resolution resolution).currentPart.toNat := by
  rcases ht with ⟨rest, hrest, hvolumes, hnode, hgoal⟩
  dsimp only at hrest hvolumes hnode hgoal
  rcases exists_firstPart rest with ⟨part, hpart⟩
  rcases advance_part hrest hpart with
    ⟨hlast, u, hrun, hended, hkept, hsame⟩ |
      ⟨rest', u, hbehind, hrun, hmoved, hkept, hsame⟩
  · rw [hlast, laterComponents_last hpart.1, ← hsame] at hgoal
    exact Or.inr (Or.inl ⟨_, hrun, ⟨[], hended, hvolumes.trans hkept, hgoal⟩,
      nofun⟩)
  · rw [hbehind, laterComponents_behind hpart.1, ← hsame] at hgoal
    rw [← hsame] at hnode
    rw [hrun]
    have hless : (t.resolution resolution).currentPart.toNat <
        (u.resolution resolution).currentPart.toNat := by
      have hbefore := hrest.cursor
      have hafter := hmoved.cursor
      rw [hbehind, List.length_append, List.length_cons] at hbefore
      omega
    rcases retry_walked htree hheap hpool hmoved (hvolumes.trans hkept) hnode
      hgoal with hfails | ⟨x, hx, hdone, hcursor⟩ | ⟨node, part', hstop, hat⟩
    · exact Or.inl hfails
    · refine Or.inr (Or.inl ⟨x, hx, hdone, fun _ => ?_⟩)
      rw [hcursor]
      exact hless
    · exact Or.inr (Or.inr ⟨node, part', rest', u, hstop, hat, rfl, hless⟩)

theorem retry_counted {x : ResolutionStatus × PathState}
    (hrun : vfsRetryResolution t resolution = .ok x) : t.lookups ≤ x.2.lookups := by
  unfold vfsRetryResolution at hrun
  dsimp only at hrun
  split at hrun
  · cases hrun
    exact Nat.le_refl _
  · split at hrun
    · rcases ok_bind_iff.mp hrun with ⟨⟨p, u⟩, hopen, hrun⟩
      rcases ok_bind_iff.mp hopen with ⟨r, _, hu⟩
      cases hu
      dsimp only at hrun
      split at hrun
      · rcases ok_bind_iff.mp hrun with ⟨⟨q, v⟩, hfind, hrun⟩
        rcases ok_bind_iff.mp hfind with ⟨⟨q', v'⟩, hsearch, hv⟩
        cases hv
        rcases ok_bind_iff.mp hrun with ⟨w, hclose, hrun⟩
        rcases ok_bind_iff.mp hclose with ⟨fs, _, hw⟩
        cases hw
        have hmore := (findNode_only hsearch).lookups
        dsimp only at hrun
        split at hrun <;> cases hrun <;> exact hmore
      · cases hrun
        exact Nat.le_refl _
    · cases hrun
      exact Nat.le_refl _

theorem advance_counted {x : ResolutionStatus × PathState}
    (hrun : vfsAdvanceResolution t resolution = .ok x) : t.lookups ≤ x.2.lookups := by
  rcases ok_bind_iff.mp hrun with ⟨currentPart, _, hrun⟩
  dsimp only at hrun
  split at hrun
  · cases hrun
    exact Nat.le_refl _
  · have hmore := retry_counted hrun
    exact hmore

theorem resolvePath_walked (htree : TreeHeld s nodes) (hheap : HeapInv heap)
    (hpool : 0 < heap.poolStart.toNat) {q : Word}
    (ht : TurnWalked s nodes heap mem copy last resolution (.leads q) (.ok, t))
    (hbegins : 0 < (t.resolution resolution).currentPart.toNat) :
    HandleFails heap ∧ resolvePath t resolution = panic .outOfMem ∨
      exists x, resolvePath t resolution = .ok x ∧ x.1 ≠ .ok ∧
        TurnWalked s nodes heap mem copy last resolution (.leads q) x := by
  refine resolvePath_outcome last ?_ ?_ ht hbegins
  · intro u hu
    rcases hu with ⟨rest, hrest, _⟩
    exact hrest.laid.le
  · intro u hu
    rcases advance_walked htree hheap hpool hu with
      hfails | hgoes | ⟨_, _, _, _, hstop, _⟩
    · exact Or.inl hfails
    · exact Or.inr hgoes
    · cases hstop

theorem resolvePath_asks (htree : TreeHeld s nodes) (hheap : HeapInv heap)
    (hpool : 0 < heap.poolStart.toNat) {part : List Byte} {names : List (List Byte)}
    (ht : TurnWalked s nodes heap mem copy last resolution (.stops node part names)
      (.ok, t))
    {x : ResolutionStatus × PathState} (hrun : resolvePath t resolution = .ok x) :
    s.lookups < x.2.lookups := by
  have hends := whileLoop_invariant
    (I := fun x => TurnWalked s nodes heap mem copy last resolution
      (.stops node part names) x ∨ s.lookups < x.2.lookups) ?_ hrun (Or.inl ht)
  · rcases hends with ⟨hwalked | hmore, hexit⟩
    · rcases x with ⟨status, u⟩
      rcases hwalked with ⟨rest, _, _, hon⟩
      cases status with
      | ok => cases hexit
      | ended => cases hon
      | notFound => cases hon
      | isFile => cases hon
    · exact hmore
  · intro x y hx hcond hy
    rcases x with ⟨status, u⟩
    have hok : status = .ok := of_decide_eq_true hcond
    subst hok
    rcases hx with hwalked | hmore
    · rcases advance_walked htree hheap hpool hwalked with
        ⟨_, hpanic⟩ | ⟨z, hz, hdone, _⟩ | ⟨_, _, _, v, _, hat, hsame, _⟩
      · rw [hpanic] at hy
        cases hy
      · rw [hz] at hy
        cases hy
        exact Or.inl hdone
      · rw [hsame] at hy
        exact Or.inr (hat.counted htree hheap hpool hy)
    · exact Or.inr (Nat.lt_of_lt_of_le hmore (advance_counted hy))

end Turns

/-!
# What a path leads to
-/

def pathWalk (s : VfsState) (path : List Byte) : WalkEnd :=
  walk s s.vfsRoot (laterComponents path)

section Paths

variable {s t : PathState} {nodes : Set Word} {path : List Byte}

theorem startResolve_lookups {resolution : Word}
    (hrun : vfsStartResolve s path = .ok (resolution, t)) : t.lookups = s.lookups := by
  rcases ok_bind_iff.mp hrun with ⟨⟨p, u⟩, hfirst, hrun⟩
  rcases ok_bind_iff.mp hfirst with ⟨r, _, hu⟩
  cases hu
  dsimp only at hrun
  split at hrun
  · cases hrun
    rfl
  · rcases ok_bind_iff.mp hrun with ⟨⟨q, v⟩, hsecond, hrun⟩
    rcases ok_bind_iff.mp hsecond with ⟨r', _, hv⟩
    cases hv
    dsimp only at hrun
    split at hrun
    · rcases ok_bind_iff.mp hrun with ⟨w, hfree, hret⟩
      rcases ok_bind_iff.mp hfree with ⟨fs, _, hw⟩
      cases hw
      cases hret
      rfl
    · rcases ok_bind_iff.mp hrun with ⟨mem, _, hret⟩
      cases hret
      rfl

theorem freePathResolution_lookups {resolution : Word}
    (hrun : vfsFreePathResolution s resolution = .ok t) : t.lookups = s.lookups := by
  rcases ok_bind_iff.mp hrun with ⟨u, hfirst, hsecond⟩
  rcases ok_bind_iff.mp hfirst with ⟨fs, _, hu⟩
  cases hu
  rcases ok_bind_iff.mp hsecond with ⟨fs', _, ht⟩
  cases ht
  rfl

theorem ResolutionStarted.walked {resolution : Word} {b c : Nat}
    (ht : ResolutionStarted s path resolution t b c) (htree : TreeHeld s nodes)
    (h0 : 0 ∉ path) :
    TurnWalked s nodes t.fs.heap t.mem (s.fs.heap.address c)
      (offsetFrom (s.fs.heap.address c) path.length) resolution
      (pathWalk s.toVfsState path) (.ok, t) := by
  refine ⟨path, ⟨⟨rfl, rfl, ht.root, ht.nodes⟩, ht.path, ht.ends, ?_, h0⟩,
    ht.volumes t.fs.heap, ?_, ?_⟩
  · rw [ht.begins]
    exact ht.laid
  · rw [ht.node]
    exact htree.root
  · rw [ht.node]
    rfl

/-- The same nodes, and the same volumes. -/
structure SameVolumes (s t : PathState) : Prop extends SameTrees s t where
  volumes : VolumesKept s.fs.heap s t

/-- A resolution runs out of memory, leads where the walk leads and leaves the
tree as it was, or asks a volume where the walk stops. -/
theorem vfsGetNodeForPath_walked (hheap : HeapInv s.fs.heap)
    (hpool : 0 < s.fs.heap.poolStart.toNat) (htree : TreeHeld s nodes) (h0 : 0 ∉ path)
    (hlen : path.length + 1 < wordCount) :
    LacksMemory s path ∧ vfsGetNodeForPath s path = panic .outOfMem ∨
      (exists q t, pathWalk s.toVfsState path = .leads q ∧
        vfsGetNodeForPath s path = .ok (q, t) ∧ SameVolumes s t) ∨
      (exists node part rest, pathWalk s.toVfsState path = .stops node part rest) ∧
        forall q t, vfsGetNodeForPath s path = .ok (q, t) ->
          s.lookups < t.lookups := by
  unfold vfsGetNodeForPath
  rcases vfsStartResolve_started hheap hpool h0 hlen with
    ⟨hlacks, hpanic⟩ | ⟨resolution, t, b, c, hrun, ht, hlacks⟩
  · rw [hpanic]
    exact Or.inl ⟨hlacks, rfl⟩
  · have hbegins : 0 < (t.resolution resolution).currentPart.toNat := by
      have hnat := address_toNat hheap ht.inSecond
      rw [ht.begins]
      omega
    have hpool' : 0 < t.fs.heap.poolStart.toNat := by
      rw [ht.heap]
      exact hpool
    have hwalked := ht.walked htree h0
    rw [hrun, ok_bind]
    dsimp only
    cases hgoal : pathWalk s.toVfsState path with
    | stops node part rest =>
        rw [hgoal] at hwalked
        refine Or.inr (Or.inr ⟨⟨node, part, rest, rfl⟩, fun q w hok => ?_⟩)
        rcases ok_bind_iff.mp hok with ⟨⟨status, u⟩, hu, hok⟩
        rcases ok_bind_iff.mp hok with ⟨v, hfree, hok⟩
        cases hok
        rw [freePathResolution_lookups hfree]
        exact resolvePath_asks htree (ht.inv hheap) hpool' hwalked hu
    | leads q =>
        rw [hgoal] at hwalked
        rcases resolvePath_walked htree (ht.inv hheap) hpool' hwalked hbegins with
          ⟨hfails, hpanic⟩ | ⟨⟨status, u⟩, hu, hstatus, rest, hrest, hvolumes, hon⟩
        · rw [hpanic]
          exact Or.inl ⟨hlacks hfails, rfl⟩
        · have hfree := vfsFreePathResolution_freed hheap ht hrest.heap
            (hrest.path.trans ht.path.symm)
          rw [hu, ok_bind]
          dsimp only
          rw [hfree, ok_bind]
          refine Or.inr (Or.inl ⟨q, { u with fs := { u.fs with heap := s.fs.heap } },
            rfl, ?_, ⟨⟨rfl, hrest.root,
            ⟨⟨hrest.nodes.shape⟩, hrest.nodes.readers, hrest.nodes.writers⟩⟩, ?_⟩⟩)
          · dsimp only at hstatus hon
            cases status with
            | ok => exact absurd rfl hstatus
            | ended =>
                cases hon
                rfl
            | notFound =>
                cases hon
                rfl
            | isFile =>
                cases hon
                rfl
          · refine ⟨fun p hp => hvolumes.handle p ?_, hvolumes.fatRoot,
              hvolumes.content, hvolumes.stack, hvolumes.lookups⟩
            rw [ht.heap]
            exact hp.take.take

theorem getNodeForPath_counted {q : Word} (hrun : vfsGetNodeForPath s path = .ok (q, t)) :
    s.lookups ≤ t.lookups := by
  rcases ok_bind_iff.mp hrun with ⟨⟨resolution, u⟩, hstart, hrun⟩
  rcases ok_bind_iff.mp hrun with ⟨x, hresolve, hrun⟩
  rcases ok_bind_iff.mp hrun with ⟨v, hfree, hret⟩
  cases hret
  have hu : s.lookups ≤ u.lookups := by
    rw [startResolve_lookups hstart]
  have hx := (whileLoop_invariant (I := fun x => s.lookups ≤ x.2.lookups)
    (fun y z hy _ hz => Nat.le_trans hy (advance_counted hz)) hresolve hu).1
  rw [freePathResolution_lookups hfree]
  exact hx

/-- A path that leads to a node without a volume that is asked leads where the walk
leads. -/
theorem walked_of_ok (hheap : HeapInv s.fs.heap) (hpool : 0 < s.fs.heap.poolStart.toNat)
    (htree : TreeHeld s nodes) (h0 : 0 ∉ path) (hlen : path.length + 1 < wordCount)
    {q : Word} (hrun : vfsGetNodeForPath s path = .ok (q, t))
    (hlookups : t.lookups = s.lookups) :
    pathWalk s.toVfsState path = .leads q ∧ SameVolumes s t := by
  rcases vfsGetNodeForPath_walked hheap hpool htree h0 hlen with
    ⟨_, hpanic⟩ | ⟨q', t', hwalk, hok, hsame⟩ | ⟨_, hasks⟩
  · rw [hpanic] at hrun
    cases hrun
  · rw [hok] at hrun
    cases hrun
    exact ⟨hwalk, hsame⟩
  · have hmore := hasks q t hrun
    omega

end Paths

end Fs
end Rmmtos
