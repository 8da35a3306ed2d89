import Rmmtos.Fs.FatListing
import Rmmtos.Fs.OpenHandles
import Rmmtos.Library.LinkedList

/-!
# Nodes in memory

The nodes that the FAT driver makes are hung into the list of children of their
directory.  A listing never looks there, and a lookup compares names as they
are spelled, so that an entry can get a second node.
-/

namespace Rmmtos
namespace Fs

open Library Kernel

/-!
# Histories of a mounted directory
-/

def ChildPath (s : VfsState) (dir : Word) (xs : List Word) : Prop :=
  NextPath (fun p => (s.fs.node p).next) 0 (s.fs.node dir).child xs

/-- No two children of a directory stand for the same entry. -/
def OneNode (s : VfsState) (dir : Word) : Prop :=
  exists xs, ChildPath s dir xs ∧
    (xs.map fun p => (s.fatFile p).entryPosition).Nodup

/-- The file systems and the nodes that were made for a directory's entries. -/
structure ChildRun where
  vfs : VfsState
  known : List Word

inductive ChildOp where
  | nextNode (handle currentNode : Word)
  | findNode (handle : Word) (name : Bytes)

def addKnown (p : Word) (known : List Word) : List Word :=
  if p = 0 ∨ p ∈ known then known else p :: known

/-- A listing may go on from any node that was made, and a lookup may be for
any string. -/
inductive ChildStep (dir : Word) : ChildRun -> ChildOp -> ChildRun -> Prop where
  | nextNode {s : ChildRun} {handle currentNode p : Word} {t : VfsState} :
      (s.vfs.fs.handle handle).node = dir ->
      currentNode = 0 ∨ currentNode ∈ s.known ->
      directoryGetNextNode s.vfs handle currentNode = .ok (p, t) ->
      ChildStep dir s (.nextNode handle currentNode) ⟨t, addKnown p s.known⟩
  | findNode {s : ChildRun} {handle p : Word} {name : Bytes} {t : VfsState} :
      (s.vfs.fs.handle handle).node = dir ->
      directoryFindNode s.vfs handle name = .ok (p, t) ->
      ChildStep dir s (.findNode handle name) ⟨t, addKnown p s.known⟩

structure FatDirectory (s : VfsState) (dir : Word) (image : Bytes)
    (root : FatGeometry) : Prop where
  ops : (s.fs.node dir).ops = .fatRoot
  geometry : (s.fatRoot dir).geometry = root
  image_eq : s.content (s.fs.handle (s.fatRoot dir).handle).node = image

structure ChildStart (dir : Word) (image : Bytes) (root : FatGeometry)
    (s : ChildRun) : Prop where
  known : s.known = []
  owns : Owns s.vfs.fs.heap [dir]
  directory : FatDirectory s.vfs dir image root
  child : (s.vfs.fs.node dir).child = 0

/-- The entry that a search finds has no node among the children yet. -/
def FreshEntry (s : VfsState) (dir : Word) (image : Bytes) (root : FatGeometry)
    (wanted : Bytes -> Bool) (start : Nat) : Prop :=
  forall k, FirstEntry image root wanted start k ->
    forall xs, ChildPath s dir xs -> forall p, p ∈ xs ->
      (s.fatFile p).entryPosition.toNat ≠ start + 32 * k

def nextStart (s : VfsState) (root : FatGeometry) (currentNode : Word) : Nat :=
  if currentNode = 0 then root.rootBegin.toNat
  else (s.fatFile currentNode).entryPosition.toNat + 32

def NotSpelled (s : VfsState) (dir : Word) (name : Bytes) : Prop :=
  forall xs, ChildPath s dir xs -> forall p, p ∈ xs ->
    sameString (s.fs.node p).name name = false

def FreshLoad (s : VfsState) (dir : Word) (image : Bytes)
    (root : FatGeometry) : ChildOp -> Prop
  | .nextNode _ currentNode =>
      FreshEntry s dir image root (fun _ => true) (nextStart s root currentNode)
  | .findNode _ name => NotSpelled s dir name ->
      FreshEntry s dir image root
        (fun raw => sameFatName raw (nameToFat name (s.stack s.lookups)))
        root.rootBegin.toNat

/-!
# The invariant
-/

structure ChildInv (dir : Word) (image : Bytes) (root : FatGeometry)
    (s : ChildRun) (xs : List Word) : Prop where
  owns : Owns s.vfs.fs.heap (dir :: s.known)
  directory : FatDirectory s.vfs dir image root
  path : ChildPath s.vfs dir xs
  known : forall p, p ∈ xs -> p ∈ s.known
  nodup : xs.Nodup
  near : forall p, p ∈ s.known ->
    (s.vfs.fatFile p).entryPosition.toNat < root.rootEnd.toNat + 32

/-- What a step leaves alone that neither makes nor moves a node. -/
structure SameTree (s s' : VfsState) : Prop where
  heap : s'.fs.heap = s.fs.heap
  next : forall p, (s'.fs.node p).next = (s.fs.node p).next
  child : forall p, (s'.fs.node p).child = (s.fs.node p).child
  ops : forall p, (s'.fs.node p).ops = (s.fs.node p).ops
  handleNode : forall h, (s'.fs.handle h).node = (s.fs.handle h).node
  fatFile : s'.fatFile = s.fatFile
  fatRoot : s'.fatRoot = s.fatRoot
  content : s'.content = s.content

section Same

variable {dir : Word} {image : Bytes} {root : FatGeometry} {s s' : VfsState}
  {known xs : List Word}

theorem sameTree_setPosition (s : VfsState) (handle : Word)
    (position : Uint64) : SameTree s (s.setPosition handle position) := by
  refine ⟨rfl, fun _ => rfl, fun _ => rfl, fun _ => rfl, ?_, rfl, rfl, rfl⟩
  intro h
  unfold VfsState.setPosition FsState.setHandle
  dsimp only
  by_cases hh : h = handle
  · rw [hh, Function.update_self]
  · rw [Function.update_of_ne hh]

theorem sameTree_acquire (s : VfsState) (p : Word) :
    SameTree s { s with fs := nodeAcquire s.fs p } := by
  refine ⟨rfl, ?_, ?_, ?_, fun _ => rfl, rfl, rfl, rfl⟩ <;>
  · intro q
    unfold nodeAcquire FsState.setNode
    dsimp only
    by_cases hq : q = p
    · rw [hq, Function.update_self]
    · rw [Function.update_of_ne hq]

theorem SameTree.path (h : SameTree s s') (hpath : ChildPath s dir xs) :
    ChildPath s' dir xs := by
  unfold ChildPath at *
  rw [h.child]
  exact hpath.congr fun p _ => h.next p

theorem SameTree.inv (h : SameTree s s')
    (hs : ChildInv dir image root ⟨s, known⟩ xs) :
    ChildInv dir image root ⟨s', known⟩ xs := by
  refine ⟨?_, ⟨?_, ?_, ?_⟩, h.path hs.path, hs.known, hs.nodup, ?_⟩
  · change Owns s'.fs.heap _
    rw [h.heap]
    exact hs.owns
  · change (s'.fs.node dir).ops = _
    rw [h.ops]
    exact hs.directory.ops
  · change (s'.fatRoot dir).geometry = _
    rw [h.fatRoot]
    exact hs.directory.geometry
  · change s'.content (s'.fs.handle (s'.fatRoot dir).handle).node = _
    rw [h.content, h.handleNode, h.fatRoot]
    exact hs.directory.image_eq
  · intro p hp
    change (s'.fatFile p).entryPosition.toNat < _
    rw [h.fatFile]
    exact hs.near p hp

end Same

/-!
# A node is hung into the list
-/

section Add

variable {dir p : Word} {image : Bytes} {root : FatGeometry} {s t u : VfsState}
  {known xs : List Word} {entry : DirectoryEntry} {place : Uint64}

def places (s : VfsState) (xs : List Word) : List Uint64 :=
  xs.map fun p => (s.fatFile p).entryPosition

theorem oneNode_iff (hpath : ChildPath s dir xs) :
    OneNode s dir <-> (places s xs).Nodup := by
  constructor
  · rintro ⟨ys, hys, hnodup⟩
    rw [NextPath.unique hpath hys]
    exact hnodup
  · exact fun hnodup => ⟨xs, hpath, hnodup⟩

structure Hung (s : VfsState) (dir p : Word) (t : VfsState) : Prop where
  single : (s.fs.node p).next = 0
  child : (t.fs.node dir).child = p
  next : p ≠ dir -> (t.fs.node p).next = (s.fs.node dir).child
  otherNext : forall q, q ≠ p -> (t.fs.node q).next = (s.fs.node q).next
  ops : forall q, (t.fs.node q).ops = (s.fs.node q).ops
  heap : t.fs.heap = s.fs.heap
  handle : t.fs.handle = s.fs.handle
  fatFile : t.fatFile = s.fatFile
  fatRoot : t.fatRoot = s.fatRoot
  content : t.content = s.content

theorem addToChildren_hung (hrun : s.addToChildren dir p = .ok t) :
    Hung s dir p t := by
  rcases ok_bind_iff.mp hrun with ⟨fs, hadd, ht⟩
  cases ht
  unfold directoryAddToChildren at hadd
  split at hadd
  · cases hadd
  · next hnext =>
      cases hadd
      refine ⟨not_not.mp hnext, ?_, ?_, ?_, ?_, rfl, rfl, rfl, rfl, rfl⟩
      · simp [FsState.setNode]
      · intro hp
        simp [FsState.setNode, hp]
      · intro q hq
        by_cases hqd : q = dir
        · subst hqd
          simp [FsState.setNode, hq]
        · simp [FsState.setNode, hq, hqd]
      · intro q
        by_cases hqd : q = dir
        · subst hqd
          by_cases hqp : q = p
          · subst hqp
            simp [FsState.setNode]
          · simp [FsState.setNode, hqp]
        · by_cases hqp : q = p
          · subst hqp
            simp [FsState.setNode, hqd]
          · simp [FsState.setNode, hqd, hqp]

theorem ChildInv.added (hs : ChildInv dir image root ⟨s, known⟩ xs)
    (hnew : Created s (dir :: known) dir entry place p t)
    (hplace : place.toNat < root.rootEnd.toNat + 32)
    (hrun : t.addToChildren dir p = .ok u) :
    ChildInv dir image root ⟨u, p :: known⟩ (p :: xs) ∧
      places u (p :: xs) = place :: places s xs := by
  have hhung := addToChildren_hung hrun
  have hframe := hnew.frame
  have hfresh := hnew.fresh
  have hdir : p ≠ dir := fun h => hfresh (h ▸ List.mem_cons_self)
  have hp0 := hnew.owns.ne_zero List.mem_cons_self
  have hinuse : forall q, q ∈ known -> q ∈ dir :: known ∨ q = 0 :=
    fun q hq => Or.inl (List.mem_cons_of_mem dir hq)
  have hself : dir ∈ dir :: known ∨ dir = 0 := Or.inl List.mem_cons_self
  have hpxs : forall q, q ∈ xs -> q ≠ p := by
    intro q hq heq
    exact hfresh (heq ▸ List.mem_cons_of_mem dir (hs.known q hq))
  rcases hnew.file with ⟨junk, hfile⟩
  constructor
  · refine ⟨?_, ⟨?_, ?_, ?_⟩, ?_, ?_, ?_, ?_⟩
    · change Owns u.fs.heap _
      rw [hhung.heap]
      exact hnew.owns.perm (List.Perm.swap dir p known)
    · change (u.fs.node dir).ops = _
      rw [hhung.ops, hframe.node dir hself]
      exact hs.directory.ops
    · change (u.fatRoot dir).geometry = root
      rw [hhung.fatRoot, hframe.fatRoot dir hself]
      exact hs.directory.geometry
    · change u.content (u.fs.handle (u.fatRoot dir).handle).node = image
      rw [hhung.content, hhung.handle, hhung.fatRoot, hframe.content,
        hframe.handle, hframe.fatRoot dir hself]
      exact hs.directory.image_eq
    · change NextPath _ 0 (u.fs.node dir).child _
      rw [hhung.child]
      refine NextPath.node hp0 ?_
      dsimp only
      rw [hhung.next hdir, hframe.node dir hself]
      refine hs.path.congr fun q hq => ?_
      rw [hhung.otherNext q (hpxs q hq),
        hframe.node q (hinuse q (hs.known q hq))]
    · intro q hq
      rcases List.mem_cons.mp hq with hqp | hq
      · exact List.mem_cons.mpr (Or.inl hqp)
      · exact List.mem_cons_of_mem p (hs.known q hq)
    · exact List.nodup_cons.mpr ⟨fun h => hpxs p h rfl, hs.nodup⟩
    · intro q hq
      change (u.fatFile q).entryPosition.toNat < _
      rw [hhung.fatFile]
      rcases List.mem_cons.mp hq with hqp | hq
      · rw [hqp, hfile]
        exact hplace
      · rw [hframe.fatFile q (hinuse q hq)]
        exact hs.near q hq
  · unfold places
    rw [List.map_cons, hhung.fatFile, hfile]
    refine congrArg (List.cons place) (List.map_congr_left fun q hq => ?_)
    rw [hframe.fatFile q (hinuse q (hs.known q hq))]

/-- A lookup that finds nothing hangs the null pointer into the list, and the
directory forgets its children. -/
theorem ChildInv.lost (hs : ChildInv dir image root ⟨s, known⟩ xs)
    (hrun : s.addToChildren dir 0 = .ok t) :
    ChildInv dir image root ⟨t, known⟩ [] := by
  have hhung := addToChildren_hung hrun
  refine ⟨?_, ⟨?_, ?_, ?_⟩, ?_, ?_, List.nodup_nil, ?_⟩
  · change Owns t.fs.heap _
    rw [hhung.heap]
    exact hs.owns
  · change (t.fs.node dir).ops = _
    rw [hhung.ops]
    exact hs.directory.ops
  · change (t.fatRoot dir).geometry = root
    rw [hhung.fatRoot]
    exact hs.directory.geometry
  · change t.content (t.fs.handle (t.fatRoot dir).handle).node = image
    rw [hhung.content, hhung.handle, hhung.fatRoot]
    exact hs.directory.image_eq
  · change NextPath _ 0 (t.fs.node dir).child _
    rw [hhung.child]
    exact NextPath.done
  · intro q hq
    cases hq
  · intro q hq
    change (t.fatFile q).entryPosition.toNat < _
    rw [hhung.fatFile]
    exact hs.near q hq

end Add

/-!
# Steps
-/

section Steps

variable {dir p q : Word} {image : Bytes} {root : FatGeometry}
  {s t u : VfsState} {known xs : List Word} {wanted : Bytes -> Bool} {position place : Uint64}

theorem freshEntry_iff {start k : Nat} (hpath : ChildPath s dir xs)
    (hfirst : FirstEntry image root wanted start k)
    (hplace : place.toNat = start + 32 * k) :
    FreshEntry s dir image root wanted start <-> place ∉ places s xs := by
  unfold places
  constructor
  · intro hfresh hmem
    rcases List.mem_map.mp hmem with ⟨q, hq, heq⟩
    apply hfresh k hfirst xs hpath q hq
    rw [heq, hplace]
  · intro hnot j hj ys hys q hq heq
    rw [NextPath.unique hys hpath] at hq
    apply hnot
    refine List.mem_map.mpr ⟨q, hq, Uint64.eq_of_toNat_eq ?_⟩
    rw [heq, hplace, hfirst.unique hj]

theorem ChildInv.load (hs : ChildInv dir image root ⟨s, known⟩ xs)
    (hsmall : SmallRoot root)
    (hnear : position.toNat < root.rootEnd.toNat + 64)
    (hrun : fatLoadNode s dir wanted position = .ok (p, t)) :
    (p = 0 ∧ (forall k, ¬ FirstEntry image root wanted position.toNat k) ∧
      SameTree s t) ∨
    (p ≠ 0 ∧ p ∉ known ∧ exists place,
      (FreshEntry s dir image root wanted position.toNat <->
        place ∉ places s xs) ∧
      forall u, t.addToChildren dir p = .ok u ->
        ChildInv dir image root ⟨u, p :: known⟩ (p :: xs) ∧
          places u (p :: xs) = place :: places s xs) := by
  have hend := hsmall.end_lt
  rcases fatLoadNode_cases hs.owns dir wanted position hs.directory.geometry
    hs.directory.image_eq (by omega) hnear with
    ⟨moved, hnone, hok⟩ | ⟨k, hfirst, hload⟩
  · rw [hok] at hrun
    cases hrun
    exact Or.inl ⟨rfl, hnone, sameTree_setPosition ..⟩
  · rcases hload with hpanic | ⟨q, s', place, moved, hok, hplace, hnew⟩
    · rw [hpanic] at hrun
      cases hrun
    · rw [hok] at hrun
      cases hrun
      have hmoved := (sameTree_setPosition s (s.fatRoot dir).handle moved).inv hs
      have hinside := hfirst.inside
      refine Or.inr ⟨hnew.owns.ne_zero List.mem_cons_self,
        fun h => hnew.fresh (List.mem_cons_of_mem dir h), place,
        freshEntry_iff hs.path hfirst hplace, fun u hadd => ?_⟩
      exact hmoved.added hnew (by omega) hadd

/-- The steps keep the invariant, and a step keeps the nodes of the entries
apart exactly when it makes none for an entry that has one. -/
def StepKeeps (dir : Word) (image : Bytes) (root : FatGeometry) (s : ChildRun)
    (op : ChildOp) (s' : ChildRun) : Prop :=
  (exists ys, ChildInv dir image root s' ys) ∧
    (OneNode s.vfs dir ->
      (OneNode s'.vfs dir <-> FreshLoad s.vfs dir image root op))

theorem addKnown_zero (known : List Word) : addKnown 0 known = known :=
  if_pos (Or.inl rfl)

theorem addKnown_old (hp : p ∈ known) : addKnown p known = known :=
  if_pos (Or.inr hp)

theorem addKnown_new (hp0 : p ≠ 0) (hp : p ∉ known) :
    addKnown p known = p :: known :=
  if_neg (not_or.mpr ⟨hp0, hp⟩)

theorem SameTree.oneNode (h : SameTree s t) (hpath : ChildPath s dir xs) :
    OneNode t dir <-> OneNode s dir := by
  rw [oneNode_iff hpath, oneNode_iff (h.path hpath)]
  unfold places
  rw [h.fatFile]

theorem ChildInv.nextNode {handle currentNode : Word}
    (hs : ChildInv dir image root ⟨s, known⟩ xs) (hsmall : SmallRoot root)
    (hhandle : (s.fs.handle handle).node = dir)
    (hcurrent : currentNode = 0 ∨ currentNode ∈ known)
    (hrun : directoryGetNextNode s handle currentNode = .ok (p, u)) :
    StepKeeps dir image root ⟨s, known⟩ (.nextNode handle currentNode)
      ⟨u, addKnown p known⟩ := by
  have hle := hsmall.begin_le
  have hend := hsmall.end_lt
  unfold directoryGetNextNode at hrun
  dsimp only at hrun
  rw [hhandle, hs.directory.ops] at hrun
  split at hrun
  · cases hrun
  rcases ok_bind_iff.mp hrun with ⟨⟨q, t⟩, hnext, hrun⟩
  unfold fatRootGetNextNode at hnext
  dsimp only at hnext hrun
  rw [hhandle, hs.directory.geometry] at hnext
  have hstart : exists position : Uint64,
      fatLoadNode s dir (fun _ => true) position = .ok (q, t) ∧
      position.toNat = nextStart s root currentNode ∧
      position.toNat < root.rootEnd.toNat + 64 := by
    unfold nextStart
    rcases hcurrent with rfl | hknown
    · rw [if_pos rfl] at hnext
      exact ⟨_, hnext, (if_pos rfl).symm, by omega⟩
    · have hne := hs.owns.ne_zero (List.mem_cons_of_mem dir hknown)
      have hnear : (s.fatFile currentNode).entryPosition.toNat <
          root.rootEnd.toNat + 32 := hs.near currentNode hknown
      have hsize : (init64 0 0 0 directoryEntrySize).toNat = 32 := rfl
      rw [if_neg hne] at hnext
      refine ⟨_, hnext, ?_, ?_⟩
      · rw [if_neg hne, add64_toNat_of_lt (by omega), hsize]
        omega
      · rw [add64_toNat_of_lt (by omega), hsize]
        omega
  rcases hstart with ⟨position, hload, hposition, hnear⟩
  have hiff := oneNode_iff hs.path
  rcases hs.load hsmall hnear hload with ⟨rfl, hnone, hsame⟩ |
    ⟨hq0, hq, place, hfresh, hadd⟩
  · rw [if_neg (not_not.mpr rfl)] at hrun
    cases hrun
    rw [addKnown_zero]
    refine ⟨⟨xs, hsame.inv hs⟩, fun hone => ?_⟩
    refine iff_of_true ((hsame.oneNode hs.path).mpr hone) ?_
    intro k hfirst
    rw [← hposition] at hfirst
    exact absurd hfirst (hnone k)
  · rw [if_pos hq0] at hrun
    rcases ok_bind_iff.mp hrun with ⟨v, hchild, hv⟩
    cases hv
    rcases hadd _ hchild with ⟨hinv, hplaces⟩
    rw [addKnown_new hq0 hq]
    refine ⟨⟨_, hinv⟩, fun hone => ?_⟩
    rw [oneNode_iff hinv.path, hplaces, List.nodup_cons,
      and_iff_left (hiff.mp hone), ← hfresh, hposition]
    rfl

theorem ChildInv.findChild_cases
    (hs : ChildInv dir image root ⟨s, known⟩ xs) (name : Bytes) :
    (findChild s name (s.fs.node dir).child = .ok 0 ∧ NotSpelled s dir name) ∨
      exists p, findChild s name (s.fs.node dir).child = .ok p ∧ p ∈ xs ∧
        sameString (s.fs.node p).name name = true := by
  have hne : forall p, p ∈ xs -> p ≠ 0 := fun p hp =>
    hs.owns.ne_zero (List.mem_cons_of_mem dir (hs.known p hp))
  have hlen := length_lt_of_nodup hs.nodup fun h => hne 0 h rfl
  rcases NextPath.walk (e := Stop.hang)
    (c := fun p => p != 0 && !sameString (s.fs.node p).name name) hs.path rfl
    (n := wordCount) (Nat.le_of_lt hlen) with ⟨p, hrun, hp⟩
  rcases hp with ⟨rfl, hall⟩ | ⟨hp, hstop⟩
  · refine Or.inl ⟨hrun, ?_⟩
    intro ys hys q hq
    rw [NextPath.unique hys hs.path] at hq
    have hpass := hall q hq
    rw [Bool.and_eq_true, Bool.not_eq_true'] at hpass
    exact hpass.2
  · refine Or.inr ⟨p, hrun, hp, ?_⟩
    rw [Bool.and_eq_false_iff, bne_eq_false_iff_eq, Bool.not_eq_false'] at hstop
    exact hstop.resolve_left (hne p hp)

theorem sameTree_acquired
    (hrun : (if p ≠ 0 then .ok (p, { s with fs := nodeAcquire s.fs p })
      else .ok (p, s) : Result (Word × VfsState)) = .ok (q, t)) :
    q = p ∧ SameTree s t := by
  split at hrun
  · cases hrun
    exact ⟨rfl, sameTree_acquire s p⟩
  · cases hrun
    exact ⟨rfl, rfl, fun _ => rfl, fun _ => rfl, fun _ => rfl, fun _ => rfl, rfl,
      rfl, rfl⟩

theorem ChildInv.findNode {handle : Word} {name : Bytes}
    (hs : ChildInv dir image root ⟨s, known⟩ xs) (hsmall : SmallRoot root)
    (hhandle : (s.fs.handle handle).node = dir)
    (hrun : directoryFindNode s handle name = .ok (p, u)) :
    StepKeeps dir image root ⟨s, known⟩ (.findNode handle name)
      ⟨u, addKnown p known⟩ := by
  have hle := hsmall.begin_le
  unfold directoryFindNode at hrun
  dsimp only at hrun
  rw [hhandle, hs.directory.ops] at hrun
  split at hrun
  · cases hrun
  rcases hs.findChild_cases name with ⟨hfind, hnot⟩ | ⟨q, hfind, hq, hname⟩
  · rw [hfind, ok_bind, if_pos ⟨rfl, rfl⟩] at hrun
    rcases ok_bind_iff.mp hrun with ⟨⟨q, t⟩, hload, hrun⟩
    rcases ok_bind_iff.mp hrun with ⟨v, hadd, hrun⟩
    rcases sameTree_acquired hrun with ⟨rfl, hacquire⟩
    unfold fatRootGetNodeByName at hload
    dsimp only at hload hadd
    rw [hhandle, hs.directory.geometry] at hload
    have hlookups : SameTree s { s with lookups := s.lookups + 1 } :=
      ⟨rfl, fun _ => rfl, fun _ => rfl, fun _ => rfl, fun _ => rfl, rfl, rfl,
        rfl⟩
    rcases (hlookups.inv hs).load hsmall (by omega) hload with
      ⟨rfl, hnone, hsame⟩ | ⟨hq0, hq, place, hfresh, hinv⟩
    · have hlost := hacquire.inv ((hsame.inv (hlookups.inv hs)).lost hadd)
      rw [addKnown_zero]
      refine ⟨⟨[], hlost⟩, fun _ => ?_⟩
      refine iff_of_true ((oneNode_iff hlost.path).mpr List.nodup_nil) ?_
      intro _ k hfirst
      exact absurd hfirst (hnone k)
    · rcases hinv _ hadd with ⟨hinv, hplaces⟩
      have hacquired := hacquire.inv hinv
      rw [addKnown_new hq0 hq]
      refine ⟨⟨_, hacquired⟩, fun hone => ?_⟩
      have hnodup : (places s xs).Nodup := (oneNode_iff hs.path).mp hone
      rw [hacquire.oneNode hinv.path, oneNode_iff hinv.path, hplaces,
        List.nodup_cons]
      constructor
      · rintro ⟨hplace, _⟩ _
        exact hfresh.mpr hplace
      · intro h
        exact ⟨hfresh.mp (h hnot), hnodup⟩
  · have hq0 := hs.owns.ne_zero (List.mem_cons_of_mem dir (hs.known q hq))
    rw [hfind, ok_bind, if_neg (fun h => hq0 h.1)] at hrun
    rcases sameTree_acquired hrun with ⟨rfl, hacquire⟩
    rw [addKnown_old (hs.known _ hq)]
    refine ⟨⟨xs, hacquire.inv hs⟩, fun hone => ?_⟩
    refine iff_of_true ((hacquire.oneNode hs.path).mpr hone) ?_
    intro hnot
    have hdiffers := hnot xs hs.path _ hq
    rw [hname] at hdiffers
    cases hdiffers

theorem ChildStart.inv {r : ChildRun} (hr : ChildStart dir image root r) :
    ChildInv dir image root r [] ∧ OneNode r.vfs dir := by
  rcases r with ⟨s, known⟩
  rcases hr with ⟨rfl, howns, hdirectory, hchild⟩
  have hpath : ChildPath s dir [] := by
    unfold ChildPath
    dsimp only at hchild
    rw [hchild]
    exact NextPath.done
  refine ⟨⟨howns, hdirectory, hpath, ?_, List.nodup_nil, ?_⟩,
    ⟨[], hpath, List.nodup_nil⟩⟩
  · intro p hp
    cases hp
  · intro p hp
    cases hp

def FreshStep (dir : Word) (image : Bytes) (root : FatGeometry)
    (s s' : ChildRun) : Prop :=
  exists op, FreshLoad s.vfs dir image root op ∧ ChildStep dir s op s'

theorem ChildInv.step {r r' : ChildRun} {op : ChildOp} {ys : List Word}
    (hr : ChildInv dir image root r ys) (hsmall : SmallRoot root)
    (hstep : ChildStep dir r op r') : StepKeeps dir image root r op r' := by
  cases hstep with
  | nextNode hhandle hcurrent hrun =>
      exact hr.nextNode hsmall hhandle hcurrent hrun
  | findNode hhandle hrun => exact hr.findNode hsmall hhandle hrun

/-- No entry has two nodes as long as every step that makes a node makes one
for an entry that has none, and one has after the first step that does not. -/
theorem one_node_per_entry {params : Parameters} {r : ChildRun}
    (hroot : parseParams params = .ok root)
    (hr : Reachable (ChildStart dir image root) (FreshStep dir image root) r) :
    OneNode r.vfs dir ∧ forall op r', ChildStep dir r op r' ->
      (OneNode r'.vfs dir <-> FreshLoad r.vfs dir image root op) := by
  have hsmall := smallRoot_of_parseParams hroot
  have hinv : (exists ys, ChildInv dir image root r ys) ∧ OneNode r.vfs dir := by
    apply hr.invariant (I := fun r =>
      (exists ys, ChildInv dir image root r ys) ∧ OneNode r.vfs dir)
    · intro r hstart
      exact ⟨⟨[], hstart.inv.1⟩, hstart.inv.2⟩
    · rintro r r' ⟨⟨ys, hys⟩, hone⟩ ⟨op, hfresh, hstep⟩
      rcases hys.step hsmall hstep with ⟨hinv, hiff⟩
      exact ⟨hinv, (hiff hone).mpr hfresh⟩
  rcases hinv with ⟨⟨ys, hys⟩, hone⟩
  refine ⟨hone, fun op r' hstep => ?_⟩
  exact (hys.step hsmall hstep).2 hone

end Steps

/-!
# A directory that is listed twice
-/

def mountedBlock : Word × Heap :=
  (Kernel.malloc smallHeap 53).toOption.getD (0, smallHeap)

def mountedOne : ChildRun where
  vfs := { mountedAt8 (oneEntry initName) with
    fs := {
      heap := mountedBlock.2
      node := fun _ => ⟨[], directoryFlag, 1, 0, 0, 0, .fatRoot, 0, 0⟩
      handle := fun _ => ⟨0x8002, mountedBlock.1, init64 0 0 0 0⟩ } }
  known := []

theorem mountedOne_start :
    ChildStart mountedBlock.1 (oneEntry initName) bootRoot mountedOne := by
  have hsmall : Owns smallHeap [] := by
    refine ⟨⟨smallBoot_boot.heap, ?_⟩, List.nodup_nil, smallBoot_boot.pool_pos⟩
    intro p o hp
    cases hp
  exact ⟨rfl, (hsmall.malloc (p := mountedBlock.1) (n := 53) rfl).2,
    ⟨rfl, rfl, rfl⟩, rfl⟩

def beginListing (r : ChildRun) : ChildRun :=
  let x := (directoryGetNextNode r.vfs 4 0).toOption.getD (0, r.vfs)
  ⟨x.2, addKnown x.1 r.known⟩

theorem beginListing_step : ChildStep mountedBlock.1 mountedOne (.nextNode 4 0)
    (beginListing mountedOne) :=
  ChildStep.nextNode rfl (Or.inl rfl) rfl

theorem beginListing_step_again :
    ChildStep mountedBlock.1 (beginListing mountedOne) (.nextNode 4 0)
      (beginListing (beginListing mountedOne)) :=
  ChildStep.nextNode rfl (Or.inl rfl) rfl

theorem one_node_after_listing :
    OneNode (beginListing mountedOne).vfs mountedBlock.1 := by
  refine (one_node_per_entry
    (rfl : parseParams bootParameters = .ok bootRoot) (Reachable.step
      (Reachable.start mountedOne_start) ⟨.nextNode 4 0, ?_,
        beginListing_step⟩)).1
  intro k _ xs hpath p hp
  rw [NextPath.unique hpath mountedOne_start.inv.1.path] at hp
  cases hp

theorem two_nodes_for_one_entry : exists r,
    Reachable (ChildStart mountedBlock.1 (oneEntry initName) bootRoot)
      (fun r r' => exists op, ChildStep mountedBlock.1 r op r') r ∧
    ¬ OneNode r.vfs mountedBlock.1 := by
  refine ⟨beginListing (beginListing mountedOne), ?_, ?_⟩
  · exact Reachable.step (Reachable.step (Reachable.start mountedOne_start)
      ⟨_, beginListing_step⟩) ⟨_, beginListing_step_again⟩
  · rintro ⟨xs, hpath, hnodup⟩
    rcases NextPath.exists_rest hpath (by decide +kernel) with ⟨ys, rfl, hys⟩
    rcases NextPath.exists_rest hys (by decide +kernel) with ⟨zs, rfl, _⟩
    rw [List.map_cons, List.map_cons, List.nodup_cons] at hnodup
    apply hnodup.1
    refine List.mem_cons.mpr (Or.inl ?_)
    decide +kernel

end Fs
end Rmmtos
