import Rmmtos.Fs.FatChildren
import Rmmtos.Fs.FatEnumeration
import Rmmtos.Fs.PathResolution

/-!
# Lookups that fail

A lookup that no file system takes part in leaves everything as it is.  The
lookup of a file system hangs what it returned into the list of the children,
also when that is the null pointer: the directory then has no child, and the
children are on the list of the null node.
-/

namespace Rmmtos
namespace Fs

open Library Zones Kernel

/-- The entry right behind the directory would be found: nothing ends the
directory in front of it. -/
def FoundBehind (image : Bytes) (root : FatGeometry) (wanted : Bytes -> Bool) :
    Prop :=
  exists k, slotPlace root (k - 1) < root.rootEnd.toNat ∧
    root.rootEnd.toNat ≤ slotPlace root k ∧
    (forall i, i < k -> ¬ (slot image root i).Ends) ∧
    (slot image root k).Taken wanted

def lookupWanted (s : VfsState) (name : Bytes) : Bytes -> Bool :=
  fun raw => sameFatName raw (nameToFat name (s.stack s.lookups))

def VfsState.mountedImage (s : VfsState) (dir : Word) : Bytes :=
  s.content (s.fs.handle (s.fatRoot dir).handle).node

def VfsState.mountedGeometry (s : VfsState) (dir : Word) : FatGeometry :=
  (s.fatRoot dir).geometry

/-- No child has the name, and no entry of the file system has it. -/
structure MissingName (s : VfsState) (dir : Word) (name : Bytes)
    (children : List Word) : Prop where
  path : ChildPath s dir children
  spelled : forall p, p ∈ children -> sameString (s.fs.node p).name name = false
  parsed : (s.fs.node dir).ops = .fatRoot -> exists params,
    parseParams params = .ok (s.mountedGeometry dir)
  entries : (s.fs.node dir).ops = .fatRoot -> forall k,
    LiveEntry (s.mountedImage dir) (s.mountedGeometry dir) k ->
      lookupWanted s name (entryAt (s.mountedImage dir)
        ((s.mountedGeometry dir).rootBegin.toNat + 32 * k)).name = false

/-- A lookup returns nothing and leaves every node as it is. -/
def CleanMiss (s : VfsState) (handle : Word) (name : Bytes) : Prop :=
  exists t, directoryFindNode s handle name = .ok (0, t) ∧ t.fs.node = s.fs.node

/-- Nothing can be lost by a lookup that fails: no file system takes part in it,
or there is no child and the null node is on no list. -/
def NothingToLose (s : VfsState) (dir : Word) (name : Bytes) : Prop :=
  (s.fs.node dir).ops = .fatRoot ->
    (s.fs.node dir).child = 0 ∧ (s.fs.node 0).next = 0 ∧
      ¬ FoundBehind (s.mountedImage dir) (s.mountedGeometry dir)
        (lookupWanted s name)

section Lookup

variable {s : VfsState} {handle dir : Word} {name : Bytes} {children : List Word}

theorem findChild_missing (h : MissingName s dir name children) :
    findChild s name (s.fs.node dir).child = .ok 0 := by
  have hlen := length_lt_of_nodup h.path.nodup h.path.not_mem
  rcases NextPath.walk (e := Stop.hang)
    (c := fun p => p != 0 && !sameString (s.fs.node p).name name) h.path rfl
    (n := wordCount) (Nat.le_of_lt hlen) with ⟨p, hrun, ⟨rfl, _⟩ | ⟨hp, hstop⟩⟩
  · exact hrun
  · have hne : p ≠ 0 := fun hzero => h.path.not_mem (hzero ▸ hp)
    rw [h.spelled p hp, Bool.not_false, Bool.and_true, bne_eq_false_iff_eq] at hstop
    exact absurd hstop hne

theorem first_iff_foundBehind {image : Bytes} {root : FatGeometry}
    {wanted : Bytes -> Bool}
    (hentries : forall k, LiveEntry image root k ->
      wanted (entryAt image (root.rootBegin.toNat + 32 * k)).name = false) :
    (exists k, FirstEntry image root wanted root.rootBegin.toNat k) <->
      FoundBehind image root wanted := by
  constructor
  · rintro ⟨k, hk⟩
    have hends : forall i, i < k -> ¬ (slot image root i).Ends :=
      fun i hi hends => DirectoryEntry.not_passed_of_ends hends (hk.passed i hi)
    refine ⟨k, hk.inside, ?_, hends, hk.taken⟩
    by_contra hinside
    have hlive : LiveEntry image root k :=
      ⟨Nat.lt_of_not_le hinside, hk.taken.1, hends⟩
    have hwanted := hk.taken.2
    rw [hentries k hlive] at hwanted
    cases hwanted
  · rintro ⟨k, hbefore, _, hends, htaken⟩
    refine ⟨k, hbefore, ?_, htaken⟩
    intro i hi
    rcases DirectoryEntry.skipped_or_ends_or_live (slot image root i) with
      hskipped | hend | hlive
    · exact Or.inl hskipped
    · exact absurd hend (hends i hi)
    · refine Or.inr ⟨hlive, hentries i ⟨?_, hlive, fun j hj => hends j (by omega)⟩⟩
      unfold slotPlace at hbefore
      omega

theorem setNode_self {s : FsState} {p : Word} {node : Node} (h : node = s.node p) :
    s.setNode p node = s := by
  unfold FsState.setNode
  rw [h, Function.update_eq_self]

theorem next_zero {n : Node} (h : n.next = 0) : { n with next := 0 } = n := by
  rw [← h]

theorem child_zero {n : Node} (h : n.child = 0) : { n with child := 0 } = n := by
  rw [← h]

theorem addNull_same (hchild : (s.fs.node dir).child = 0)
    (hnext : (s.fs.node 0).next = 0) : s.addToChildren dir 0 = .ok s := by
  have hnull : s.fs.setNode 0 { s.fs.node 0 with next := (s.fs.node dir).child } =
      s.fs := by
    apply setNode_self
    rw [hchild]
    exact next_zero hnext
  have hdir : s.fs.setNode dir { s.fs.node dir with child := 0 } = s.fs :=
    setNode_self (child_zero hchild)
  unfold VfsState.addToChildren directoryAddToChildren
  rw [if_neg fun h => h hnext]
  dsimp only
  rw [hnull, hdir]
  rfl

/-- The lookup of a file system hangs the null pointer into the list. -/
theorem addNull_iff :
    (exists t, s.addToChildren dir 0 = .ok t ∧ t.fs.node = s.fs.node) <->
      (s.fs.node dir).child = 0 ∧ (s.fs.node 0).next = 0 := by
  constructor
  · rintro ⟨t, hrun, hsame⟩
    have hhung := addToChildren_hung hrun
    have hchild := hhung.child
    rw [hsame] at hchild
    exact ⟨hchild, hhung.single⟩
  · rintro ⟨hchild, hnext⟩
    exact ⟨s, addNull_same hchild hnext, rfl⟩

theorem getNodeByName_cases (howns : exists live, Owns s.fs.heap live)
    (hhandle : (s.fs.handle handle).node = dir)
    (hops : (s.fs.node dir).ops = .fatRoot)
    (h : MissingName s dir name children) :
    (¬ FoundBehind (s.mountedImage dir) (s.mountedGeometry dir)
          (lookupWanted s name) ∧
        exists moved, fatRootGetNodeByName s handle name =
          .ok (0, { s with lookups := s.lookups + 1 }.setPosition
            (s.fatRoot dir).handle moved)) ∨
      FoundBehind (s.mountedImage dir) (s.mountedGeometry dir)
          (lookupWanted s name) ∧
        forall q t, fatRootGetNodeByName s handle name = .ok (q, t) -> q ≠ 0 := by
  rcases howns with ⟨live, howns⟩
  rcases h.parsed hops with ⟨params, hparams⟩
  have hsmall := smallRoot_of_parseParams hparams
  have hle := hsmall.begin_le
  have hend := hsmall.end_lt
  have hrun : fatRootGetNodeByName s handle name =
      fatLoadNode { s with lookups := s.lookups + 1 } dir (lookupWanted s name)
        (s.mountedGeometry dir).rootBegin := by
    unfold fatRootGetNodeByName
    dsimp only
    rw [hhandle]
    rfl
  rw [hrun, ← first_iff_foundBehind (h.entries hops)]
  rcases fatLoadNode_cases (s := { s with lookups := s.lookups + 1 }) howns dir
    (lookupWanted s name) (s.mountedGeometry dir).rootBegin
    (rfl : _ = s.mountedGeometry dir) (rfl : _ = s.mountedImage dir) (by omega)
    (by omega) with ⟨moved, hnone, hok⟩ | ⟨k, hfirst, hload⟩
  · exact Or.inl ⟨fun hsome => hsome.elim hnone, moved, hok⟩
  · refine Or.inr ⟨⟨k, hfirst⟩, ?_⟩
    intro q t hq
    rcases hload with hpanic | ⟨q', t', _, _, hok, _, hcreated⟩
    · rw [hpanic] at hq
      cases hq
    · rw [hok] at hq
      cases hq
      exact hcreated.owns.ne_zero List.mem_cons_self

theorem addNull_moved_iff (moved : Uint64) :
    (exists t, ({ s with lookups := s.lookups + 1 }.setPosition
          (s.fatRoot dir).handle moved).addToChildren dir 0 = .ok t ∧
        t.fs.node = s.fs.node) <->
      (s.fs.node dir).child = 0 ∧ (s.fs.node 0).next = 0 :=
  addNull_iff (s := { s with lookups := s.lookups + 1 }.setPosition
    (s.fatRoot dir).handle moved)

theorem nothingToLose_lookup (howns : exists live, Owns s.fs.heap live)
    (hmay : mayRead (s.fs.handle handle) = true)
    (hhandle : (s.fs.handle handle).node = dir)
    (h : MissingName s dir name children) (hnothing : NothingToLose s dir name) :
    exists t, directoryFindNode s handle name = .ok (0, t) ∧
      t.fs.node = s.fs.node ∧ t.fs.heap = s.fs.heap ∧
      forall p, p ≠ (s.fatRoot dir).handle -> t.fs.handle p = s.fs.handle p := by
  by_cases hops : (s.fs.node dir).ops = .fatRoot
  · rcases hnothing hops with ⟨hchild, hnext, hnone⟩
    rw [find_in_fat hmay hhandle hops (findChild_missing h)]
    rcases getNodeByName_cases howns hhandle hops h with
      ⟨_, moved, hload⟩ | ⟨hfound, _⟩
    · have hadd := addNull_same (s := { s with lookups := s.lookups + 1 }.setPosition
        (s.fatRoot dir).handle moved) hchild hnext
      rw [hload, ok_bind]
      dsimp only
      rw [hadd]
      exact ⟨_, rfl, rfl, rfl, fun p hp => Function.update_of_ne hp ..⟩
    · exact absurd hfound hnone
  · refine ⟨s, ?_, rfl, rfl, fun _ _ => rfl⟩
    unfold directoryFindNode
    dsimp only
    rw [hhandle, hmay, if_neg Bool.noConfusion, findChild_missing h, ok_bind,
      if_neg fun h => hops h.2]
    rfl

/-- A lookup that finds neither a child nor an entry leaves everything as it is,
exactly when no file system takes part in it or there is nothing to lose. -/
theorem failed_lookup_iff (howns : exists live, Owns s.fs.heap live)
    (hmay : mayRead (s.fs.handle handle) = true)
    (hhandle : (s.fs.handle handle).node = dir)
    (h : MissingName s dir name children) :
    CleanMiss s handle name <-> NothingToLose s dir name := by
  constructor
  · rintro ⟨t, hrun, hsame⟩ hops
    rw [find_in_fat hmay hhandle hops (findChild_missing h)] at hrun
    rcases ok_bind_iff.mp hrun with ⟨⟨q, u⟩, hq, hrun⟩
    rcases ok_bind_iff.mp hrun with ⟨v, hv, hrun⟩
    dsimp only at hv hrun
    rcases getNodeByName_cases howns hhandle hops h with
      ⟨hnone, moved, hload⟩ | ⟨_, hload⟩
    · rw [hload] at hq
      cases hq
      cases hrun
      rcases (addNull_moved_iff moved).mp ⟨_, hv, hsame⟩ with ⟨hchild, hnext⟩
      exact ⟨hchild, hnext, hnone⟩
    · have hne := hload q u hq
      rw [if_pos hne] at hrun
      cases hrun
      exact absurd rfl hne
  · intro hnothing
    rcases nothingToLose_lookup howns hmay hhandle h hnothing with ⟨t, hrun, hsame, _⟩
    exact ⟨t, hrun, hsame⟩

end Lookup

/-!
# Paths to what is missing
-/

def partString (s : PathState) (path : List Byte) (n : Nat) : Bytes :=
  match vfsStartResolve s path with
  | .ok (resolution, t) =>
      stringAt t.mem (offsetFrom (t.resolution resolution).path n)
  | .error _ => fun _ => 0

/-- The parts lead through directories in memory to the one that a volume has
been mounted on. -/
inductive Leads (s : PathState) (children : Word -> List Word) (mount : Word) :
    Word -> List (List Byte) -> Prop where
  | mount : Leads s children mount mount []
  | child {node q : Word} {part : List Byte} {rest : List (List Byte)} :
      isDirectory s.toVfsState node = true ->
      MemoryDirectory s.toVfsState children node ->
      namedChild s.toVfsState children node part = some q ->
      Leads s children mount q rest -> Leads s children mount node (part :: rest)

structure MissingOnVolume (s : PathState) (children : Word -> List Word)
    (mount : Word) (front part : List Byte) (loaded : List Word)
    (path : List Byte) : Prop where
  behind : exists before tail, front = before ++ [slash] ∧ path = front ++ tail ∧
    FirstPart part tail
  nonempty : part ≠ []
  leads : Leads s children mount s.vfsRoot (laterComponents front)
  nonzero : mount ≠ 0
  directory : isDirectory s.toVfsState mount = true
  volume : NotFree s.fs.heap (s.fatRoot (openTarget s.fs mount)).handle
  missing : MissingName s.toVfsState (openTarget s.fs mount)
    (partString s path front.length) loaded

section Paths

variable {s t : PathState} {children : Word -> List Word} {heap : Heap} {mem : Mem}
  {copy last resolution mount dir : Word} {front part rest path : List Byte}
  {loaded : List Word} {name : Bytes}

theorem lookupWanted_kept (h : VolumesKept heap s t) (name : Bytes) :
    lookupWanted t.toVfsState name = lookupWanted s.toVfsState name := by
  unfold lookupWanted
  rw [h.stack, h.lookups]

theorem mountedGeometry_kept (h : VolumesKept heap s t) (dir : Word) :
    t.mountedGeometry dir = s.mountedGeometry dir := by
  unfold VfsState.mountedGeometry
  rw [h.fatRoot]

theorem mountedImage_kept (h : VolumesKept heap s t)
    (hvolume : NotFree heap (s.fatRoot dir).handle) :
    t.mountedImage dir = s.mountedImage dir := by
  unfold VfsState.mountedImage
  rw [h.fatRoot, h.content, h.handle _ hvolume]

theorem MissingName.kept (h : MissingName s.toVfsState dir name loaded)
    (hsame : SameShape s.fs t.fs) (hkept : VolumesKept heap s t)
    (hvolume : NotFree heap (s.fatRoot dir).handle) :
    MissingName t.toVfsState dir name loaded where
  path := by
    unfold ChildPath
    rw [hsame.child]
    exact h.path.congr fun q _ => hsame.next q
  spelled := by
    intro p hp
    rw [hsame.name]
    exact h.spelled p hp
  parsed := by
    rw [hsame.ops, mountedGeometry_kept hkept]
    exact h.parsed
  entries := by
    rw [hsame.ops, mountedGeometry_kept hkept, mountedImage_kept hkept hvolume,
      lookupWanted_kept hkept]
    exact h.entries

theorem NothingToLose.kept (h : NothingToLose s.toVfsState dir name)
    (hsame : SameShape s.fs t.fs) (hkept : VolumesKept heap s t)
    (hvolume : NotFree heap (s.fatRoot dir).handle) :
    NothingToLose t.toVfsState dir name := by
  unfold NothingToLose
  rw [hsame.ops, hsame.child, hsame.next, mountedGeometry_kept hkept,
    mountedImage_kept hkept hvolume, lookupWanted_kept hkept]
  exact h

theorem opened_lookup {u : PathState} {p : Word}
    (howns : exists live, Owns u.fs.heap live)
    (hhandle : u.fs.handle p = ⟨directoryFlag ||| handleRead, dir, init64 0 0 0 0⟩)
    (hshape : SameShape s.fs u.fs) (hkept : VolumesKept heap s u)
    (hvolume : NotFree heap (s.fatRoot dir).handle)
    (hmissing : MissingName s.toVfsState dir name loaded)
    (hnothing : NothingToLose s.toVfsState dir name) :
    exists v, u.directoryFindNode p name = .ok (0, { u with toVfsState := v }) ∧
      v.fs.node = u.fs.node ∧ v.fs.heap = u.fs.heap ∧
      forall q, q ≠ (s.fatRoot dir).handle -> v.fs.handle q = u.fs.handle q := by
  have hmay : mayRead (u.fs.handle p) = true := by
    rw [hhandle]
    exact mayRead_opened _ _
  have hto : (u.fs.handle p).node = dir := by
    rw [hhandle]
  rcases nothingToLose_lookup howns hmay hto (hmissing.kept hshape hkept hvolume)
    (hnothing.kept hshape hkept hvolume) with ⟨v, hfind, hnodes, hheap, hothers⟩
  rw [hkept.fatRoot] at hothers
  refine ⟨v, ?_, hnodes, hheap, hothers⟩
  unfold PathState.directoryFindNode
  rw [hfind]
  rfl

theorem mount_turn (hheap : HeapInv heap) (hpool : 0 < heap.poolStart.toNat)
    (ht : AtRest s heap mem copy last resolution rest t)
    (hkept : VolumesKept heap s t)
    (hnode : (t.resolution resolution).currentNode = mount) (hnonzero : mount ≠ 0)
    (hdir : isDirectory s.toVfsState mount = true)
    (hvolume : NotFree heap (s.fatRoot (openTarget s.fs mount)).handle)
    (hpart : FirstPart part rest) (hne : part ≠ [])
    (hname : stringAt t.mem (t.resolution resolution).currentPart = name)
    (hmissing : MissingName s.toVfsState (openTarget s.fs mount) name loaded)
    (hnothing : NothingToLose s.toVfsState (openTarget s.fs mount) name) :
    HandleFails heap ∧ vfsRetryResolution t resolution = panic .outOfMem ∨
      exists u, vfsRetryResolution t resolution = .ok (.notFound, u) ∧
        u.fs.heap = heap ∧ u.resolution = t.resolution := by
  have hchar := byte_of_part ht.laid ht.chars hpart
  have hflags : asks (t.fs.node mount).flags directoryFlag = true := by
    rw [ht.nodes.flags]
    exact hdir
  unfold vfsRetryResolution
  dsimp only
  rw [hnode, if_neg fun h => hne (hchar.mp h), hflags, if_pos rfl]
  by_cases hwriters : (s.fs.node mount).writers = 0
  · rcases directory_opened hheap hpool ht.toOnTheWay hnonzero hwriters hdir with
      ⟨hfails, hpanic⟩ | ⟨b, hb, hfree, hp, hopen⟩
    · left
      rw [hpanic]
      exact ⟨hfails, rfl⟩
    · right
      rw [hopen, ok_bind]
      dsimp only
      rw [if_pos hp, hname]
      have hhandle := openedFor_handle t.fs heap b (openTarget s.fs mount)
      have hshape := openedFor_sameShape ht.toOnTheWay b (openTarget s.fs mount)
      have hopened := hkept.opened hb hfree (openTarget s.fs mount)
      have howns : exists live,
          Owns (openedFor t.fs heap b (openTarget s.fs mount)).heap live :=
        ⟨[], owns_none (take_inv hheap hb hfree) hpool⟩
      rcases opened_lookup howns hhandle hshape hopened hvolume hmissing hnothing with
        ⟨v, hfind, hnodes, hvheap, hothers⟩
      have hsame : SameNodes (openedFor t.fs heap b (openTarget s.fs mount)) v.fs :=
        ⟨⟨fun q => by rw [hnodes]⟩, fun q => by rw [hnodes], fun q => by rw [hnodes]⟩
      have hother := hothers (heap.address b) fun heq => hvolume b hb hfree heq.symm
      rcases directory_closed (s := t) (v := { t with toVfsState := v }) hheap hb hfree
        hsame hvheap (hother.trans hhandle) with ⟨fs', hclose, hheap', _, _⟩
      rw [hfind, ok_bind]
      dsimp only
      rw [hclose, ok_bind, if_pos rfl]
      exact ⟨_, rfl, hheap', rfl⟩
  · rw [directory_busy ht.toOnTheWay hwriters, ok_bind, if_neg fun h => h rfl]
    exact Or.inr ⟨t, rfl, ht.heap, rfl⟩

/-- A resolution on its way to the volume, or one that has not found a part. -/
def TowardsVolume (s : PathState) (children : Word -> List Word) (mount : Word)
    (heap : Heap) (mem : Mem) (copy last resolution : Word) (tail : List Byte) :
    ResolutionStatus × PathState -> Prop
  | (.ok, t) => exists before,
      AtRest s heap mem copy last resolution (before ++ slash :: tail) t ∧
        VolumesKept heap s t ∧
        Leads s children mount (t.resolution resolution).currentNode
          (laterComponents (before ++ [slash]))
  | (.notFound, t) => t.fs.heap = heap ∧ (t.resolution resolution).path = copy
  | _ => False

theorem behind_separator (before : List Byte) : exists part rest, slash ∉ part ∧
    before ++ [slash] = part ++ slash :: rest ∧
      (rest = [] ∨ exists before', rest = before' ++ [slash]) := by
  rcases exists_firstPart before with ⟨part, hpart, rfl | ⟨rest, rfl⟩⟩
  · exact ⟨before, [], hpart, rfl, Or.inl rfl⟩
  · refine ⟨part, rest ++ [slash], hpart, ?_, Or.inr ⟨rest, rfl⟩⟩
    rw [List.append_assoc, List.cons_append]

theorem leads_turn (hheap : HeapInv heap) (hpool : 0 < heap.poolStart.toNat)
    {before tail : List Byte}
    (ht : AtRest s heap mem copy last resolution (before ++ slash :: tail) t)
    (hkept : VolumesKept heap s t)
    (hleads : Leads s children mount (t.resolution resolution).currentNode
      (components (before ++ [slash]))) :
    HandleFails heap ∧ vfsRetryResolution t resolution = panic .outOfMem ∨
      exists x, vfsRetryResolution t resolution = .ok x ∧
        TowardsVolume s children mount heap mem copy last resolution tail x ∧
        (x.2.resolution resolution).currentPart =
          (t.resolution resolution).currentPart := by
  rcases behind_separator before with ⟨part, rest, hslash, hbefore, _⟩
  have hfirst : FirstPart part (before ++ [slash]) := ⟨hslash, Or.inr ⟨rest, hbefore⟩⟩
  have hpart : FirstPart part (before ++ slash :: tail) := by
    refine ⟨hslash, Or.inr ⟨rest ++ tail, ?_⟩⟩
    rw [List.append_cons, hbefore, List.append_assoc, List.cons_append]
  have hcomponents : part ≠ [] -> components (before ++ [slash]) =
      part :: laterComponents (before ++ [slash]) := by
    intro hne
    cases part with
    | nil => exact absurd rfl hne
    | cons c part => exact components_part hfirst
  have hdirectory : part ≠ [] -> MemoryDirectory s.toVfsState children
      (t.resolution resolution).currentNode := by
    intro hne
    rw [hcomponents hne] at hleads
    cases hleads with
    | child _ hdirectory _ _ => exact hdirectory
  rcases retry_part hheap hpool ht rfl hpart
    (fun hne _ _ => (hdirectory hne).searched (hpart.zero_not_mem ht.chars)) with
    hfails | ⟨status, u, hrun, hrest, hvolumes, hcursor, hturn⟩
  · exact Or.inl hfails
  · refine Or.inr ⟨(status, u), hrun, ?_, hcursor⟩
    have hu := hkept.trans hvolumes
    generalize (t.resolution resolution).currentNode = node at hleads hturn hdirectory
    generalize hnode' : (u.resolution resolution).currentNode = node' at hturn
    cases hturn with
    | empty =>
        rw [components_nil hfirst] at hleads
        subst hnode'
        exact ⟨before, hrest, hu, hleads⟩
    | file hne hdir =>
        rw [hcomponents hne] at hleads
        cases hleads with
        | child hdir' _ _ _ =>
            rw [hdir] at hdir'
            cases hdir'
    | busy => exact ⟨hrest.heap, hrest.path⟩
    | missing => exact ⟨hrest.heap, hrest.path⟩
    | found hne hdir _ hfound =>
        rw [hcomponents hne] at hleads
        cases hleads with
        | child _ _ hfound' hleads =>
            rw [hfound', Option.getD_some] at hnode'
            subst hnode'
            exact ⟨before, hrest, hu, hleads⟩

theorem towards_turn (hheap : HeapInv heap) (hpool : 0 < heap.poolStart.toNat)
    {tail : List Byte}
    (hnonzero : mount ≠ 0) (hdir : isDirectory s.toVfsState mount = true)
    (hvolume : NotFree heap (s.fatRoot (openTarget s.fs mount)).handle)
    (hpart : FirstPart part tail) (hne : part ≠ [])
    (hname : forall p : Word, p.toNat + tail.length = last.toNat ->
      stringAt mem p = name)
    (hmissing : MissingName s.toVfsState (openTarget s.fs mount) name loaded)
    (hnothing : NothingToLose s.toVfsState (openTarget s.fs mount) name)
    (ht : TowardsVolume s children mount heap mem copy last resolution tail (.ok, t)) :
    HandleFails heap ∧ vfsAdvanceResolution t resolution = panic .outOfMem ∨
      exists x, vfsAdvanceResolution t resolution = .ok x ∧
        TowardsVolume s children mount heap mem copy last resolution tail x ∧
        (x.1 = .ok -> (t.resolution resolution).currentPart.toNat <
          (x.2.resolution resolution).currentPart.toNat) := by
  rcases ht with ⟨before, hrest, hkept, hleads⟩
  rcases behind_separator before with ⟨first, rest, hslash, hbefore, hends⟩
  have hwhole : before ++ slash :: tail = first ++ slash :: (rest ++ tail) := by
    rw [List.append_cons, hbefore, List.append_assoc, List.cons_append]
  have hfirst : FirstPart first (before ++ slash :: tail) :=
    ⟨hslash, Or.inr ⟨_, hwhole⟩⟩
  rcases advance_part hrest hfirst with
    ⟨hlast, _⟩ | ⟨rest', u, hbehind, hrun, hmoved, hvolumes, hsame⟩
  · exfalso
    apply hslash
    rw [← hlast]
    exact List.mem_append_right _ List.mem_cons_self
  · have hrest' : rest' = rest ++ tail := by
      rw [hwhole] at hbehind
      exact (List.cons.inj (List.append_cancel_left hbehind)).2.symm
    subst hrest'
    have hu := hkept.trans hvolumes
    have hless : (t.resolution resolution).currentPart.toNat <
        (u.resolution resolution).currentPart.toNat := by
      have hfrom := hrest.cursor
      have hto := hmoved.cursor
      rw [hwhole, List.length_append, List.length_cons] at hfrom
      omega
    rw [hbefore, laterComponents_behind hslash, ← hsame] at hleads
    rw [hrun]
    rcases hends with rfl | ⟨before', rfl⟩
    · have hat : (u.resolution resolution).currentNode = mount := by
        cases hleads
        rfl
      rw [List.nil_append] at hmoved
      have hstring : stringAt u.mem (u.resolution resolution).currentPart = name := by
        rw [hmoved.mem]
        exact hname _ hmoved.cursor
      rcases mount_turn hheap hpool hmoved hu hat hnonzero hdir hvolume hpart hne
        hstring hmissing hnothing with hfails | ⟨v, hv, hvheap, hres⟩
      · exact Or.inl hfails
      · refine Or.inr ⟨(.notFound, v), hv, ⟨hvheap, ?_⟩, nofun⟩
        rw [hres]
        exact hmoved.path
    · rw [← List.append_cons] at hmoved
      rcases leads_turn hheap hpool hmoved hu hleads with hfails | ⟨x, hx, hdone, hcursor⟩
      · exact Or.inl hfails
      · refine Or.inr ⟨x, hx, hdone, fun _ => ?_⟩
        rw [hcursor]
        exact hless

/-- The path is searched to the volume, and what is missing there is not found,
unless the kernel runs out of memory on the way. -/
theorem vfsGetNodeForPath_missing (hheap : HeapInv s.fs.heap)
    (hpool : 0 < s.fs.heap.poolStart.toNat) (h0 : 0 ∉ path) (hlen : path.length < 4096)
    (h : MissingOnVolume s children mount front part loaded path)
    (hnothing : NothingToLose s.toVfsState (openTarget s.fs mount)
      (partString s path front.length)) :
    LacksMemory s path ∧ vfsGetNodeForPath s path = panic .outOfMem ∨
      exists t, vfsGetNodeForPath s path = .ok (0, t) := by
  have hmissing := h.missing
  rcases h.behind with ⟨before, tail, rfl, rfl, hpart⟩
  rw [← List.append_cons] at *
  unfold vfsGetNodeForPath
  rcases vfsStartResolve_started hheap hpool h0 (shortPath_fits hlen) with
    ⟨hlacks, hpanic⟩ | ⟨resolution, t, b, c, hrun, ht, hlacks⟩
  · rw [hpanic]
    exact Or.inl ⟨hlacks, rfl⟩
  · have hpool' : 0 < t.fs.heap.poolStart.toNat := by
      rw [ht.heap]
      exact hpool
    have hfree : NotFree t.fs.heap (s.fatRoot (openTarget s.fs mount)).handle := by
      rw [ht.heap]
      exact h.volume.take.take
    have hname : forall p : Word, p.toNat + tail.length =
        (offsetFrom (s.fs.heap.address c)
          (before ++ slash :: tail).length).toNat ->
        stringAt t.mem p = partString s (before ++ slash :: tail)
          (before ++ [slash]).length := by
      intro p hp
      have hfrom := ht.laid.length
      rw [← hp, List.append_cons, List.length_append] at hfrom
      have hplace : p = offsetFrom (s.fs.heap.address c)
          (before ++ [slash]).length := by
        apply BitVec.eq_of_toNat_eq
        have hlt := p.isLt
        unfold offsetFrom
        rw [BitVec.toNat_add, BitVec.toNat_ofNat]
        omega
      unfold partString
      rw [hrun]
      dsimp only
      rw [ht.path, hplace]
    have htowards : TowardsVolume s children mount t.fs.heap t.mem
        (s.fs.heap.address c)
        (offsetFrom (s.fs.heap.address c) (before ++ slash :: tail).length)
        resolution tail (.ok, t) := by
      refine ⟨before, ⟨⟨rfl, rfl, ht.root, ht.nodes⟩, ht.path, ht.ends, ?_, h0⟩,
        ht.volumes _, ?_⟩
      · rw [ht.begins]
        exact ht.laid
      · rw [ht.node]
        exact h.leads
    have hbegins : 0 < (t.resolution resolution).currentPart.toNat := by
      have hnat := address_toNat hheap ht.inSecond
      rw [ht.begins]
      omega
    have hcursor : forall u, TowardsVolume s children mount t.fs.heap t.mem
        (s.fs.heap.address c)
        (offsetFrom (s.fs.heap.address c) (before ++ slash :: tail).length)
        resolution tail (.ok, u) ->
        (u.resolution resolution).currentPart.toNat ≤
          (offsetFrom (s.fs.heap.address c)
            (before ++ slash :: tail).length).toNat := by
      rintro u ⟨before', hrest, _⟩
      exact hrest.laid.le
    rw [hrun, ok_bind]
    dsimp only
    rcases resolvePath_outcome _ hcursor
      (fun u hu => towards_turn (ht.inv hheap) hpool' h.nonzero h.directory hfree hpart
        h.nonempty hname hmissing hnothing hu) htowards hbegins with
      ⟨hfails, hpanic⟩ | ⟨⟨status, u⟩, hu, hstatus, htells⟩
    · rw [hpanic]
      exact Or.inl ⟨hlacks hfails, rfl⟩
    · right
      cases status with
      | ok => exact absurd rfl hstatus
      | ended => exact htells.elim
      | isFile => exact htells.elim
      | notFound =>
          rcases htells with ⟨huheap, hpath⟩
          rw [hu, ok_bind]
          dsimp only
          rw [vfsFreePathResolution_freed hheap ht huheap (hpath.trans ht.path.symm)]
          exact ⟨_, rfl⟩

end Paths

/-- A failed lookup is clean exactly when there is nothing to lose: no file system
takes part in it, or the directory has no loaded child, the null node is on no
list, and the entry right behind the directory has another name.  Then a path to
what is missing on a mounted volume leads to no node. -/
theorem failed_lookups_clean_iff (s : PathState) (hheap : HeapInv s.fs.heap)
    (hpool : 0 < s.fs.heap.poolStart.toNat) :
    (forall handle dir name children, mayRead (s.fs.handle handle) = true ->
      (s.fs.handle handle).node = dir ->
      MissingName s.toVfsState dir name children ->
      (CleanMiss s.toVfsState handle name <->
        NothingToLose s.toVfsState dir name)) ∧
    forall children mount front part loaded path, 0 ∉ path -> path.length < 4096 ->
      MissingOnVolume s children mount front part loaded path ->
      NothingToLose s.toVfsState (openTarget s.fs mount)
        (partString s path front.length) ->
      LacksMemory s path ∧ vfsGetNodeForPath s path = panic .outOfMem ∨
        exists t, vfsGetNodeForPath s path = .ok (0, t) := by
  constructor
  · intro handle dir name children hmay hhandle hmissing
    exact failed_lookup_iff ⟨[], owns_none hheap hpool⟩ hmay hhandle hmissing
  · intro children mount front part loaded path h0 hlen hmissing hnothing
    exact vfsGetNodeForPath_missing hheap hpool h0 hlen hmissing hnothing

/-!
# A child that is lost
-/

/-- The root at 8 with a directory at 12 that an empty volume has been mounted on:
the directory at 16 has the child that is given. -/
def emptyVolumeAt16 (child : Word) : PathState :=
  { smallPaths with
    fs := { smallPaths.fs with
      node := fun p =>
        if p = 16 then { plainNode [] directoryFlag child 0 with ops := .fatRoot }
        else smallPaths.fs.node p
      handle := fun _ => ⟨directoryFlag ||| handleRead, 16, init64 0 0 0 0⟩ }
    fatRoot := fun _ => ⟨bootRoot, 4⟩ }

def missingString : Bytes :=
  fun i => if i = 0 then 0x63 else 0

def missingPath : List Byte :=
  [0x2f, 0x61, 0x2f, 0x63]

theorem zeros_end (k : Nat) : (slot (fun _ => 0) bootRoot k).Ends := by
  constructor
  · change (0 : Byte) &&& flagVolume = 0
    rfl
  · rfl

theorem emptyVolume_entries (k : Nat) : ¬ LiveEntry (fun _ => 0) bootRoot k := by
  intro h
  exact h.live.2.2 (zeros_end k).2

theorem emptyVolume_behind (wanted : Bytes -> Bool) :
    ¬ FoundBehind (fun _ => 0) bootRoot wanted := by
  rintro ⟨k, _, hend, hbefore, _⟩
  cases k with
  | zero => exact absurd hend (by decide)
  | succ k => exact hbefore 0 (Nat.succ_pos k) (zeros_end 0)

theorem emptyVolume_missing {child : Word} {name : Bytes} {children : List Word}
    (hpath : ChildPath (emptyVolumeAt16 child).toVfsState 16 children)
    (hspelled : forall p, p ∈ children ->
      sameString ((emptyVolumeAt16 child).fs.node p).name name = false) :
    MissingName (emptyVolumeAt16 child).toVfsState 16 name children where
  path := hpath
  spelled := hspelled
  parsed := fun _ => ⟨bootParameters, rfl⟩
  entries := fun _ k hk => absurd hk (emptyVolume_entries k)

theorem emptyVolume_nothing (name : Bytes) :
    NothingToLose (emptyVolumeAt16 0).toVfsState 16 name :=
  fun _ => ⟨rfl, rfl, emptyVolume_behind _⟩

theorem emptyVolume_leads :
    Leads (emptyVolumeAt16 0) (fun p => if p = 8 then [12] else []) 12 8
      (laterComponents [0x2f, 0x61, 0x2f]) := by
  refine Leads.child (q := 12) rfl ?_ rfl Leads.mount
  refine ⟨by decide, nofun, NextPath.node (by decide) NextPath.done, ?_⟩
  intro q hq
  rcases List.mem_singleton.mp hq with rfl
  decide

theorem emptyVolume_path :
    MissingOnVolume (emptyVolumeAt16 0) (fun p => if p = 8 then [12] else []) 12
      [0x2f, 0x61, 0x2f] [0x63] [] missingPath where
  behind := ⟨[0x2f, 0x61], [0x63], rfl, rfl, by decide, Or.inl rfl⟩
  nonempty := List.cons_ne_nil _ _
  leads := emptyVolume_leads
  nonzero := by decide
  directory := rfl
  volume := smallHeap_notFree (by decide)
  missing := emptyVolume_missing NextPath.done fun p hp => absurd hp List.not_mem_nil

/-- A lookup in an empty directory and a path to what is missing there. -/
theorem failed_lookups_empty :
    CleanMiss (emptyVolumeAt16 0).toVfsState 4 missingString ∧
      exists t, vfsGetNodeForPath (emptyVolumeAt16 0) missingPath = .ok (0, t) := by
  have hruns : (vfsGetNodeForPath (emptyVolumeAt16 0) missingPath).toOption.isSome =
      true := by
    decide +kernel
  have hboth := failed_lookups_clean_iff (emptyVolumeAt16 0) smallBoot_boot.heap
    smallBoot_boot.pool_pos
  refine ⟨(hboth.1 4 16 missingString [] rfl rfl
    (emptyVolume_missing NextPath.done fun p hp => absurd hp List.not_mem_nil)).mpr
      (emptyVolume_nothing _), ?_⟩
  rcases hboth.2 _ _ _ _ _ _ (by decide) (by decide) emptyVolume_path
    (emptyVolume_nothing _) with ⟨_, hpanic⟩ | hfound
  · rw [hpanic] at hruns
    cases hruns
  · exact hfound

def lookedUpTwice (s : VfsState) (name : Bytes) :
    Result (Word × Word × Word × Result Unit) :=
  directoryFindNode s 4 name >>= fun r =>
    .ok (r.1, (r.2.fs.node 16).child, (r.2.fs.node 0).next,
      directoryFindNode r.2 4 name >>= fun _ => .ok ())

/-- The child at 20 is lost to its directory and hangs on the null node, and the
next lookup that fails panics. -/
theorem failed_lookup_loses_child :
    MissingName (emptyVolumeAt16 20).toVfsState 16 missingString [20] ∧
      ¬ CleanMiss (emptyVolumeAt16 20).toVfsState 4 missingString ∧
      exists t, directoryFindNode (emptyVolumeAt16 20).toVfsState 4 missingString =
          .ok (0, t) ∧
        (t.fs.node 16).child = 0 ∧ (t.fs.node 0).next = 20 ∧
        directoryFindNode t 4 missingString = panic .addingNodeToTwoDirs := by
  have hruns : lookedUpTwice (emptyVolumeAt16 20).toVfsState missingString =
      .ok (0, 0, 20, panic .addingNodeToTwoDirs) := by
    rfl
  unfold lookedUpTwice at hruns
  rcases ok_bind_iff.mp hruns with ⟨⟨p, t⟩, hrun, hleft⟩
  simp only [Except.ok.injEq, Prod.mk.injEq] at hleft
  rcases hleft with ⟨rfl, hchild, hnext, hagain⟩
  refine ⟨emptyVolume_missing (NextPath.node (by decide) NextPath.done) ?_, ?_,
    t, hrun, hchild, hnext, ?_⟩
  · intro p hp
    rcases List.mem_singleton.mp hp with rfl
    decide
  · rintro ⟨u, hu, hsame⟩
    rw [hrun] at hu
    cases hu
    rw [hsame] at hchild
    cases hchild
  · cases htwice : directoryFindNode t 4 missingString with
    | error e =>
        rw [htwice] at hagain
        cases hagain
        rfl
    | ok r =>
        rw [htwice] at hagain
        cases hagain

end Fs
end Rmmtos
