import Rmmtos.Fs.FatNodes
import Rmmtos.Fs.PathWalks

/-!
# Paths that ask a volume

Where a walk stops, the volume of the directory is searched for the part.  What the
path leads to then is a new node for the entry that is found, or nothing.  A name
with a full extension is searched for by its characters alone, so that the answer
depends on the tree and on the volume, and not on the memory behind the copy of the
path.
-/

namespace Rmmtos
namespace Fs

open Library Zones Kernel

def partScan (s : VfsState) (dir : Word) (part : List Byte) : Result Scan :=
  scanEntries (s.fatRoot dir).geometry
    (fun raw => sameFatName raw (nameToFat (inMemory part) fun _ => 0))
    (s.volume (s.fatRoot dir).handle) (s.fatRoot dir).geometry.rootBegin

/-- A volume is searched for a part, and the search ends.  The null node goes on the
list of the directory where it finds nothing. -/
structure Asked (s : VfsState) (node : Word) (part : List Byte) (x : Scan) :
    Prop where
  nonzero : node ≠ 0
  missing : findChild s (inMemory part) (s.fs.node (openTarget s.fs node)).child = .ok 0
  volume : (s.fs.node (openTarget s.fs node)).ops = .fatRoot
  search : partScan s (openTarget s.fs node) part = .ok x
  null : x.entry = none -> (s.fs.node 0).next = 0

theorem Asked.unique {s : VfsState} {node : Word} {part : List Byte} {x y : Scan}
    (hx : Asked s node part x) (hy : Asked s node part y) : x = y := by
  have hsame := hx.search.symm.trans hy.search
  cases hsame
  rfl

/-!
# Lookups on a volume
-/

structure LoadedNode (live : List Word) (dir : Word) (x : Scan) (q : Word)
    (t : VfsState) : Prop where
  owns : Owns t.fs.heap (q :: live)
  root : (t.fatFile q).root = dir
  position : (t.fatFile q).entryPosition = x.position
  isFile : asks (t.fs.node q).flags directoryFlag = false

inductive Answered (live : List Word) (dir : Word) (x : Scan) :
    Word -> VfsState -> Prop where
  | missed {t : VfsState} : x.entry = none -> Owns t.fs.heap live ->
      Answered live dir x 0 t
  | loaded {q : Word} {t : VfsState} : x.entry ≠ none -> LoadedNode live dir x q t ->
      Answered live dir x q t

section Lookup

variable {s : VfsState} {live : List Word} {handle dir : Word} {name : Bytes}

end Lookup

/-- The handle of the lookup is closed, whatever it has answered. -/
theorem Answered.closed {v : PathState} {live : List Word} {dir p q : Word} {x : Scan}
    (h : Answered (p :: live) dir x q v.toVfsState) :
    exists w, v.directoryClose p = .ok w ∧ Answered live dir x q w.toVfsState := by
  have hclose : forall {live' : List Word}, Owns v.fs.heap live' -> p ∈ live' ->
      exists fs, v.directoryClose p = .ok { v with fs := fs } ∧
        Owns fs.heap (live'.erase p) ∧
        forall q, (fs.node q).flags = (v.fs.node q).flags := by
    intro live' howns hp
    rcases howns.free hp with ⟨heap, hfree, hleft⟩
    refine ⟨{ uncountHandle v.fs p with heap := heap }, ?_, hleft, fun q => ?_⟩
    · change (Kernel.free v.fs.heap p >>= fun h => .ok
        { uncountHandle v.fs p with heap := h }) >>= _ = _
      rw [hfree]
      rfl
    · have hshape := congrArg Node.flags (uncountHandle_shape (s := v.fs) (p := p) q)
      exact hshape
  cases h with
  | missed hnone howns =>
      rcases hclose howns List.mem_cons_self with ⟨fs, hrun, hleft, _⟩
      rw [List.erase_cons_head] at hleft
      exact ⟨_, hrun, .missed hnone hleft⟩
  | loaded hsome hnode =>
      have hqp : q ≠ p := by
        intro heq
        have hnodup := hnode.owns.nodup
        rw [heq] at hnodup
        exact (List.nodup_cons.mp hnodup).1 List.mem_cons_self
      rcases hclose hnode.owns (List.mem_cons_of_mem q List.mem_cons_self) with
        ⟨fs, hrun, hleft, hflags⟩
      rw [List.erase_cons_tail (by simpa using hqp), List.erase_cons_head] at hleft
      refine ⟨_, hrun, .loaded hsome ⟨hleft, hnode.root, hnode.position, ?_⟩⟩
      dsimp only
      rw [hflags]
      exact hnode.isFile

/-!
# The turn that a walk stops at
-/

section Stop

variable {s t u : PathState} {nodes : Set Word} {heap : Heap} {mem : Mem}
  {copy last resolution node p : Word} {part rest : List Byte} {live : List Word}
  {name : Bytes}

end Stop

/-- What is left of a resolution behind the stop, with the components that the part
is followed by: the search found nothing, or the resolution is on a file. -/
def Beyond (live : List Word) (dir : Word) (x : Scan) (names : List (List Byte))
    (last resolution : Word) (copy : Word) : ResolutionStatus × PathState -> Prop
  | (.notFound, u) => x.entry = none ∧ Owns u.fs.heap live ∧
      (u.resolution resolution).path = copy
  | (status, u) => x.entry ≠ none ∧ (u.resolution resolution).path = copy ∧
      LoadedNode live dir x (u.resolution resolution).currentNode u.toVfsState ∧
      match status with
      | .ok => exists rest, names = laterComponents rest ∧ 0 ∉ rest ∧
          Laid u.mem (u.resolution resolution).currentPart last rest ∧
          (u.resolution resolution).endPart = last
      | .ended => names = []
      | _ => names ≠ []

section Turns

variable {s t : PathState} {nodes : Set Word} {heap : Heap} {mem : Mem}
  {copy last resolution node : Word} {part rest : List Byte} {live : List Word}

theorem retry_file (hlaid : Laid t.mem (t.resolution resolution).currentPart last rest)
    (h0 : 0 ∉ rest)
    (hfile : asks (t.fs.node (t.resolution resolution).currentNode).flags
      directoryFlag = false) :
    components rest = laterComponents rest ∧
        vfsRetryResolution t resolution = .ok (.ok, t) ∨
      components rest ≠ [] ∧ vfsRetryResolution t resolution = .ok (.isFile, t) := by
  rcases exists_firstPart rest with ⟨part, hpart⟩
  have hchar := byte_of_part hlaid h0 hpart
  unfold vfsRetryResolution
  dsimp only
  rw [hfile, if_neg Bool.false_ne_true]
  cases part with
  | nil =>
      rw [if_pos (hchar.mpr rfl)]
      exact Or.inl ⟨components_nil hpart, rfl⟩
  | cons c part =>
      rw [if_neg fun h => List.cons_ne_nil c part (hchar.mp h), components_part hpart]
      exact Or.inr ⟨List.cons_ne_nil _ _, rfl⟩

/-- The turns behind the stop lead to the end of the path, over separators alone. -/
theorem Beyond.advance {dir : Word} {x : Scan} {names : List (List Byte)}
    (ht : Beyond live dir x names last resolution copy (.ok, t)) :
    exists y, vfsAdvanceResolution t resolution = .ok y ∧
      Beyond live dir x names last resolution copy y ∧
      (y.1 = .ok -> (t.resolution resolution).currentPart.toNat <
        (y.2.resolution resolution).currentPart.toNat) := by
  rcases ht with ⟨hsome, hpath, hnode, rest, hnames, h0, hlaid, hend⟩
  rcases exists_firstPart rest with ⟨part, hpart⟩
  rcases skipPart_laid hlaid hpart h0 with ⟨r, hskip, hends⟩
  unfold vfsAdvanceResolution
  rw [hskip, ok_bind]
  dsimp only
  rw [setCurrentPart_resolution]
  dsimp only
  rw [hend]
  rcases hends with ⟨hlast, hrest⟩ | ⟨hne, rest', hrest, hlaid', h0'⟩
  · rw [if_pos hlast]
    rw [hrest, laterComponents_last hpart.1] at hnames
    refine ⟨_, rfl, ⟨hsome, ?_, ?_, hnames⟩, nofun⟩
    · rw [setCurrentPart_resolution]
      exact hpath
    · rw [setCurrentPart_resolution]
      exact hnode
  · rw [if_neg hne, setCurrentPart_again]
    rw [hrest, laterComponents_behind hpart.1] at hnames
    generalize hu : t.setCurrentPart resolution (r + 1) = u
    have hres : u.resolution resolution =
        { t.resolution resolution with currentPart := r + 1 } := by
      rw [← hu]
      exact setCurrentPart_resolution t resolution (r + 1)
    have hlaidU : Laid u.mem (u.resolution resolution).currentPart last rest' := by
      rw [hres, ← hu]
      exact hlaid'
    have hnodeU : LoadedNode live dir x (u.resolution resolution).currentNode
        u.toVfsState := by
      rw [hres, ← hu]
      exact hnode
    have hpathU : (u.resolution resolution).path = copy := by
      rw [hres]
      exact hpath
    have hless : (t.resolution resolution).currentPart.toNat <
        (u.resolution resolution).currentPart.toNat := by
      have hfrom := hlaid.length
      have hto := hlaidU.length
      rw [hrest, List.length_append, List.length_cons] at hfrom
      omega
    rcases retry_file hlaidU h0' hnodeU.isFile with ⟨hsame, hrun⟩ | ⟨hmore, hrun⟩
    · refine ⟨_, hrun, ⟨hsome, hpathU, hnodeU, rest', hnames.trans hsame, h0', hlaidU, ?_⟩,
        fun _ => hless⟩
      rw [hres]
      exact hend
    · refine ⟨_, hrun, ⟨hsome, hpathU, hnodeU, ?_⟩, nofun⟩
      rw [← hnames] at hmore
      exact hmore

end Turns

/-!
# What the path leads to
-/

/-- What a search of the volume gives the path that asks for it: the entry that it
finds, or nothing where the path goes on behind it. -/
structure PathAnswer (dir : Word) (x : Scan) (names : List (List Byte)) (q : Word)
    (t : VfsState) : Prop where
  nothing : x.entry = none ∨ names ≠ [] -> q = 0
  entry : x.entry ≠ none -> names = [] -> q ≠ 0 ∧ (t.fatFile q).root = dir ∧
    (t.fatFile q).entryPosition = x.position

section Paths

variable {s t u : PathState} {nodes : Set Word} {path part : List Byte}
  {names : List (List Byte)} {live : List Word} {node copy last resolution dir : Word}
  {x : Scan}

theorem freePathResolution_owned (howns : Owns u.fs.heap live)
    (hpath : (u.resolution resolution).path = copy) (hcopy : copy ∈ live)
    (hres : resolution ∈ live) (hne : resolution ≠ copy) :
    exists t, vfsFreePathResolution u resolution = .ok t ∧ t.fatFile = u.fatFile := by
  rcases howns.free hcopy with ⟨h, hfirst, hleft⟩
  rcases hleft.free ((List.mem_erase_of_ne hne).mpr hres) with ⟨h', hsecond, _⟩
  unfold vfsFreePathResolution PathState.free FsState.free
  rw [hpath, hfirst]
  refine ⟨{ u with fs := { u.fs with heap := h' } }, ?_, rfl⟩
  exact congrArg (fun r : Result Heap => (r >>= fun heap => .ok
    { u.fs with heap := heap }) >>= fun fs => .ok { u with fs := fs }) hsecond

theorem Beyond.ends {status : ResolutionStatus} (hcopy : copy ∈ live)
    (hres : resolution ∈ live) (hne : resolution ≠ copy) (hnot : status ≠ .ok)
    (h : Beyond live dir x names last resolution copy (status, u)) :
    exists t, vfsFreePathResolution u resolution = .ok t ∧
      PathAnswer dir x names
        (if status = .ended then (u.resolution resolution).currentNode else 0)
        t.toVfsState := by
  cases status with
  | ok => exact absurd rfl hnot
  | notFound =>
      rcases h with ⟨hnone, howns, hpath⟩
      rcases freePathResolution_owned howns hpath hcopy hres hne with ⟨t, hfree, _⟩
      exact ⟨t, hfree, fun _ => rfl, fun hsome => absurd hnone hsome⟩
  | isFile =>
      rcases h with ⟨_, hpath, hnode, hmore⟩
      rcases freePathResolution_owned hnode.owns hpath (List.mem_cons_of_mem _ hcopy)
        (List.mem_cons_of_mem _ hres) hne with ⟨t, hfree, _⟩
      exact ⟨t, hfree, fun _ => rfl, fun _ hnil => absurd hnil hmore⟩
  | ended =>
      rcases h with ⟨hsome, hpath, hnode, hnil⟩
      rcases freePathResolution_owned hnode.owns hpath (List.mem_cons_of_mem _ hcopy)
        (List.mem_cons_of_mem _ hres) hne with ⟨t, hfree, hfile⟩
      refine ⟨t, hfree, fun h => ?_, fun _ _ => ?_⟩
      · rcases h with hnone | hmore
        · exact absurd hnone hsome
        · exact absurd hnil hmore
      · rw [if_pos rfl, hfile]
        exact ⟨hnode.owns.ne_zero List.mem_cons_self, hnode.root, hnode.position⟩

theorem ResolutionStarted.owns {b c : Nat} (hheap : HeapInv s.fs.heap)
    (hpool : 0 < s.fs.heap.poolStart.toNat)
    (ht : ResolutionStarted s path resolution t b c) :
    Owns t.fs.heap [s.fs.heap.address c, resolution] := by
  rw [ht.heap, ht.address]
  exact ((owns_none hheap hpool).take ht.inFirst ht.freeFirst).take ht.inSecond
    ht.freeSecond

end Paths

/-!
# The same tree and the same volumes
-/

/-- Two paths lead to nodes of one entry of a directory, or to no node. -/
structure SameEntry (s : VfsState) (q : Word) (t : VfsState) (p : Word) : Prop where
  nothing : p = 0 <-> q = 0
  root : q ≠ 0 -> (t.fatFile p).root = (s.fatFile q).root
  position : q ≠ 0 -> (t.fatFile p).entryPosition = (s.fatFile q).entryPosition

theorem PathAnswer.same {s t : VfsState} {dir q p : Word} {x : Scan}
    {names : List (List Byte)} (hq : PathAnswer dir x names q s)
    (hp : PathAnswer dir x names p t) : SameEntry s q t p := by
  by_cases h : x.entry = none ∨ names ≠ []
  · have hq0 := hq.nothing h
    exact ⟨iff_of_true (hp.nothing h) hq0, fun hne => absurd hq0 hne,
      fun hne => absurd hq0 hne⟩
  · rw [not_or, not_not] at h
    rcases hq.entry h.1 h.2 with ⟨hq0, hroot, hposition⟩
    rcases hp.entry h.1 h.2 with ⟨hp0, hroot', hposition'⟩
    exact ⟨iff_of_false hp0 hq0, fun _ => hroot'.trans hroot.symm,
      fun _ => hposition'.trans hposition.symm⟩

section Same

variable {s t : PathState} {nodes : Set Word} {node : Word} {part path : List Byte}
  {names : List (List Byte)} {x : Scan}

theorem Asked.same (h : Asked s.toVfsState node part x) (hsame : SameNodes s.fs t.fs)
    (hkept : VolumesKept s.fs.heap s t)
    (hvolume : NotFree s.fs.heap (s.fatRoot (openTarget s.fs node)).handle) :
    Asked t.toVfsState node part x where
  nonzero := h.nonzero
  missing := by
    rw [findChild_same hsame.toSameShape, hsame.openTarget, hsame.child]
    exact h.missing
  volume := by
    rw [hsame.openTarget, hsame.ops]
    exact h.volume
  search := by
    have hsearch := h.search
    unfold partScan VfsState.volume at hsearch ⊢
    rw [hsame.openTarget, hkept.fatRoot, hkept.content, hkept.handle _ hvolume]
    exact hsearch
  null := by
    rw [hsame.next]
    exact h.null

end Same

end Fs
end Rmmtos
