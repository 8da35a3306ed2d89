import Rmmtos.Fs.FileFrames
import Rmmtos.Fs.NameBounds
import Rmmtos.Fs.PathResolution

/-!
# The lookups of a resolution

Which parts of a path a directory is searched for.  A resolution moves its cursor
behind the next separator before its first lookup, so the part that a path begins
with is passed.  Nothing is assumed of the directories here: they may be those of
a file system, and each turn may change them.
-/

namespace Rmmtos
namespace Fs

open Library Kernel

/-- A lookup that found a node: what was opened, the string that was searched for,
and the node. -/
structure Lookup where
  directory : Word
  name : Bytes
  node : Word

def retryLookups (s : PathState) (resolution : Word) : Result (List Lookup) :=
  let node := (s.resolution resolution).currentNode
  let currentPart := (s.resolution resolution).currentPart
  if peek s.mem kernelSegment currentPart = 0 then .ok []
  else if asks (s.fs.node node).flags directoryFlag then do
    let (handle, s) ← s.directoryOpen node handleRead
    if handle ≠ 0 then
      let name := stringAt s.mem currentPart
      let (found, _) ← s.directoryFindNode handle name
      .ok (if found = 0 then [] else [⟨node, name, found⟩])
    else .ok []
  else .ok []

def advanceLookups (s : PathState) (resolution : Word) : Result (List Lookup) := do
  let currentPart ← skipPart s.mem (s.resolution resolution).currentPart
  let s := s.setCurrentPart resolution currentPart
  if currentPart = (s.resolution resolution).endPart then .ok []
  else retryLookups (s.setCurrentPart resolution (currentPart + 1)) resolution

/-- The turns of {lit}`vfs_get_node_for_path` together with their lookups. -/
def resolveLookups (s : PathState) (resolution : Word) :
    Result ((ResolutionStatus × PathState) × List Lookup) :=
  whileLoop .hang (fun x => decide (x.1.1 = .ok))
    (fun x => do
      let found ← advanceLookups x.1.2 resolution
      let y ← vfsAdvanceResolution x.1.2 resolution
      .ok (y, x.2 ++ found))
    wordCount ((.ok, s), [])

/-- The lookups of {lit}`vfs_get_node_for_path` that find a node, in order. -/
def pathLookups (s : PathState) (path : List Byte) : Result (List Lookup) := do
  let (resolution, s) ← vfsStartResolve s path
  let x ← resolveLookups s resolution
  .ok x.2

/-- Lookups that lead from one node to another: each one is made where the one
before it arrived. -/
inductive LookupPath : Word -> List Lookup -> Word -> Prop where
  | here (p : Word) : LookupPath p [] p
  | lookup {l : Lookup} {rest : List Lookup} {q : Word} :
      LookupPath l.node rest q -> LookupPath l.directory (l :: rest) q

def Names (lookups : List Lookup) (parts : List (List Byte)) : Prop :=
  List.Forall₂ (fun l part => Terminated l.name part) lookups parts

/-- Every component of the path was found by a lookup, in order, on the way from
the root to the node. -/
def MatchedInOrder (s : PathState) (path : List Byte) (node : Word) : Prop :=
  exists lookups, pathLookups s path = .ok lookups ∧ Names lookups (components path) ∧
    LookupPath s.vfsRoot lookups node

theorem LookupPath.append {p : Word} {l : Lookup} {ls : List Lookup}
    (h : LookupPath p ls l.directory) : LookupPath p (ls ++ [l]) l.node := by
  generalize hq : l.directory = q at h
  induction h with
  | here p =>
      rw [← hq]
      exact LookupPath.lookup (LookupPath.here l.node)
  | lookup _ ih => exact LookupPath.lookup (ih hq)

/-!
# Turns with their lookups
-/

section Turns

variable {t : PathState} {resolution first last root node : Word} {rest : List Byte}

/-- What a turn leaves of the copy of the path and of the place in it. -/
structure CopyKept (resolution : Word) (t u : PathState) : Prop where
  mem : u.mem = t.mem
  currentPart : (u.resolution resolution).currentPart =
    (t.resolution resolution).currentPart
  endPart : (u.resolution resolution).endPart = (t.resolution resolution).endPart

theorem directoryOpen_kept {mode p : Word} {u : PathState}
    (h : t.directoryOpen node mode = .ok (p, u)) :
    u.mem = t.mem ∧ u.resolution = t.resolution := by
  unfold PathState.directoryOpen at h
  rcases ok_bind_iff.mp h with ⟨r, _, hret⟩
  cases hret
  exact ⟨rfl, rfl⟩

theorem directoryFindNode_kept {handle p : Word} {name : Bytes} {u : PathState}
    (h : t.directoryFindNode handle name = .ok (p, u)) :
    u.mem = t.mem ∧ u.resolution = t.resolution := by
  unfold PathState.directoryFindNode at h
  rcases ok_bind_iff.mp h with ⟨⟨r, w⟩, hrun, hret⟩
  cases hret
  exact ⟨(findNode_only hrun).mem, rfl⟩

theorem directoryClose_kept {handle : Word} {u : PathState}
    (h : t.directoryClose handle = .ok u) :
    u.mem = t.mem ∧ u.resolution = t.resolution := by
  unfold PathState.directoryClose at h
  rcases ok_bind_iff.mp h with ⟨r, _, hret⟩
  cases hret
  exact ⟨rfl, rfl⟩

theorem retry_lookups {x : ResolutionStatus × PathState}
    (h : vfsRetryResolution t resolution = .ok x) :
    exists found, retryLookups t resolution = .ok found ∧ x.1 ≠ .ended ∧
      (x.1 = .ok -> CopyKept resolution t x.2 ∧
        (peek t.mem kernelSegment (t.resolution resolution).currentPart = 0 ∧
            found = [] ∧
            (x.2.resolution resolution).currentNode =
              (t.resolution resolution).currentNode ∨
          peek t.mem kernelSegment (t.resolution resolution).currentPart ≠ 0 ∧
            found = [⟨(t.resolution resolution).currentNode,
              stringAt t.mem (t.resolution resolution).currentPart,
              (x.2.resolution resolution).currentNode⟩])) := by
  unfold vfsRetryResolution at h
  unfold retryLookups
  dsimp only at h ⊢
  split at h
  · rename_i hempty
    cases h
    rw [if_pos hempty]
    exact ⟨[], rfl, nofun, fun _ => ⟨⟨rfl, rfl, rfl⟩, Or.inl ⟨hempty, rfl, rfl⟩⟩⟩
  · rename_i hpart
    rw [if_neg hpart]
    split at h
    · rename_i hdir
      rw [if_pos hdir]
      rcases ok_bind_iff.mp h with ⟨⟨handle, u⟩, hopen, h⟩
      have hu := directoryOpen_kept hopen
      rw [hopen, ok_bind]
      dsimp only at h ⊢
      split at h
      · rename_i hhandle
        rw [if_pos hhandle]
        rcases ok_bind_iff.mp h with ⟨⟨q, v⟩, hfind, h⟩
        rw [hfind, ok_bind]
        have hv := directoryFindNode_kept hfind
        rcases ok_bind_iff.mp h with ⟨w, hclose, h⟩
        have hw := directoryClose_kept hclose
        have hmem : w.mem = t.mem := hw.1.trans (hv.1.trans hu.1)
        have hres : w.resolution = t.resolution := hw.2.trans (hv.2.trans hu.2)
        dsimp only at h ⊢
        split at h
        · cases h
          exact ⟨_, rfl, nofun, nofun⟩
        · rename_i hq
          cases h
          refine ⟨_, rfl, nofun, fun _ => ⟨⟨hmem, ?_, ?_⟩, Or.inr ⟨hpart, ?_⟩⟩⟩
          · rw [setCurrentNode_resolution, hres]
          · rw [setCurrentNode_resolution, hres]
          · rw [if_neg hq, setCurrentNode_resolution, hu.1]
      · rename_i hhandle
        cases h
        rw [if_neg hhandle]
        exact ⟨_, rfl, nofun, nofun⟩
    · rename_i hfile
      cases h
      rw [if_neg hfile]
      exact ⟨_, rfl, nofun, nofun⟩

/-- A resolution at the end {lit}`rest` of its path, with the lookups so far. -/
structure Tracked (root last resolution : Word) (path rest : List Byte)
    (u : PathState) (lookups : List Lookup) : Prop where
  laid : Laid u.mem (u.resolution resolution).currentPart last rest
  chars : 0 ∉ rest
  endPart : (u.resolution resolution).endPart = last
  leads : LookupPath root lookups (u.resolution resolution).currentNode
  names : exists done, Names lookups done ∧
    done ++ laterComponents rest = laterComponents path

def Followed (root last resolution : Word) (path : List Byte) (u : PathState)
    (lookups : List Lookup) : ResolutionStatus -> Prop
  | .ok => exists rest, Tracked root last resolution path rest u lookups
  | .ended => Names lookups (laterComponents path) ∧
      LookupPath root lookups (u.resolution resolution).currentNode
  | .notFound | .isFile => True

theorem terminated_part {m : Mem} {part : List Byte} (hlaid : Laid m first last rest)
    (hfirst : FirstPart part rest) (h0 : 0 ∉ rest) :
    Terminated (stringAt m first) part := by
  rcases stringAt_part hlaid hfirst with ⟨hbytes, hend⟩
  refine ⟨hfirst.zero_not_mem h0, ?_⟩
  intro i hi
  rcases Nat.lt_or_eq_of_le hi with hlt | rfl
  · exact hbytes i hlt
  · rw [hend, List.getD_eq_default _ _ (Nat.le_refl _)]

theorem Tracked.retry {path : List Byte} {lookups : List Lookup}
    {x : ResolutionStatus × PathState}
    (hlaid : Laid t.mem (t.resolution resolution).currentPart last rest) (h0 : 0 ∉ rest)
    (hend : (t.resolution resolution).endPart = last)
    (hleads : LookupPath root lookups (t.resolution resolution).currentNode)
    (hnames : exists done, Names lookups done ∧
      done ++ components rest = laterComponents path)
    (h : vfsRetryResolution t resolution = .ok x) :
    exists found, retryLookups t resolution = .ok found ∧
      Followed root last resolution path x.2 (lookups ++ found) x.1 := by
  rcases retry_lookups h with ⟨found, hfound, hnot, hgoes⟩
  refine ⟨found, hfound, ?_⟩
  rcases x with ⟨status, u⟩
  cases status with
  | ended => exact absurd rfl hnot
  | notFound => trivial
  | isFile => trivial
  | ok =>
      rcases hgoes rfl with ⟨hkept, hpart⟩
      dsimp only at hkept hpart
      rcases exists_firstPart rest with ⟨part, hfirst⟩
      have hbyte := byte_of_part hlaid h0 hfirst
      have hlaid' : Laid u.mem (u.resolution resolution).currentPart last rest := by
        rw [hkept.mem, hkept.currentPart]
        exact hlaid
      rcases hnames with ⟨done, hdone, hparts⟩
      refine ⟨rest, hlaid', h0, hkept.endPart.trans hend, ?_, ?_⟩
      · rcases hpart with ⟨_, rfl, hnode⟩ | ⟨_, rfl, _⟩
        · rw [List.append_nil, hnode]
          exact hleads
        · exact LookupPath.append hleads
      · rcases hpart with ⟨hzero, rfl, _⟩ | ⟨hchar, rfl, _⟩
        · have hempty := hbyte.mp hzero
          subst hempty
          rw [components_nil hfirst] at hparts
          rw [List.append_nil]
          exact ⟨done, hdone, hparts⟩
        · cases part with
          | nil => exact absurd (hbyte.mpr rfl) hchar
          | cons c part =>
              rw [components_part hfirst] at hparts
              refine ⟨done ++ [c :: part], ?_, ?_⟩
              · exact List.rel_append hdone
                  (List.Forall₂.cons (terminated_part hlaid hfirst h0) .nil)
              · rw [List.append_assoc]
                exact hparts

theorem Tracked.advance {path : List Byte} {lookups : List Lookup}
    {x : ResolutionStatus × PathState}
    (ht : Tracked root last resolution path rest t lookups)
    (h : vfsAdvanceResolution t resolution = .ok x) :
    exists found, advanceLookups t resolution = .ok found ∧
      Followed root last resolution path x.2 (lookups ++ found) x.1 := by
  rcases exists_firstPart rest with ⟨part, hpart⟩
  rcases skipPart_laid ht.laid hpart ht.chars with ⟨r, hskip, hends⟩
  rcases ht.names with ⟨done, hdone, hparts⟩
  unfold vfsAdvanceResolution at h
  unfold advanceLookups
  rw [hskip, ok_bind] at h ⊢
  dsimp only at h ⊢
  rw [setCurrentPart_resolution] at h ⊢
  dsimp only at h ⊢
  rw [ht.endPart] at h ⊢
  rcases hends with ⟨hlast, hrest⟩ | ⟨hne, rest', hrest, hlaid, h0⟩
  · rw [if_pos hlast] at h ⊢
    cases h
    rw [hrest, laterComponents_last hpart.1, List.append_nil] at hparts
    subst hparts
    refine ⟨[], rfl, ?_, ?_⟩
    · rw [List.append_nil]
      exact hdone
    · rw [List.append_nil, setCurrentPart_resolution]
      exact ht.leads
  · rw [if_neg hne, setCurrentPart_again] at h ⊢
    rw [hrest, laterComponents_behind hpart.1] at hparts
    refine Tracked.retry ?_ h0 ?_ ?_ ⟨done, hdone, hparts⟩ h
    · rw [setCurrentPart_resolution]
      exact hlaid
    · rw [setCurrentPart_resolution]
      exact ht.endPart
    · rw [setCurrentPart_resolution]
      exact ht.leads

/-- The turns with their lookups come to the state that the turns come to. -/
theorem resolveLookups_followed {path : List Byte} {x : ResolutionStatus × PathState}
    (ht : Tracked root last resolution path path t [])
    (h : resolvePath t resolution = .ok x) :
    exists lookups, resolveLookups t resolution = .ok (x, lookups) ∧
      Followed root last resolution path x.2 lookups x.1 := by
  have hrun : exists y, resolveLookups t resolution = .ok y ∧
      y.1 = x ∧ Followed root last resolution path x.2 y.2 x.1 := by
    have hbegins : Followed root last resolution path t [] .ok := ⟨path, ht⟩
    refine whileLoop_related (t := ((.ok, t), []))
      (R := fun x y => y.1 = x ∧ Followed root last resolution path x.2 y.2 x.1) ?_ ?_
      ⟨rfl, hbegins⟩ h
    · intro x y hxy
      rw [hxy.1]
    · intro x y x' hxy hcond hbody
      rcases x with ⟨status, u⟩
      rcases y with ⟨y, lookups⟩
      have hok : status = .ok := of_decide_eq_true hcond
      subst hok
      rcases hxy with ⟨rfl, rest, hrest⟩
      rcases hrest.advance hbody with ⟨found, hfound, hfollowed⟩
      refine ⟨(x', lookups ++ found), ?_, rfl, hfollowed⟩
      dsimp only at hbody ⊢
      rw [hfound, ok_bind, hbody, ok_bind]
  rcases hrun with ⟨⟨y, lookups⟩, hrun, rfl, hfollowed⟩
  exact ⟨lookups, hrun, hfollowed⟩

end Turns

/-!
# The lookups of a path
-/

section Paths

variable {s t : PathState} {path : List Byte} {node : Word}

/-- The lookups of a path that leads to a node are those of its components behind
the part that it begins with. -/
theorem resolved_lookups (hheap : HeapInv s.fs.heap)
    (hpool : 0 < s.fs.heap.poolStart.toNat) (h0 : 0 ∉ path)
    (hlen : path.length + 1 < wordCount)
    (h : vfsGetNodeForPath s path = .ok (node, t)) (hnode : node ≠ 0) :
    exists lookups, pathLookups s path = .ok lookups ∧
      Names lookups (laterComponents path) ∧ LookupPath s.vfsRoot lookups node := by
  unfold vfsGetNodeForPath at h
  rcases ok_bind_iff.mp h with ⟨⟨resolution, u⟩, hstart, h⟩
  rcases ok_bind_iff.mp h with ⟨⟨status, v⟩, hresolve, h⟩
  rcases ok_bind_iff.mp h with ⟨w, _, hret⟩
  cases hret
  have hended : status = .ended := by
    by_contra hne
    rw [if_neg hne] at hnode
    exact hnode rfl
  subst hended
  rcases vfsStartResolve_started hheap hpool h0 hlen with
    ⟨_, hpanic⟩ | ⟨resolution', u', b, c, hrun, hu, _⟩
  · rw [hpanic] at hstart
    cases hstart
  · rw [hrun] at hstart
    cases hstart
    have hbegins : Tracked s.vfsRoot (offsetFrom (s.fs.heap.address c) path.length)
        resolution path path u [] := by
      refine ⟨?_, h0, hu.ends, ?_, [], List.Forall₂.nil, rfl⟩
      · rw [hu.begins]
        exact hu.laid
      · rw [hu.node]
        exact LookupPath.here _
    rcases resolveLookups_followed hbegins hresolve with
      ⟨lookups, hlookups, hnames, hleads⟩
    refine ⟨lookups, ?_, hnames, ?_⟩
    · unfold pathLookups
      rw [hrun, ok_bind]
      dsimp only
      rw [hlookups, ok_bind]
    · rw [if_pos rfl]
      exact hleads

theorem laterComponents_all_iff :
    (laterComponents path).length = (components path).length <->
      path = [] ∨ path.head? = some slash := by
  rcases exists_firstPart path with ⟨part, hpart⟩
  cases part with
  | nil =>
      rw [components_nil hpart]
      refine iff_of_true rfl ?_
      rcases hpart.2 with hpath | ⟨rest, rfl⟩
      · exact Or.inl hpath
      · exact Or.inr rfl
  | cons c part =>
      rw [components_part hpart]
      refine iff_of_false (Nat.ne_of_lt (Nat.lt_succ_self _)) ?_
      have hc : c ≠ slash := fun heq => hpart.1 (heq ▸ List.mem_cons_self)
      rcases hpart.2 with rfl | ⟨rest, rfl⟩
      · rintro (hnil | hhead)
        · cases hnil
        · exact hc (Option.some.inj hhead)
      · rintro (hnil | hhead)
        · cases hnil
        · exact hc (Option.some.inj hhead)

/-- Whenever a path leads to a node, all of its components were found in order if it
is empty or begins with a separator, and else the first one was passed. -/
theorem components_matched_iff (hheap : HeapInv s.fs.heap)
    (hpool : 0 < s.fs.heap.poolStart.toNat) (h0 : 0 ∉ path)
    (hlen : path.length + 1 < wordCount)
    (h : vfsGetNodeForPath s path = .ok (node, t)) (hnode : node ≠ 0) :
    MatchedInOrder s path node <-> path = [] ∨ path.head? = some slash := by
  rcases resolved_lookups hheap hpool h0 hlen h hnode with
    ⟨lookups, hlookups, hnames, hleads⟩
  rw [← laterComponents_all_iff]
  constructor
  · intro hmatched
    rcases hmatched with ⟨lookups', hlookups', hnames', _⟩
    rw [hlookups] at hlookups'
    cases hlookups'
    exact hnames.length_eq.symm.trans hnames'.length_eq
  · intro hlength
    refine ⟨lookups, hlookups, ?_, hleads⟩
    rw [laterComponents_all_iff] at hlength
    rcases hlength with rfl | hslash
    · exact hnames
    · rw [← laterComponents_root hslash]
      exact hnames

end Paths

theorem resolved_node {s : PathState} {path : List Byte} {node : Word}
    (h : (vfsGetNodeForPath s path).toOption.map Prod.fst = some node) :
    exists t, vfsGetNodeForPath s path = .ok (node, t) := by
  cases hrun : vfsGetNodeForPath s path with
  | error e =>
      rw [hrun] at h
      cases h
  | ok r =>
      rcases r with ⟨q, t⟩
      rw [hrun] at h
      cases h
      exact ⟨t, rfl⟩

/-- Both components of {lit}`"/a//b/"` are found. -/
theorem components_matched_small : MatchedInOrder smallPaths smallPath 20 := by
  have hresolves : (vfsGetNodeForPath smallPaths smallPath).toOption.map Prod.fst =
      some 20 := by
    decide +kernel
  rcases resolved_node hresolves with ⟨t, hrun⟩
  exact (components_matched_iff smallBoot_boot.heap smallBoot_boot.pool_pos (by decide)
    (by decide) hrun (by decide)).mpr (Or.inr rfl)

def strayPath : List Byte := [0x7a]

/-- A name that no node has leads to the root. -/
theorem component_skipped :
    ¬ forall (s : PathState) (path : List Byte) (node : Word) (t : PathState),
      HeapInv s.fs.heap -> 0 < s.fs.heap.poolStart.toNat -> 0 ∉ path ->
      path.length + 1 < wordCount -> vfsGetNodeForPath s path = .ok (node, t) ->
      node ≠ 0 -> MatchedInOrder s path node := by
  intro hall
  have hroot : (vfsGetNodeForPath smallPaths strayPath).toOption.map Prod.fst =
      some 8 := by
    decide +kernel
  rcases resolved_node hroot with ⟨t, hrun⟩
  have hheap := smallBoot_boot.heap
  have hpool := smallBoot_boot.pool_pos
  rcases resolved_lookups (s := smallPaths) hheap hpool (by decide) (by decide) hrun
    (by decide) with ⟨lookups, hlookups, hnames, _⟩
  rcases hall smallPaths strayPath 8 t hheap hpool (by decide) (by decide) hrun
    (by decide) with ⟨lookups', hlookups', hnames', _⟩
  rw [hlookups] at hlookups'
  cases hlookups'
  have hlength : (laterComponents strayPath).length = (components strayPath).length :=
    hnames.length_eq.symm.trans hnames'.length_eq
  rcases laterComponents_all_iff.mp hlength with hnil | hhead
  · cases hnil
  · exact absurd (Option.some.inj hhead) (by decide)

end Fs
end Rmmtos
