import Rmmtos.Fs.PathTrees

/-!
# Resolving paths

On a tree in memory a path leads from the root to the node that its components
name one after the other.  An invariant of the turns ties the node that the
resolution is at and the rest of the path behind its cursor to that node.
-/

namespace Rmmtos
namespace Fs

open Library Zones Kernel

/-!
# Turns of the loop
-/

structure AtRest (s : PathState) (heap : Heap) (mem : Mem) (copy last : Word)
    (resolution : Word) (rest : List Byte) (t : PathState) : Prop
    extends OnTheWay s heap mem t where
  path : (t.resolution resolution).path = copy
  endPart : (t.resolution resolution).endPart = last
  laid : Laid t.mem (t.resolution resolution).currentPart last rest
  chars : 0 ∉ rest

def Tells (s : PathState) (nodes : Set Word) (children : Word -> List Word)
    (goal : Option Word) (node : Word) (rest : List Byte) :
    ResolutionStatus -> Prop
  | .ok => node ∈ nodes ∧
      goal = reached s.toVfsState children node (laterComponents rest)
  | .ended => goal = some node
  | .notFound | .isFile => goal = none

def TurnDone (s : PathState) (nodes : Set Word) (children : Word -> List Word)
    (heap : Heap) (mem : Mem) (copy last resolution : Word) (goal : Option Word)
    (x : ResolutionStatus × PathState) : Prop :=
  exists rest, AtRest s heap mem copy last resolution rest x.2 ∧
    Tells s nodes children goal (x.2.resolution resolution).currentNode rest x.1

section Turns

variable {s t : PathState} {nodes : Set Word} {children : Word -> List Word}
  {heap : Heap} {mem : Mem} {copy first last resolution node : Word}
  {goal : Option Word} {rest : List Byte}

@[simp] theorem setCurrentNode_resolution (s : PathState) (p node : Word) :
    (s.setCurrentNode p node).resolution p =
      { s.resolution p with currentNode := node } :=
  Function.update_self ..

@[simp] theorem setCurrentPart_resolution (s : PathState) (p part : Word) :
    (s.setCurrentPart p part).resolution p =
      { s.resolution p with currentPart := part } :=
  Function.update_self ..

theorem setCurrentPart_again (s : PathState) (p part part' : Word) :
    (s.setCurrentPart p part).setCurrentPart p part' = s.setCurrentPart p part' := by
  unfold PathState.setCurrentPart PathState.setResolution
  dsimp only
  rw [Function.update_self, Function.update_idem]

theorem AtRest.setCurrentNode
    (h : AtRest s heap mem copy last resolution rest t) (node : Word) :
    AtRest s heap mem copy last resolution rest (t.setCurrentNode resolution node) where
  heap := h.heap
  mem := h.mem
  root := h.root
  nodes := h.nodes
  path := by
    rw [setCurrentNode_resolution]
    exact h.path
  endPart := by
    rw [setCurrentNode_resolution]
    exact h.endPart
  laid := by
    rw [setCurrentNode_resolution]
    exact h.laid
  chars := h.chars

theorem AtRest.setCurrentPart {rest' : List Byte} {part : Word}
    (h : AtRest s heap mem copy last resolution rest t)
    (hlaid : Laid t.mem part last rest') (h0 : 0 ∉ rest') :
    AtRest s heap mem copy last resolution rest' (t.setCurrentPart resolution part) where
  heap := h.heap
  mem := h.mem
  root := h.root
  nodes := h.nodes
  path := by
    rw [setCurrentPart_resolution]
    exact h.path
  endPart := by
    rw [setCurrentPart_resolution]
    exact h.endPart
  laid := by
    rw [setCurrentPart_resolution]
    exact hlaid
  chars := h0

/-- What a turn makes of the part that the cursor is on, in a directory where a
search for the part finds {lit}`q`. -/
inductive PartTurn (s : PathState) (node q : Word) :
    List Byte -> ResolutionStatus -> Word -> Prop where
  | empty : PartTurn s node q [] .ok node
  | file {part : List Byte} : part ≠ [] -> isDirectory s.toVfsState node = false ->
      PartTurn s node q part .isFile node
  | busy {part : List Byte} : part ≠ [] -> (s.fs.node node).writers ≠ 0 ->
      isDirectory s.toVfsState node = true ->
      PartTurn s node q part .notFound node
  | missing {part : List Byte} : part ≠ [] -> isDirectory s.toVfsState node = true ->
      (s.fs.node node).writers = 0 -> q = 0 -> PartTurn s node q part .notFound node
  | found {part : List Byte} : part ≠ [] -> isDirectory s.toVfsState node = true ->
      (s.fs.node node).writers = 0 -> q ≠ 0 -> PartTurn s node q part .ok q

theorem byte_of_part {part : List Byte} (hlaid : Laid t.mem first last rest)
    (h0 : 0 ∉ rest) (hpart : FirstPart part rest) :
    peek t.mem kernelSegment first = 0 <-> part = [] := by
  rcases stringAt_part hlaid hpart with ⟨hbytes, hend⟩
  unfold stringAt at hbytes hend
  cases part with
  | nil =>
      rw [List.length_nil, offsetFrom_none] at hend
      exact iff_of_true hend rfl
  | cons c part =>
      have hbyte := hbytes 0 (Nat.succ_pos _)
      rw [offsetFrom_none] at hbyte
      refine iff_of_false ?_ (List.cons_ne_nil c part)
      intro hzero
      rw [hbyte] at hzero
      exact hpart.zero_not_mem h0 (hzero ▸ List.mem_cons_self)

theorem retry_part (hheap : HeapInv heap) (hpool : 0 < heap.poolStart.toNat)
    (ht : AtRest s heap mem copy last resolution rest t)
    (hnode : (t.resolution resolution).currentNode = node)
    {part : List Byte} (hpart : FirstPart part rest) {q : Word}
    (hsearch : part ≠ [] -> isDirectory s.toVfsState node = true ->
      (s.fs.node node).writers = 0 -> Searched s.toVfsState node part q) :
    HandleFails heap ∧ vfsRetryResolution t resolution = panic .outOfMem ∨
      exists status u, vfsRetryResolution t resolution = .ok (status, u) ∧
        AtRest s heap mem copy last resolution rest u ∧ VolumesKept heap t u ∧
        (u.resolution resolution).currentPart =
          (t.resolution resolution).currentPart ∧
        PartTurn s node q part status (u.resolution resolution).currentNode := by
  rcases stringAt_part ht.laid hpart with ⟨hbytes, hend⟩
  have hchar := byte_of_part ht.laid ht.chars hpart
  unfold vfsRetryResolution
  dsimp only
  rw [hnode]
  by_cases hempty : part = []
  · subst hempty
    rw [if_pos (hchar.mpr rfl)]
    refine Or.inr ⟨.ok, t, rfl, ht, VolumesKept.refl heap t, rfl, ?_⟩
    rw [hnode]
    exact PartTurn.empty
  · have hflags : asks (t.fs.node node).flags directoryFlag =
        isDirectory s.toVfsState node := by
      rw [ht.nodes.flags]
      rfl
    rw [if_neg fun h => hempty (hchar.mp h), hflags]
    cases hdir : isDirectory s.toVfsState node with
    | false =>
        rw [if_neg Bool.false_ne_true]
        refine Or.inr ⟨.isFile, t, rfl, ht, VolumesKept.refl heap t, rfl, ?_⟩
        rw [hnode]
        exact PartTurn.file hempty hdir
    | true =>
        rw [if_pos rfl]
        by_cases hwriters : (s.fs.node node).writers = 0
        · rcases directory_lookup (hsearch hempty hdir hwriters) hheap hpool
            ht.toOnTheWay hwriters hdir hbytes hend with ⟨hfails, hpanic⟩ |
              ⟨p, u, v, w, hopen, hp, hfind, hclose, hw, hsame, hres, hkept⟩
          · left
            rw [hpanic]
            exact ⟨hfails, rfl⟩
          · right
            rw [← hsame] at hfind
            rw [hopen, ok_bind, if_pos hp, hfind, ok_bind, hclose, ok_bind]
            have hrest : AtRest s heap mem copy last resolution rest w := by
              refine ⟨hw, ?_, ?_, ?_, ht.chars⟩
              · rw [hres, ht.path]
              · rw [hres, ht.endPart]
              · rw [hres, hw.mem, ← ht.mem]
                exact ht.laid
            by_cases hq : q = 0
            · rw [if_pos hq]
              refine ⟨.notFound, w, rfl, hrest, hkept, ?_, ?_⟩
              · rw [hres]
              · rw [hres, hnode]
                exact PartTurn.missing hempty hdir hwriters hq
            · refine ⟨.ok, w.setCurrentNode resolution q, if_neg hq,
                hrest.setCurrentNode q,
                ⟨hkept.handle, hkept.fatRoot, hkept.content, hkept.stack,
                  hkept.lookups⟩, ?_, ?_⟩
              · rw [setCurrentNode_resolution, hres]
              · rw [setCurrentNode_resolution]
                exact PartTurn.found hempty hdir hwriters hq
        · rw [directory_busy ht.toOnTheWay hwriters, ok_bind, if_neg fun h => h rfl]
          refine Or.inr ⟨.notFound, t, rfl, ht, VolumesKept.refl heap t, rfl, ?_⟩
          rw [hnode]
          exact PartTurn.busy hempty hwriters hdir

theorem advance_part (ht : AtRest s heap mem copy last resolution rest t)
    {part : List Byte} (hpart : FirstPart part rest) :
    rest = part ∧ (exists u, vfsAdvanceResolution t resolution = .ok (.ended, u) ∧
        AtRest s heap mem copy last resolution [] u ∧ VolumesKept heap t u ∧
        (u.resolution resolution).currentNode =
          (t.resolution resolution).currentNode) ∨
      exists rest' u, rest = part ++ slash :: rest' ∧
        vfsAdvanceResolution t resolution = vfsRetryResolution u resolution ∧
        AtRest s heap mem copy last resolution rest' u ∧ VolumesKept heap t u ∧
        (u.resolution resolution).currentNode =
          (t.resolution resolution).currentNode := by
  rcases skipPart_laid ht.laid hpart ht.chars with ⟨r, hskip, hends⟩
  unfold vfsAdvanceResolution
  rw [hskip, ok_bind]
  dsimp only
  rw [setCurrentPart_resolution]
  dsimp only
  rw [ht.endPart]
  rcases hends with ⟨hlast, hrest⟩ | ⟨hne, rest', hrest, hlaid, h0⟩
  · have hend : Laid t.mem r last [] := by
      rw [hlast]
      exact ⟨nofun, ht.laid.zero, rfl⟩
    rw [if_pos hlast]
    refine Or.inl ⟨hrest, _, rfl, ht.setCurrentPart hend List.not_mem_nil,
      ⟨fun _ _ => rfl, rfl, rfl, rfl, rfl⟩, ?_⟩
    rw [setCurrentPart_resolution]
  · rw [if_neg hne, setCurrentPart_again]
    refine Or.inr ⟨rest', _, hrest, rfl, ht.setCurrentPart hlaid h0,
      ⟨fun _ _ => rfl, rfl, rfl, rfl, rfl⟩, ?_⟩
    rw [setCurrentPart_resolution]

theorem AtRest.cursor (h : AtRest s heap mem copy last resolution rest t) :
    (t.resolution resolution).currentPart.toNat + rest.length = last.toNat :=
  h.laid.length

theorem retry_turn (htree : MemoryTree s.toVfsState nodes children)
    (hheap : HeapInv heap) (hpool : 0 < heap.poolStart.toNat)
    (ht : AtRest s heap mem copy last resolution rest t)
    (hnode : (t.resolution resolution).currentNode ∈ nodes)
    (hgoal : goal = reached s.toVfsState children
      (t.resolution resolution).currentNode (components rest)) :
    HandleFails heap ∧ vfsRetryResolution t resolution = panic .outOfMem ∨
      exists x, vfsRetryResolution t resolution = .ok x ∧
        TurnDone s nodes children heap mem copy last resolution goal x ∧
        (x.2.resolution resolution).currentPart =
          (t.resolution resolution).currentPart := by
  rcases exists_firstPart rest with ⟨part, hpart⟩
  have hdirectory := fun hdir => htree.directory hnode hdir
  rcases retry_part hheap hpool ht rfl hpart
    (fun _ hdir _ => (hdirectory hdir).searched (hpart.zero_not_mem ht.chars)) with
    hfails | ⟨status, u, hrun, hrest, _, hcursor, hturn⟩
  · exact Or.inl hfails
  · refine Or.inr ⟨(status, u), hrun, ⟨rest, hrest, ?_⟩, hcursor⟩
    dsimp only
    generalize (t.resolution resolution).currentNode = node at hnode hgoal hturn hdirectory
    generalize (u.resolution resolution).currentNode = node' at hturn
    have hcomponents : part ≠ [] ->
        components rest = part :: laterComponents rest := by
      intro hne
      cases part with
      | nil => exact absurd rfl hne
      | cons c part => exact components_part hpart
    have hchild : part ≠ [] -> isDirectory s.toVfsState node = true -> goal =
        (namedChild s.toVfsState children node part).bind fun q =>
          reached s.toVfsState children q (laterComponents rest) := by
      intro hne hdir
      rw [hcomponents hne] at hgoal
      unfold reached at hgoal
      rw [hdir, if_pos rfl] at hgoal
      exact hgoal
    cases hturn with
    | empty =>
        rw [components_nil hpart] at hgoal
        exact ⟨hnode, hgoal⟩
    | file hne hdir =>
        rw [hcomponents hne] at hgoal
        unfold reached at hgoal
        rw [hdir, if_neg Bool.false_ne_true] at hgoal
        exact hgoal
    | busy hne hwriters hdir => exact absurd (htree.noWriter _ hnode hdir) hwriters
    | missing hne hdir _ hfound =>
        have hgoal := hchild hne hdir
        rw [(hdirectory hdir).named_none.mp hfound] at hgoal
        exact hgoal
    | found hne hdir _ hfound =>
        have hgoal := hchild hne hdir
        cases hq : namedChild s.toVfsState children node part with
        | none => exact absurd ((hdirectory hdir).named_none.mpr hq) hfound
        | some q =>
            rw [hq] at hgoal
            exact ⟨htree.inside _ hnode hdir _ (namedChild_mem hq), hgoal⟩

theorem advance_turn (htree : MemoryTree s.toVfsState nodes children)
    (hheap : HeapInv heap) (hpool : 0 < heap.poolStart.toNat)
    (ht : TurnDone s nodes children heap mem copy last resolution goal (.ok, t)) :
    HandleFails heap ∧ vfsAdvanceResolution t resolution = panic .outOfMem ∨
      exists x, vfsAdvanceResolution t resolution = .ok x ∧
        TurnDone s nodes children heap mem copy last resolution goal x ∧
        (x.1 = .ok -> (t.resolution resolution).currentPart.toNat <
          (x.2.resolution resolution).currentPart.toNat) := by
  rcases ht with ⟨rest, hrest, hnode, hgoal⟩
  dsimp only at hrest hnode hgoal
  rcases exists_firstPart rest with ⟨part, hpart⟩
  rcases advance_part hrest hpart with
    ⟨hlast, u, hrun, hended, _, hsame⟩ |
      ⟨rest', u, hbehind, hrun, hmoved, _, hsame⟩
  · rw [hlast, laterComponents_last hpart.1, ← hsame] at hgoal
    exact Or.inr ⟨_, hrun, ⟨[], hended, hgoal⟩, nofun⟩
  · rw [hbehind, laterComponents_behind hpart.1, ← hsame] at hgoal
    rw [← hsame] at hnode
    rw [hrun]
    rcases retry_turn htree hheap hpool hmoved hnode hgoal with
      hfails | ⟨x, hx, hdone, hcursor⟩
    · exact Or.inl hfails
    · refine Or.inr ⟨x, hx, hdone, fun _ => ?_⟩
      have hbefore := hrest.cursor
      have hafter := hmoved.cursor
      rw [hbehind, List.length_append, List.length_cons] at hbefore
      rw [hcursor]
      omega

/-- The loop comes to its end, or a turn fails, when every turn keeps an invariant
and moves the cursor. -/
theorem resolvePath_ends (last : Word) {I : ResolutionStatus × PathState -> Prop}
    {F : Stop -> Prop}
    (hcursor : forall u, I (.ok, u) ->
      (u.resolution resolution).currentPart.toNat ≤ last.toNat)
    (hturn : forall u, I (.ok, u) ->
      (exists f, vfsAdvanceResolution u resolution = .error f ∧ F f) ∨
        exists x, vfsAdvanceResolution u resolution = .ok x ∧ I x ∧
          (x.1 = .ok -> (u.resolution resolution).currentPart.toNat <
            (x.2.resolution resolution).currentPart.toNat))
    (ht : I (.ok, t)) (hbegins : 0 < (t.resolution resolution).currentPart.toNat) :
    (exists f, resolvePath t resolution = .error f ∧ F f) ∨
      exists x, resolvePath t resolution = .ok x ∧ x.1 ≠ .ok ∧ I x := by
  have hrun := whileLoop_outcome (e := Stop.hang)
    (c := fun x : ResolutionStatus × PathState => decide (x.1 = .ok))
    (b := fun x => vfsAdvanceResolution x.2 resolution) (I := I) (F := F)
    (fun x => if x.1 = .ok then
      last.toNat - (x.2.resolution resolution).currentPart.toNat + 1 else 0) ?_
    (n := wordCount) ht ?_
  · rcases hrun with hfails | ⟨x, hx, hdone, hexit⟩
    · exact Or.inl hfails
    · exact Or.inr ⟨x, hx, of_decide_eq_false hexit, hdone⟩
  · intro x hx hcond
    rcases x with ⟨status, u⟩
    have hok : status = .ok := of_decide_eq_true hcond
    subst hok
    rcases hturn u hx with hfails | ⟨⟨status, v⟩, hy, hdone, hmoves⟩
    · exact Or.inl hfails
    · refine Or.inr ⟨(status, v), hy, hdone, ?_⟩
      dsimp only at hmoves ⊢
      rw [if_pos rfl]
      split
      · next hgoes =>
          subst hgoes
          have hlt := hmoves rfl
          have hle := hcursor v hdone
          omega
      · exact Nat.succ_pos _
  · have hlt := last.isLt
    dsimp only
    rw [if_pos rfl]
    unfold wordCount
    omega

/-- The loop comes to its end, or to a directory whose handle there is no memory
for. -/
theorem resolvePath_outcome (last : Word) {I : ResolutionStatus × PathState -> Prop}
    (hcursor : forall u, I (.ok, u) ->
      (u.resolution resolution).currentPart.toNat ≤ last.toNat)
    (hturn : forall u, I (.ok, u) ->
      HandleFails heap ∧ vfsAdvanceResolution u resolution = panic .outOfMem ∨
        exists x, vfsAdvanceResolution u resolution = .ok x ∧ I x ∧
          (x.1 = .ok -> (u.resolution resolution).currentPart.toNat <
            (x.2.resolution resolution).currentPart.toNat))
    (ht : I (.ok, t)) (hbegins : 0 < (t.resolution resolution).currentPart.toNat) :
    HandleFails heap ∧ resolvePath t resolution = panic .outOfMem ∨
      exists x, resolvePath t resolution = .ok x ∧ x.1 ≠ .ok ∧ I x := by
  rcases resolvePath_ends (F := fun f => HandleFails heap ∧ f = .panic .outOfMem)
    last hcursor (fun u hu => (hturn u hu).imp (fun h => ⟨_, h.2, h.1, rfl⟩) id) ht
    hbegins with ⟨f, hf, hfails, rfl⟩ | hends
  · exact Or.inl ⟨hfails, hf⟩
  · exact Or.inr hends

theorem resolvePath_done (htree : MemoryTree s.toVfsState nodes children)
    (hheap : HeapInv heap) (hpool : 0 < heap.poolStart.toNat)
    (ht : TurnDone s nodes children heap mem copy last resolution goal (.ok, t))
    (hbegins : 0 < (t.resolution resolution).currentPart.toNat) :
    HandleFails heap ∧ resolvePath t resolution = panic .outOfMem ∨
      exists x, resolvePath t resolution = .ok x ∧ x.1 ≠ .ok ∧
        TurnDone s nodes children heap mem copy last resolution goal x := by
  have hcursor : forall u,
      TurnDone s nodes children heap mem copy last resolution goal (.ok, u) ->
        (u.resolution resolution).currentPart.toNat ≤ last.toNat := by
    intro u hu
    rcases hu with ⟨rest, hrest, _⟩
    exact hrest.laid.le
  exact resolvePath_outcome last hcursor
    (fun u hu => advance_turn htree hheap hpool hu) ht hbegins

end Turns

/-!
# From the path to the node
-/

/-- There is no memory for the resolution, for the copy of the path or for a
handle beside them. -/
def LacksMemory (s : PathState) (path : List Byte) : Prop :=
  s.malloc pathResolutionSize = panic .outOfMem ∨
    exists p t, s.malloc pathResolutionSize = .ok (p, t) ∧
      (t.malloc (BitVec.ofNat 16 (path.length + 1)) = panic .outOfMem ∨
        exists q u, t.malloc (BitVec.ofNat 16 (path.length + 1)) = .ok (q, u) ∧
          u.malloc directoryHandleSize = panic .outOfMem)

structure ResolutionStarted (s : PathState) (name : List Byte) (resolution : Word)
    (t : PathState) (b c : Nat) : Prop where
  nodes : SameNodes s.fs t.fs
  root : t.vfsRoot = s.vfsRoot
  volumes : forall heap, VolumesKept heap s t
  heap : t.fs.heap = (s.fs.heap.take b).take c
  freeFirst : s.fs.heap.taken b = false
  freeSecond : (s.fs.heap.take b).taken c = false
  inFirst : b < blockCount s.fs.heap.layout
  inSecond : c < blockCount s.fs.heap.layout
  address : resolution = s.fs.heap.address b
  path : (t.resolution resolution).path = s.fs.heap.address c
  begins : (t.resolution resolution).currentPart = s.fs.heap.address c
  ends : (t.resolution resolution).endPart =
    offsetFrom (s.fs.heap.address c) name.length
  node : (t.resolution resolution).currentNode = s.vfsRoot
  laid : Laid t.mem (s.fs.heap.address c)
    (offsetFrom (s.fs.heap.address c) name.length) name

section Paths

variable {s : PathState} {nodes : Set Word} {children : Word -> List Word}
  {path : List Byte}

theorem path_malloc_eq (s : PathState) (size : Word) :
    s.malloc size = Kernel.malloc s.fs.heap size >>= fun r =>
      .ok (r.1, { s with fs := { s.fs with heap := r.2 } }) := by
  unfold PathState.malloc FsState.malloc
  cases Kernel.malloc s.fs.heap size with
  | error e => rfl
  | ok r => rfl

theorem pathEnd_eq (p : Word) (n : Nat) :
    p + BitVec.ofNat 16 (n + 1) - 1 = offsetFrom p n := by
  unfold offsetFrom
  rw [BitVec.ofNat_add, ← BitVec.add_assoc]
  exact BitVec.add_sub_cancel _ _

@[simp] theorem setResolution_resolution (s : PathState) (p : Word)
    (r : VfsPathResolution) : (s.setResolution p r).resolution p = r :=
  Function.update_self ..

theorem shortPath_fits (hlen : path.length < 4096) : path.length + 1 < wordCount :=
  Nat.lt_trans (Nat.succ_lt_succ hlen) (by decide)

theorem vfsStartResolve_started (hheap : HeapInv s.fs.heap)
    (hpool : 0 < s.fs.heap.poolStart.toNat) (h0 : 0 ∉ path)
    (hlen : path.length + 1 < wordCount) :
    LacksMemory s path ∧ vfsStartResolve s path = panic .outOfMem ∨
      exists resolution t b c, vfsStartResolve s path = .ok (resolution, t) ∧
        ResolutionStarted s path resolution t b c ∧
        (HandleFails t.fs.heap -> LacksMemory s path) := by
  have hsize : (BitVec.ofNat 16 (path.length + 1)).toNat = path.length + 1 := by
    rw [BitVec.toNat_ofNat]
    exact Nat.mod_eq_of_lt hlen
  unfold vfsStartResolve LacksMemory
  rcases malloc_eq hheap.zoneTable pathResolutionSize with
    ⟨b, _, hb, hfree, _, hmalloc⟩ | ⟨_, hfail⟩
  · have hinv := take_inv hheap hb hfree
    have hp := address_ne_zero hheap hpool hb
    have hfirst := path_malloc_eq s pathResolutionSize
    rw [hmalloc, ok_bind] at hfirst
    rw [hfirst, ok_bind]
    dsimp only
    rw [if_neg hp]
    have hsecond := path_malloc_eq
      { s with fs := { s.fs with heap := s.fs.heap.take b } }
      (BitVec.ofNat 16 (path.length + 1))
    rcases malloc_eq hinv.zoneTable (BitVec.ofNat 16 (path.length + 1)) with
      ⟨c, hskip, hc, hfree', _, hmalloc'⟩ | ⟨_, hfail'⟩
    · right
      dsimp only at hsecond
      rw [hmalloc', ok_bind] at hsecond
      rw [hsecond, ok_bind]
      dsimp only
      have hq : (s.fs.heap.take b).address c ≠ 0 :=
        address_ne_zero hinv hpool hc
      rw [if_neg hq]
      have hfits : (s.fs.heap.address c).toNat + path.length < wordCount := by
        have hnat := address_toNat hheap hc
        have hend := blockEnd_le_byteCount hc
        have hroom := le_blockSize_of_sorted hinv.sizes_sorted hskip hc
        have hpool := hheap.pool_fits
        rw [hsize] at hroom
        unfold wordCount
        change _ ≤ byteCount s.fs.heap.layout at hend
        change _ ≤ blockSize s.fs.heap.layout c at hroom
        rw [hnat]
        change _ + blockSize s.fs.heap.layout c ≤ _ at hend
        change _ + blockStart s.fs.heap.layout c + _ < _
        change blockStart s.fs.heap.layout c + _ ≤ _ at hend
        omega
      rcases cutPath_laid (strcpy_copied s.mem hfits) h0 with ⟨m, hcut, hlaid⟩
      have hsame : (s.fs.heap.take b).address c = s.fs.heap.address c := rfl
      rw [hsame, hcut, ok_bind, pathEnd_eq]
      refine ⟨_, _, b, c, rfl, ⟨⟨⟨fun _ => rfl⟩, fun _ => rfl, fun _ => rfl⟩, rfl,
        fun _ => ⟨fun _ _ => rfl, rfl, rfl, rfl, rfl⟩, rfl, hfree, hfree', hb, hc, rfl,
        ?_, ?_, ?_, ?_, hlaid⟩, ?_⟩
      · rw [setResolution_resolution]
      · rw [setResolution_resolution]
      · rw [setResolution_resolution]
      · rw [setResolution_resolution]
      · intro hfails
        refine Or.inr ⟨_, _, rfl, Or.inr ⟨_, _, hsecond, ?_⟩⟩
        rw [path_malloc_eq]
        exact congrArg (fun r : Result (Word × Heap) => r >>= _) hfails
    · left
      dsimp only at hsecond
      rw [hfail'] at hsecond
      rw [hsecond]
      exact ⟨Or.inr ⟨_, _, rfl, Or.inl hsecond⟩, rfl⟩
  · left
    have hfirst := path_malloc_eq s pathResolutionSize
    rw [hfail] at hfirst
    rw [hfirst]
    exact ⟨Or.inl rfl, rfl⟩

theorem vfsFreePathResolution_freed {t u : PathState} {resolution : Word}
    {b c : Nat} (hheap : HeapInv s.fs.heap)
    (ht : ResolutionStarted s path resolution t b c)
    (hu : u.fs.heap = t.fs.heap)
    (hpath : (u.resolution resolution).path = (t.resolution resolution).path) :
    vfsFreePathResolution u resolution =
      .ok { u with fs := { u.fs with heap := s.fs.heap } } := by
  have hinv := take_inv hheap ht.inFirst ht.freeFirst
  have hsecond : Kernel.free ((s.fs.heap.take b).take c) (s.fs.heap.address c) =
      .ok (s.fs.heap.take b) := by
    have hfree := free_address (take_inv hinv ht.inSecond ht.freeSecond).table ht.inSecond
    rw [take_release ht.freeSecond] at hfree
    exact hfree
  have hfirst : Kernel.free (s.fs.heap.take b) (s.fs.heap.address b) =
      .ok s.fs.heap := by
    have hfree := free_address hinv.table ht.inFirst
    rw [take_release ht.freeFirst] at hfree
    exact hfree
  rw [ht.heap] at hu
  unfold vfsFreePathResolution PathState.free FsState.free
  rw [hpath, ht.path, ht.address, hu, hsecond]
  exact congrArg (fun r : Result Heap => (r >>= fun heap => .ok
    { u.fs with heap := heap }) >>= fun fs => .ok { u with fs := fs }) hfirst

/-- The cursor of the resolution of a path, in every state of its loop and of the
loops inside it, is in the copy. -/
def CursorInside (s : PathState) (path : List Byte) : Prop :=
  forall resolution t, vfsStartResolve s path = .ok (resolution, t) ->
    forall xs status u,
      Turns (fun x : ResolutionStatus × PathState => decide (x.1 = .ok))
        (fun x => vfsAdvanceResolution x.2 resolution) (.ok, t) xs (status, u) ->
      (u.resolution resolution).currentPart.toNat ≤
          (u.resolution resolution).endPart.toNat ∧
        forall ps p, Turns (fun p => peek u.mem kernelSegment p != 0)
          (fun p => .ok (p + 1) : Word -> Result Word)
            (u.resolution resolution).currentPart ps p ->
          p.toNat ≤ (u.resolution resolution).endPart.toNat

/-- What a resolution leaves: the heap as it was, and the counts of readers and
writers. -/
structure LeftAlone (s t : PathState) : Prop where
  heap : t.fs.heap = s.fs.heap
  readers : forall p, (t.fs.node p).readers = (s.fs.node p).readers
  writers : forall p, (t.fs.node p).writers = (s.fs.node p).writers

theorem laterComponents_root (hslash : path.head? = some slash) :
    laterComponents path = components path := by
  cases path with
  | nil => cases hslash
  | cons c path =>
      cases hslash
      exact (components_nil ⟨List.not_mem_nil, Or.inr ⟨path, rfl⟩⟩).symm

/-- The node that a path leads to: a part before its first separator is passed. -/
def pathNode (s : VfsState) (children : Word -> List Word) (path : List Byte) :
    Option Word :=
  reached s children s.vfsRoot (laterComponents path)

theorem ResolutionStarted.turnDone {t : PathState} {resolution : Word} {b c : Nat}
    (ht : ResolutionStarted s path resolution t b c)
    (htree : MemoryTree s.toVfsState nodes children) (h0 : 0 ∉ path) :
    TurnDone s nodes children t.fs.heap t.mem (s.fs.heap.address c)
      (offsetFrom (s.fs.heap.address c) path.length) resolution
      (pathNode s.toVfsState children path) (.ok, t) := by
  refine ⟨path, ⟨⟨rfl, rfl, ht.root, ht.nodes⟩, ht.path, ht.ends, ?_, h0⟩, ?_, ?_⟩
  · rw [ht.begins]
    exact ht.laid
  · rw [ht.node]
    exact htree.root
  · rw [ht.node]
    rfl

theorem ResolutionStarted.inv {t : PathState} {resolution : Word} {b c : Nat}
    (ht : ResolutionStarted s path resolution t b c) (hheap : HeapInv s.fs.heap) :
    HeapInv t.fs.heap := by
  rw [ht.heap]
  exact take_inv (take_inv hheap ht.inFirst ht.freeFirst) ht.inSecond ht.freeSecond

theorem turns_laid {m : Mem} {first last : Word} {rest : List Byte} {ps : List Word}
    {p : Word} (h : Laid m first last rest)
    (hturns : Turns (fun p => peek m kernelSegment p != 0)
      (fun p => .ok (p + 1) : Word -> Result Word) first ps p) :
    p.toNat ≤ last.toNat := by
  have hlaid : exists rest', Laid m p last rest' := by
    refine hturns.invariant (I := fun p => exists rest', Laid m p last rest') ?_ ⟨rest, h⟩
    intro p q hp hcond hq
    rcases hp with ⟨rest', hrest⟩
    cases hq
    cases rest' with
    | nil =>
        rw [hrest.done, hrest.zero] at hcond
        cases hcond
    | cons c rest' => exact ⟨rest', hrest.tail⟩
  rcases hlaid with ⟨rest', hrest⟩
  exact hrest.le

theorem cursor_inside (hheap : HeapInv s.fs.heap)
    (hpool : 0 < s.fs.heap.poolStart.toNat)
    (htree : MemoryTree s.toVfsState nodes children)
    (h0 : 0 ∉ path) (hlen : path.length < 4096) : CursorInside s path := by
  intro resolution t hstart xs status u hturns
  rcases vfsStartResolve_started hheap hpool h0 (shortPath_fits hlen) with
    ⟨_, hpanic⟩ | ⟨resolution', t', b, c, hrun, ht, _⟩
  · rw [hpanic] at hstart
    cases hstart
  · rw [hrun] at hstart
    cases hstart
    have hpool' : 0 < t.fs.heap.poolStart.toNat := by
      rw [ht.heap]
      exact hpool
    have hdone := hturns.invariant (I := TurnDone s nodes children t.fs.heap t.mem
      (s.fs.heap.address c) (offsetFrom (s.fs.heap.address c) path.length) resolution
      (pathNode s.toVfsState children path)) ?_ (ht.turnDone htree h0)
    · rcases hdone with ⟨rest, hrest, _⟩
      have hlaid := hrest.laid
      rw [← hrest.endPart] at hlaid
      exact ⟨hlaid.le, fun ps p hps => turns_laid hlaid hps⟩
    · intro x y hx hcond hy
      rcases x with ⟨status', v⟩
      have hok : status' = .ok := of_decide_eq_true hcond
      subst hok
      rcases advance_turn htree (ht.inv hheap) hpool' hx with
        ⟨_, hpanic⟩ | ⟨z, hz, hdone, _⟩
      · rw [hpanic] at hy
        cases hy
      · rw [hz] at hy
        cases hy
        exact hdone

structure SameTrees (s t : PathState) : Prop where
  heap : t.fs.heap = s.fs.heap
  root : t.vfsRoot = s.vfsRoot
  nodes : SameNodes s.fs t.fs

theorem vfsGetNodeForPath_node (hheap : HeapInv s.fs.heap)
    (hpool : 0 < s.fs.heap.poolStart.toNat)
    (htree : MemoryTree s.toVfsState nodes children) (h0 : 0 ∉ path)
    (hlen : path.length < 4096) :
    LacksMemory s path ∧ vfsGetNodeForPath s path = panic .outOfMem ∨
      exists t, vfsGetNodeForPath s path =
          .ok ((pathNode s.toVfsState children path).getD 0, t) ∧
        SameTrees s t := by
  unfold vfsGetNodeForPath
  rcases vfsStartResolve_started hheap hpool h0 (shortPath_fits hlen) with
    ⟨hlacks, hpanic⟩ | ⟨resolution, t, b, c, hrun, ht, hlacks⟩
  · rw [hpanic]
    exact Or.inl ⟨hlacks, rfl⟩
  · have hbegins : 0 < (t.resolution resolution).currentPart.toNat := by
      have hnat := address_toNat hheap ht.inSecond
      rw [ht.begins]
      omega
    have hpool' : 0 < t.fs.heap.poolStart.toNat := by
      rw [ht.heap]
      exact hpool
    rw [hrun, ok_bind]
    dsimp only
    rcases resolvePath_done htree (ht.inv hheap) hpool' (ht.turnDone htree h0) hbegins
      with ⟨hfails, hpanic⟩ | ⟨⟨status, u⟩, hu, hstatus, rest, hrest, htells⟩
    · rw [hpanic]
      exact Or.inl ⟨hlacks hfails, rfl⟩
    · right
      have hfree := vfsFreePathResolution_freed hheap ht hrest.heap
        (hrest.path.trans ht.path.symm)
      rw [hu, ok_bind]
      dsimp only
      rw [hfree, ok_bind]
      refine ⟨{ u with fs := { u.fs with heap := s.fs.heap } }, ?_, rfl, hrest.root,
        ⟨⟨hrest.nodes.shape⟩, hrest.nodes.readers, hrest.nodes.writers⟩⟩
      dsimp only at hstatus htells
      cases status with
      | ok => exact absurd rfl hstatus
      | ended =>
          rw [htells]
          rfl
      | notFound =>
          rw [htells]
          rfl
      | isFile =>
          rw [htells]
          rfl

/-- A path leads to the node that its components name, unless the kernel runs out
of memory on the way, and to none when one is missing or follows a file.  The
cursor stays in the copy of the path, and nothing is left of a resolution. -/
theorem path_resolution (hheap : HeapInv s.fs.heap)
    (hpool : 0 < s.fs.heap.poolStart.toNat)
    (htree : MemoryTree s.toVfsState nodes children)
    (hslash : path.head? = some slash) (h0 : 0 ∉ path) (hlen : path.length < 4096) :
    (LacksMemory s path ∧ vfsGetNodeForPath s path = panic .outOfMem ∨
      exists t, vfsGetNodeForPath s path =
          .ok ((reached s.toVfsState children s.vfsRoot (components path)).getD 0, t) ∧
        LeftAlone s t) ∧
    ((reached s.toVfsState children s.vfsRoot (components path)).getD 0 = 0 <->
      Missing s.toVfsState children s.vfsRoot (components path)) ∧
    CursorInside s path := by
  refine ⟨?_, ?_, cursor_inside hheap hpool htree h0 hlen⟩
  · have hroot : pathNode s.toVfsState children path =
        reached s.toVfsState children s.vfsRoot (components path) := by
      unfold pathNode
      rw [laterComponents_root hslash]
    rw [← hroot]
    rcases vfsGetNodeForPath_node hheap hpool htree h0 hlen with
      hlacks | ⟨t, hrun, hsame⟩
    · exact Or.inl hlacks
    · exact Or.inr ⟨t, hrun, hsame.heap, hsame.nodes.readers, hsame.nodes.writers⟩
  · rw [← reached_none_iff]
    cases hto : reached s.toVfsState children s.vfsRoot (components path) with
    | none => exact iff_of_true rfl rfl
    | some q =>
        refine iff_of_false ?_ nofun
        intro hzero
        rw [Option.getD_some] at hzero
        exact htree.nonzero (hzero ▸ htree.reached_mem htree.root hto)

end Paths

/-!
# A mount
-/

def plainNode (name : List Byte) (flags child redirect : Word) : Node :=
  ⟨name, flags, 0, 0, 0, 0, .none, child, redirect⟩

/-- The root at 8 with a directory at 12, which is redirected to the one at 16,
where there is a file at 20. -/
def smallPaths : PathState where
  toDeviceState := {
    toVfsState := {
      toKernelState := { smallBoot with
        fs := { smallBoot.fs with
          node := fun p =>
            if p = 8 then plainNode [] directoryFlag 12 0
            else if p = 12 then plainNode [0x61] directoryFlag 0 16
            else if p = 16 then plainNode [] directoryFlag 20 0
            else plainNode [0x62] fileFlag 0 0 } }
      vfsRoot := 8
      devfsRoot := 0
      fileOps := fun _ => .none
      content := fun _ _ => 0
      fatRoot := fun _ => ⟨⟨init64 0 0 0 0, init64 0 0 0 0, init64 0 0 0 0, 0⟩, 0⟩
      fatFile := fun _ => ⟨0, init64 0 0 0 0, fun _ => 0⟩
      stack := fun _ _ => 0
      lookups := 0 }
    blockFile := fun _ => ⟨0, none, by decide⟩
    cachedBlock := emptyCache
    keyb := Keyb.boot }
  resolution := fun _ => ⟨0, 0, 0, 0⟩

theorem smallHeap_notFree {p : Word} (h : p.toNat ≤ 20) : NotFree smallHeap p := by
  intro b hb _ heq
  have hnat := address_toNat smallBoot_boot.heap hb
  have hstart : smallHeap.poolStart.toNat > 20 := by decide +kernel
  rw [heq] at h
  change (smallHeap.address b).toNat = smallHeap.poolStart.toNat + _ at hnat
  omega

def smallPath : List Byte :=
  [0x2f, 0x61, 0x2f, 0x2f, 0x62, 0x2f]

theorem smallPaths_tree : MemoryTree smallPaths.toVfsState {8, 12, 20}
    (fun p => if p = 8 then [12] else [20]) where
  root := Or.inl rfl
  nonzero := by
    intro h
    rcases h with h | h | h <;> cases h
  names := by
    intro p h
    rcases h with rfl | rfl | rfl <;> decide
  noWriter := by
    intro p h _
    rcases h with rfl | rfl | rfl <;> rfl
  noLookup := by
    intro p h _
    rcases h with rfl | rfl | rfl <;> exact nofun
  listed := by
    intro p h hdir
    rcases h with rfl | rfl | rfl
    · exact NextPath.node (by decide) NextPath.done
    · exact NextPath.node (by decide) NextPath.done
    · cases hdir
  inside := by
    intro p h hdir q hq
    rcases h with rfl | rfl | rfl
    · rcases List.mem_singleton.mp hq with rfl
      exact Or.inr (Or.inl rfl)
    · rcases List.mem_singleton.mp hq with rfl
      exact Or.inr (Or.inr rfl)
    · cases hdir

/-- The file behind the mount is found. -/
theorem path_resolution_small :
    exists t, vfsGetNodeForPath smallPaths smallPath = .ok (20, t) ∧
      LeftAlone smallPaths t := by
  have hruns : (vfsGetNodeForPath smallPaths smallPath).toOption.isSome = true := by
    decide +kernel
  have hslash : smallPath.head? = some slash := rfl
  rcases (path_resolution smallBoot_boot.heap smallBoot_boot.pool_pos smallPaths_tree
    hslash (by decide) (by decide)).1 with ⟨_, hpanic⟩ | hfound
  · rw [hpanic] at hruns
    cases hruns
  · exact hfound

end Fs
end Rmmtos
