import Rmmtos.Init.MemoryRuns

/-!
# The stores of the allocator

Every store to a header is recorded with its field.  The stores of a call make
up what the call does to the memory.  They stay inside the pool, but for the
one by which {lit}`mergeFreeBlocks` makes the end of the pool point back.
-/

namespace Rmmtos
namespace Init

open Library

inductive HeaderStore where
  | prev (block value : Word)
  | next (block value : Word)
  | free (block : Word) (value : Bool)
deriving DecidableEq, Repr

def HeaderStore.address : HeaderStore -> Word
  | .prev block _ => block
  | .next block _ => block + 2
  | .free block _ => block + 4

def HeaderStore.run (m : UserMem) : HeaderStore -> UserMem
  | .prev block value => setPrev m block value
  | .next block value => setNext m block value
  | .free block value => setFree m block value

def runStores (m : UserMem) (stores : List HeaderStore) : UserMem :=
  stores.foldl HeaderStore.run m

/-!
# The stores of each call
-/

/-- The stores of {lit}`malloc_init`. -/
def initStores (start finish : Word) : List HeaderStore :=
  [.prev start 0, .next start (finish + 1), .free start true]

def splitStores (h : UserHeap) (curr size : Word) : List HeaderStore :=
  if headerSize + size < payloadSize h.mem curr then
    let newHead := curr + headerSize + size
    let m := setupHeader h.mem newHead (next h.mem curr) curr
    [.next newHead (next h.mem curr), .prev newHead curr, .free newHead true] ++
      (if next m curr != h.overblock then [.prev (next m curr) newHead] else []) ++
      [.next curr newHead]
  else []

def allocateStores (h : UserHeap) (size : Word) : Result (List HeaderStore) := do
  match ← walkBlocks h
      (fun b => isFree h.mem b && decide (size ≤ payloadSize h.mem b)) with
  | some curr => .ok (splitStores h curr size ++ [.free curr false])
  | none => .ok []

def mergeStores (h : UserHeap) (block : Word) : Result (List HeaderStore) := do
  let firstBlock ← firstFree h.mem block
  let lastBlock ← lastFree h.mem h.overblock block
  .ok [.next firstBlock lastBlock, .prev lastBlock firstBlock]

def freeStores (h : UserHeap) (block : Word) : Result (List HeaderStore) := do
  match ← walkBlocks h (fun b => b == block - headerSize) with
  | some curr =>
      mergeStores { h with mem := setFree h.mem curr true } curr >>= fun stores =>
        .ok (.free curr true :: stores)
  | none => .ok []

theorem mallocInit_stores (m : UserMem) (start finish : Word) :
    (mallocInit m start finish).mem =
      runStores (clearMemory m start (finish + 1 - start - 1)) (initStores start finish) :=
  rfl

theorem splitStores_run (h : UserHeap) (curr size : Word) :
    runStores h.mem (splitStores h curr size) = splitBlock h curr size := by
  unfold splitStores splitBlock
  split
  · dsimp only
    unfold setupNext
    split <;> rfl
  · rfl

theorem allocateMemory_stores (h : UserHeap) (size : Word) :
    (allocateMemory h size >>= fun r => .ok r.2) =
      allocateStores h size >>= fun stores =>
        .ok { h with mem := runStores h.mem stores } := by
  unfold allocateMemory allocateStores
  cases walkBlocks h
      (fun b => isFree h.mem b && decide (size ≤ payloadSize h.mem b)) with
  | error e => rfl
  | ok found =>
      cases found with
      | none => rfl
      | some curr =>
          have hrun : runStores h.mem (splitStores h curr size ++ [.free curr false]) =
              setFree (splitBlock h curr size) curr false := by
            unfold runStores
            rw [List.foldl_append]
            exact congrArg (fun m => setFree m curr false) (splitStores_run h curr size)
          simp only [ok_bind, hrun]

theorem freeMemory_stores (h : UserHeap) (block : Word) :
    freeMemory h block =
      freeStores h block >>= fun stores =>
        .ok { h with mem := runStores h.mem stores } := by
  unfold freeMemory freeStores
  cases walkBlocks h (fun b => b == block - headerSize) with
  | error e => rfl
  | ok found =>
      cases found with
      | none => rfl
      | some curr =>
          simp only [ok_bind, mergeFreeBlocks, mergeStores]
          cases firstFree (setFree h.mem curr true) curr with
          | error e => rfl
          | ok firstBlock =>
              cases lastFree (setFree h.mem curr true) h.overblock curr with
              | error e => rfl
              | ok lastBlock => rfl

/-!
# Stores inside the pool
-/

def HeaderStore.Inside (h : UserHeap) (store : HeaderStore) : Prop :=
  h.first.toNat ≤ store.address.toNat ∧ store.address.toNat + 2 ≤ h.overblock.toNat

/-- A block that is not free lies behind the block that {lit}`p` is the payload
of, if there is such a block. -/
def Shielded (h : UserHeap) (p : Word) : Prop :=
  forall bs, NextPath (next h.mem) h.overblock h.first bs -> p - headerSize ∈ bs ->
    exists b, b ∈ bs ∧ p - headerSize < b ∧ isFree h.mem b = false

/-- The calls of a program that releases shielded blocks only, and its stores
outside the headers. -/
inductive ShieldedStep : UserHeap -> UserHeap -> Prop where
  | allocate {h h' : UserHeap} {size p : Word} :
      allocateMemory h size = .ok (p, h') -> ShieldedStep h h'
  | free {h h' : UserHeap} {p : Word} :
      Shielded h p -> freeMemory h p = .ok h' -> ShieldedStep h h'
  | store {h : UserHeap} {bs : List Word} {x : Word} {v : Byte} :
      NextPath (next h.mem) h.overblock h.first bs ->
      (forall b, b ∈ bs -> headerSize ≤ x - b) ->
      ShieldedStep h { h with mem := Function.update h.mem x v }

/-- Where the allocator stores in one state of a run. -/
structure StoresInside (h : UserHeap) : Prop where
  allocate : forall size, exists stores, allocateStores h size = .ok stores ∧
    forall store, store ∈ stores -> store.Inside h
  free : forall p, exists stores, freeStores h p = .ok stores ∧
    ((forall store, store ∈ stores -> store.Inside h) <-> Shielded h p)

section Stores

variable {h : UserHeap} {bs : List Word}

theorem inside_of_room {b : Word} (hlow : h.first.toNat ≤ b.toNat)
    (hhigh : b.toNat + 6 ≤ h.overblock.toNat) {store : HeaderStore}
    (hstore : store.address = b ∨ store.address = b + 2 ∨ store.address = b + 4) :
    store.Inside h := by
  have hover := h.overblock.isLt
  unfold HeaderStore.Inside
  rcases hstore with heq | heq | heq
  · rw [heq]
    omega
  · have hsum : (b + 2).toNat = b.toNat + 2 :=
      BitVec.toNat_add_of_lt (by change b.toNat + 2 < 65536; omega)
    rw [heq, hsum]
    omega
  · have hsum : (b + 4).toNat = b.toNat + 4 :=
      BitVec.toNat_add_of_lt (by change b.toNat + 4 < 65536; omega)
    rw [heq, hsum]
    omega

theorem HeaderList.inside (hbs : HeaderList h bs) {b : Word} (hb : b ∈ bs)
    {store : HeaderStore}
    (hstore : store.address = b ∨ store.address = b + 2 ∨ store.address = b + 4) :
    store.Inside h :=
  inside_of_room (hbs.head_le hb) (hbs.end_le hb) hstore

theorem over_not_inside (f : Word) : ¬ (HeaderStore.prev h.overblock f).Inside h := by
  intro hinside
  have hhigh := hinside.2
  change h.overblock.toNat + 2 ≤ h.overblock.toNat at hhigh
  omega

/-!
# The stores of an allocation
-/

theorem splitStores_inside {c size : Word} {pre post : List Word}
    (hbs : HeaderList h (pre ++ c :: post))
    (hsplit : SplitAt h c (c + headerSize + size)) {store : HeaderStore}
    (hstore : store ∈ splitStores h c size) : store.Inside h := by
  have hnew := hsplit.headerList hbs
  have hc : c ∈ pre ++ c :: post := by
    simp
  have hn : c + headerSize + size ∈ pre ++ c :: (c + headerSize + size) :: post := by
    simp
  have hinside : forall {s : HeaderStore}, s.address = c + headerSize + size ∨
      s.address = c + headerSize + size + 2 ∨ s.address = c + headerSize + size + 4 ->
      s.Inside h :=
    fun hs => inside_of_room (hnew.head_le hn) (hnew.end_le hn) hs
  have hcn : c + headerSize + size ≠ c := by
    intro heq
    have hlow := hsplit.low
    rw [heq] at hlow
    omega
  have hapart := spaced_apart (hsplit.spaced hbs) hn
    (List.mem_append_right _ List.mem_cons_self) hcn
  have hnext : next (setupHeader h.mem (c + headerSize + size) (next h.mem c) c) c =
      post.headD h.overblock := by
    rw [← hbs.next_eq]
    exact congrArg Header.next hapart.setupHeader
  unfold splitStores at hstore
  split at hstore
  · dsimp only at hstore
    rw [hnext] at hstore
    simp only [List.cons_append, List.nil_append, List.mem_cons, List.mem_append,
      List.not_mem_nil, or_false] at hstore
    rcases hstore with rfl | rfl | rfl | hstore | rfl
    · exact hinside (Or.inr (Or.inl rfl))
    · exact hinside (Or.inl rfl)
    · exact hinside (Or.inr (Or.inr rfl))
    · cases post with
      | nil =>
          rw [List.headD_nil, bne_self_eq_false, if_neg Bool.false_ne_true] at hstore
          cases hstore
      | cons l rest =>
          split at hstore
          · rw [List.mem_singleton.mp hstore]
            exact hbs.inside (b := l) (by simp) (Or.inl rfl)
          · cases hstore
    · exact hbs.inside hc (Or.inr (Or.inl rfl))
  · cases hstore

theorem allocateStores_inside (hbs : HeaderList h bs) (size : Word) :
    exists stores, allocateStores h size = .ok stores ∧
      forall store, store ∈ stores -> store.Inside h := by
  rcases allocateMemory_cases hbs size with
    ⟨hfind, _⟩ | ⟨c, hfind, hc, _, hcase⟩
  · refine ⟨[], ?_, nofun⟩
    rw [allocateStores, walkBlocks_eq hbs, hfind, ok_bind]
  · refine ⟨splitStores h c size ++ [.free c false], ?_, ?_⟩
    · rw [allocateStores, walkBlocks_eq hbs, hfind, ok_bind]
    · intro store hstore
      rcases List.mem_append.mp hstore with hstore | hstore
      · rcases hcase with ⟨_, _, hsplit⟩ | hroom
        · rcases List.append_of_mem hc with ⟨pre, post, rfl⟩
          exact splitStores_inside hbs hsplit hstore
        · rw [splitStores, if_neg hroom] at hstore
          cases hstore
      · rw [List.mem_singleton.mp hstore]
        exact hbs.inside hc (Or.inr (Or.inr rfl))

theorem allocateMemory_headerList (hbs : HeaderList h bs) {size p : Word}
    {h' : UserHeap} (hrun : allocateMemory h size = .ok (p, h')) :
    exists bs', HeaderList h' bs' := by
  rcases allocateMemory_cases hbs size with
    ⟨hfind, _⟩ | ⟨c, hfind, hc, _, hcase⟩
  · rw [allocateMemory, walkBlocks_eq hbs, hfind, ok_bind] at hrun
    cases hrun
    exact ⟨bs, hbs⟩
  · rw [allocateMemory, walkBlocks_eq hbs, hfind, ok_bind] at hrun
    cases hrun
    rcases hcase with ⟨hroom, _, hsplit⟩ | hroom
    · rcases List.append_of_mem hc with ⟨pre, post, rfl⟩
      rw [split_mem hroom]
      exact ⟨_, hsplit.headerList hbs⟩
    · rw [splitBlock, if_neg hroom]
      exact ⟨bs, hbs.marked hc false⟩

/-!
# The stores of a release
-/

structure FreeRun (h : UserHeap) (c f : Word) (pre mid post : List Word) : Prop where
  list : HeaderList h (pre ++ f :: (mid ++ post))
  first : firstFree (setFree h.mem c true) c = .ok f
  last : lastFree (setFree h.mem c true) h.overblock c = .ok (post.headD h.overblock)
  mem : c ∈ f :: mid
  run : forall b, b ∈ f :: mid -> c < b -> isFree h.mem b = true
  behind : forall b, b ∈ post.head? -> c < b ∧ isFree h.mem b = false

theorem HeaderList.lt_of_behind {c : Word} {pre post : List Word}
    (hbs : HeaderList h (pre ++ c :: post)) {b : Word} (hb : b ∈ post) : c < b := by
  have hspaced := (List.pairwise_append.mp hbs.spaced).1
  have hrest := (List.pairwise_append.mp hspaced).2.1
  have hle := List.rel_of_pairwise_cons hrest hb
  change c.toNat < b.toNat
  omega

theorem HeaderList.le_of_before {c : Word} {pre post : List Word}
    (hbs : HeaderList h (pre ++ c :: post)) {b : Word} (hb : b ∈ pre) : ¬ c < b := by
  have hspaced := (List.pairwise_append.mp hbs.spaced).1
  have hle := (List.pairwise_append.mp hspaced).2.2 b hb c List.mem_cons_self
  intro hlt
  have hnat : c.toNat < b.toNat := hlt
  omega

theorem HeaderList.freeRun (hbs : HeaderList h bs) {c : Word} (hc : c ∈ bs) :
    exists f pre mid post, bs = pre ++ f :: (mid ++ post) ∧
      FreeRun h c f pre mid post := by
  have hlinked := hbs.setFree_linked hc true
  have hself : isFree (setFree h.mem c true) c = true :=
    congrArg Header.free (header_setFree h.mem c true)
  have hother : forall b, b ∈ bs -> b ≠ c ->
      isFree (setFree h.mem c true) b = isFree h.mem b :=
    fun b hb hbc => congrArg Header.free (hbs.setFree_other hb hc hbc true)
  rcases List.append_of_mem hc with ⟨pre, post, rfl⟩
  have hpost : forall b, b ∈ post -> b ≠ c ∧ b ≠ 0 ∧ c < b := by
    intro b hb
    have hlt := hbs.lt_of_behind hb
    refine ⟨fun heq => ?_, fun heq => ?_, hlt⟩
    · rw [heq] at hlt
      exact absurd hlt (BitVec.lt_irrefl c)
    · rw [heq] at hlt
      exact Nat.not_lt_zero _ hlt
  rcases exists_run (fun b => isFree (setFree h.mem c true) b && b != 0) pre post with
    ⟨pre, back, fwd, post, rfl, rfl, hback, hfwd, hbefore, hafter⟩
  have hrun : forall b, b ∈ fwd -> isFree (setFree h.mem c true) b = true :=
    fun b hb => (Bool.and_eq_true _ _ ▸ hfwd b hb).1
  have hstops : forall b, b ∈ post.head? -> isFree (setFree h.mem c true) b = false := by
    intro b hb
    have hmem := List.mem_append_right fwd (List.mem_of_head? hb)
    have hzero : (b != 0) = true := bne_iff_ne.mpr (hpost b hmem).2.1
    have hnot := hafter b hb
    rw [hzero, Bool.and_true] at hnot
    exact hnot
  rcases hbs.merge_ends hlinked
    (fun b hb => by
      have hboth := hback b hb
      rw [Bool.and_eq_true, bne_iff_ne] at hboth
      exact hboth)
    (fun b hb => by
      rcases List.mem_cons.mp hb with rfl | hb
      · exact hself
      · exact hrun b hb)
    (fun b hb => by
      have hnot := hbefore b hb
      rw [Bool.and_eq_false_iff, bne_eq_false_iff_eq] at hnot
      exact hnot.symm)
    hstops with ⟨hfirst, hlast⟩
  rcases run_shape pre back fwd post c with ⟨f, mid, hfm, hf, hlist⟩
  rw [hf] at hfirst
  refine ⟨f, pre, mid, post, hlist, hlist ▸ hbs, hfirst, hlast, ?_, ?_, ?_⟩
  · rw [← hfm]
    exact List.mem_append_right _ List.mem_cons_self
  · intro b hb hlt
    rw [← hfm] at hb
    rcases List.mem_append.mp hb with hb | hb
    · exact absurd hlt (hbs.le_of_before (List.mem_append_right _ hb))
    · rcases List.mem_cons.mp hb with rfl | hb
      · exact absurd hlt (BitVec.lt_irrefl b)
      · have hmem := hpost b (List.mem_append_left _ hb)
        rw [← hother b (by simp [hb]) hmem.1]
        exact hrun b hb
  · intro b hb
    have hin := List.mem_append_right fwd (List.mem_of_head? hb)
    have hmem := hpost b hin
    refine ⟨hmem.2.2, ?_⟩
    rw [← hother b (List.mem_append_right _ (List.mem_cons_of_mem c hin)) hmem.1]
    exact hstops b hb

/-- The run of a shielded block ends before the pool does, and that of no other. -/
theorem FreeRun.shielded_iff {c f : Word} {pre mid post : List Word}
    (hr : FreeRun h c f pre mid post) {p : Word} (hp : p - headerSize = c) :
    Shielded h p <-> post ≠ [] := by
  have hc : c ∈ pre ++ f :: (mid ++ post) := by
    refine List.mem_append_right pre ?_
    rw [← List.cons_append]
    exact List.mem_append_left post hr.mem
  constructor
  · rintro hshielded rfl
    rcases hshielded _ hr.list.path (hp ▸ hc) with ⟨b, hb, hlt, htaken⟩
    rw [hp] at hlt
    rw [List.append_nil] at hb
    rcases List.mem_append.mp hb with hb | hb
    · have hcf := hr.list.le_of_before hb
      rcases List.mem_cons.mp hr.mem with rfl | hmid
      · exact hcf hlt
      · have hfc := hr.list.lt_of_behind (List.mem_append_left [] hmid)
        exact hcf (BitVec.lt_trans hfc hlt)
    · rw [hr.run b hb hlt] at htaken
      cases htaken
  · intro hpost bs hpath _
    rw [hpath.unique hr.list.path, hp]
    cases post with
    | nil => exact absurd rfl hpost
    | cons b rest =>
        exact ⟨b, by simp, hr.behind b rfl⟩

theorem FreeRun.stores {c f : Word} {pre mid post : List Word}
    (hr : FreeRun h c f pre mid post) {p : Word} (hp : p - headerSize = c) :
    freeStores h p = .ok [.free c true, .next f (post.headD h.overblock),
      .prev (post.headD h.overblock) f] := by
  have hc : c ∈ pre ++ f :: (mid ++ post) := by
    refine List.mem_append_right pre ?_
    rw [← List.cons_append]
    exact List.mem_append_left post hr.mem
  have hwalk := hr.list.walk_header hc
  rw [BitVec.add_sub_cancel, ← hp] at hwalk
  rw [freeStores, hwalk, ok_bind]
  rw [hp]
  simp only [mergeStores, hr.first, hr.last, ok_bind]

theorem freeStores_inside (hbs : HeaderList h bs) (p : Word) :
    exists stores, freeStores h p = .ok stores ∧
      ((forall store, store ∈ stores -> store.Inside h) <-> Shielded h p) := by
  by_cases hp : p - headerSize ∈ bs
  · rcases hbs.freeRun hp with ⟨f, pre, mid, post, rfl, hr⟩
    refine ⟨_, hr.stores rfl, ?_⟩
    rw [hr.shielded_iff rfl]
    have hf : f ∈ pre ++ f :: (mid ++ post) := by
      simp
    constructor
    · rintro hinside rfl
      exact over_not_inside f (hinside _ (by simp))
    · intro hpost store hstore
      simp only [List.mem_cons, List.not_mem_nil, or_false] at hstore
      rcases hstore with rfl | rfl | rfl
      · exact hbs.inside hp (Or.inr (Or.inr rfl))
      · exact hbs.inside hf (Or.inr (Or.inl rfl))
      · cases post with
        | nil => exact absurd rfl hpost
        | cons l rest => exact hbs.inside (b := l) (by simp) (Or.inl rfl)
  · refine ⟨[], ?_, iff_of_true nofun ?_⟩
    · have hnone : bs.find? (fun b => b == p - headerSize) = none := by
        refine List.find?_eq_none.mpr fun b hb heq => ?_
        rw [beq_iff_eq] at heq
        exact hp (heq ▸ hb)
      rw [freeStores, walkBlocks_eq hbs, hnone, ok_bind]
    · intro bs' hpath hmem
      rw [hpath.unique hbs.path] at hmem
      exact absurd hmem hp

theorem freeMemory_headerList (hbs : HeaderList h bs) {p : Word} {h' : UserHeap}
    (hshielded : Shielded h p) (hrun : freeMemory h p = .ok h') :
    exists bs', HeaderList h' bs' := by
  by_cases hp : p - headerSize ∈ bs
  · rcases hbs.freeRun hp with ⟨f, pre, mid, post, rfl, hr⟩
    have hpost := (hr.shielded_iff rfl).mp hshielded
    rw [freeMemory_stores, hr.stores rfl, ok_bind] at hrun
    cases hrun
    exact ⟨_, hbs.link_headerList (fun heq => absurd heq hpost)
      (hbs.setFree_linked hp true)⟩
  · rw [freeMemory_unlisted hbs hp] at hrun
    cases hrun
    exact ⟨bs, hbs⟩

theorem shieldedStep_headerList {h' : UserHeap} (hbs : HeaderList h bs)
    (hstep : ShieldedStep h h') : exists bs', HeaderList h' bs' := by
  cases hstep with
  | allocate hrun => exact allocateMemory_headerList hbs hrun
  | free hshielded hrun => exact freeMemory_headerList hbs hshielded hrun
  | store hpath hx =>
      rw [hpath.unique hbs.path] at hx
      refine ⟨bs, hbs.congr fun b hb => header_congr fun y hy => ?_⟩
      refine Function.update_of_ne (fun heq => ?_) _ _
      have hfar := hx b hb
      rw [heq] at hy
      exact absurd hy (BitVec.not_lt.mpr hfar)

end Stores

theorem initStores_inside_iff (m : UserMem) (start finish : Word) :
    (forall store, store ∈ initStores start finish ->
        store.Inside (mallocInit m start finish)) <->
      finish < 0xffff ∧ start.toNat + 6 ≤ finish.toNat + 1 := by
  constructor
  · intro hinside
    have hlast := hinside (.free start true) (by simp [initStores])
    have hfirst := hinside (.prev start 0) (by simp [initStores])
    unfold HeaderStore.Inside at hlast hfirst
    change start.toNat ≤ (start + 4).toNat ∧ (start + 4).toNat + 2 ≤ (finish + 1).toNat
      at hlast
    constructor <;> bv_omega
  · rintro ⟨hhigh, hroom⟩ store hstore
    have hbs := mallocInit_headerList m hhigh hroom
    simp only [initStores, List.mem_cons, List.not_mem_nil, or_false] at hstore
    rcases hstore with rfl | rfl | rfl
    · exact hbs.inside List.mem_cons_self (Or.inl rfl)
    · exact hbs.inside List.mem_cons_self (Or.inr (Or.inl rfl))
    · exact hbs.inside List.mem_cons_self (Or.inr (Or.inr rfl))

/-- The allocator stores inside its pool as long as the pool holds a header and the
program releases shielded blocks only.  The release of another block stores through
{lit}`overblock`. -/
theorem header_stores_inside_iff (m : UserMem) (start finish : Word) :
    ((forall store, store ∈ initStores start finish ->
        store.Inside (mallocInit m start finish)) <->
      finish < 0xffff ∧ start.toNat + 6 ≤ finish.toNat + 1) ∧
    (finish < 0xffff ∧ start.toNat + 6 ≤ finish.toNat + 1 ->
      forall h, Reachable (fun h => h = mallocInit m start finish) ShieldedStep h ->
        StoresInside h) := by
  refine ⟨initStores_inside_iff m start finish, ?_⟩
  rintro ⟨hhigh, hroom⟩ h hreached
  have hlist : exists bs, HeaderList h bs := by
    refine hreached.invariant (I := fun h => exists bs, HeaderList h bs) ?_ ?_
    · rintro h rfl
      exact ⟨[start], mallocInit_headerList m hhigh hroom⟩
    · rintro h h' ⟨bs, hbs⟩ hstep
      exact shieldedStep_headerList hbs hstep
  rcases hlist with ⟨bs, hbs⟩
  exact ⟨allocateStores_inside hbs, freeStores_inside hbs⟩

theorem userRun_allocate (s : UserRun) (size : Word)
    (hok : (allocateMemory s.heap size).toOption.isSome = true) :
    exists p, allocateMemory s.heap size = .ok (p, (s.allocate size).heap) := by
  rcases ok_of_isSome hok with ⟨⟨p, h⟩, hrun⟩
  refine ⟨p, ?_⟩
  unfold UserRun.allocate
  rw [hrun]

def lastBlockPool : UserRun :=
  (⟨mallocInit (fun _ => 0) 10 69, []⟩ : UserRun).allocate 4

theorem lastBlockPool_run : exists p,
    allocateMemory (mallocInit (fun _ => 0) 10 69) 4 = .ok (p, lastBlockPool.heap) :=
  userRun_allocate ⟨mallocInit (fun _ => 0) 10 69, []⟩ 4 (by decide +kernel)

def twoBlockPool : UserRun :=
  lastBlockPool.allocate 4

theorem twoBlockPool_shielded : Shielded twoBlockPool.heap 16 := by
  have hfirst : twoBlockPool.heap.first = 10 := by
    decide +kernel
  have hnext : next twoBlockPool.heap.mem 10 = 20 := by
    decide +kernel
  have hover : twoBlockPool.heap.overblock = 70 := by
    decide +kernel
  intro bs hpath _
  refine ⟨20, ?_, by decide, by decide +kernel⟩
  rw [hfirst, hover] at hpath
  cases hpath with
  | node _ hrest =>
      rw [hnext] at hrest
      cases hrest with
      | node _ _ => exact List.mem_cons_of_mem _ List.mem_cons_self

/-- The first block of two is given back, and all stores of the next call stay
inside. -/
theorem header_stores_inside_iff_shielded : exists h,
    freeMemory twoBlockPool.heap 16 = .ok h ∧ StoresInside h := by
  rcases ok_of_isSome (r := freeMemory twoBlockPool.heap 16) (by decide +kernel) with
    ⟨h, hfree⟩
  rcases lastBlockPool_run with ⟨p, hfirst⟩
  rcases userRun_allocate lastBlockPool 4 (by decide +kernel) with
    ⟨q, hsecond⟩
  refine ⟨h, hfree, (header_stores_inside_iff (fun _ => 0) 10 69).2
    ⟨by decide, by decide⟩ h ?_⟩
  exact .step (.step (.step (.start rfl) (.allocate hfirst)) (.allocate hsecond))
    (.free twoBlockPool_shielded hfree)

inductive UserCall : UserHeap -> UserHeap -> Prop where
  | allocate {h h' : UserHeap} {size p : Word} :
      allocateMemory h size = .ok (p, h') -> UserCall h h'
  | free {h h' : UserHeap} {p : Word} : freeMemory h p = .ok h' -> UserCall h h'

/-- The release of the last taken block writes the two bytes behind the pool. -/
theorem release_stores_over :
    ¬ forall (m : UserMem) (start finish : Word), finish < 0xffff ->
      start.toNat + 6 ≤ finish.toNat + 1 -> forall h,
      Reachable (fun h => h = mallocInit m start finish) UserCall h ->
      forall p stores, freeStores h p = .ok stores ->
        forall store, store ∈ stores -> store.Inside h := by
  intro hall
  rcases lastBlockPool_run with ⟨p, hrun⟩
  have hreached : Reachable (fun h => h = mallocInit (fun _ => 0) 10 69) UserCall
      lastBlockPool.heap :=
    .step (.start rfl) (.allocate hrun)
  have hstores : (freeStores lastBlockPool.heap 16).toOption =
      some [.free 10 true, .next 10 70, .prev 70 10] := by
    decide +kernel
  have hover : lastBlockPool.heap.overblock = 70 := by
    decide +kernel
  cases hfree : freeStores lastBlockPool.heap 16 with
  | error e =>
      rw [hfree] at hstores
      cases hstores
  | ok stores =>
      rw [hfree] at hstores
      cases hstores
      have hinside := hall _ 10 69 (by decide) (by decide) _ hreached 16 _ hfree
        (.prev 70 10) (by simp)
      rw [← hover] at hinside
      exact over_not_inside 10 hinside

end Init
end Rmmtos
