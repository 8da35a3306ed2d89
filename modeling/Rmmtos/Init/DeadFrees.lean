import Rmmtos.Init.MemoryRuns

/-!
# Releases of what is not allocated

A program may give {lit}`freeMemory` any pointer.  If it is not the address of
a live allocation, either its header is not in the list, or it is that of a
free block, which is merged with no other one and keeps its links.
-/

namespace Rmmtos
namespace Init

open Library

/-- The pointer is released without a change of the block list. -/
def FreeIgnored (h : UserHeap) (bs : List Word) (p : Word) : Prop :=
  exists h', freeMemory h p = .ok h' ∧ h'.first = h.first ∧ h'.overblock = h.overblock ∧
    NextPath (next h'.mem) h'.overblock h'.first bs ∧
    forall b, b ∈ bs -> header h'.mem b = header h.mem b

def UserRun.Dead (s : UserRun) (p : Word) : Prop :=
  forall a, a ∈ s.live -> a.address ≠ p

/-- The steps of a program that may also release what is not allocated. -/
inductive CarelessStep : UserRun -> UserRun -> Prop where
  | user {s s' : UserRun} : UserStep s s' -> CarelessStep s s'
  | free {s : UserRun} {p : Word} {h : UserHeap} :
      s.Dead p -> freeMemory s.heap p = .ok h -> CarelessStep s ⟨h, s.live⟩

section DeadFrees

variable {h : UserHeap} {bs : List Word}

theorem BlockList.before_free {c : Word} {pre post : List Word}
    (hbs : BlockList h (pre ++ c :: post)) (hfree : isFree h.mem c = true) {a : Word}
    (ha : a ∈ pre.getLast?) : isFree h.mem a = false := by
  have hchain := (List.isChain_append.mp hbs.coalesced).2.2 a ha c rfl
  cases hcase : isFree h.mem a with
  | false => rfl
  | true =>
      rw [hchain hcase] at hfree
      cases hfree

theorem BlockList.behind_free {c : Word} {pre post : List Word}
    (hbs : BlockList h (pre ++ c :: post)) (hfree : isFree h.mem c = true) {a : Word}
    (ha : a ∈ post.head?) : isFree h.mem a = false := by
  have hrest := (List.isChain_append.mp hbs.coalesced).2.1
  exact (List.isChain_cons.mp hrest).1 a ha hfree

theorem BlockList.link_same {m : UserMem} {c : Word} {pre post : List Word}
    (hbs : BlockList h (pre ++ c :: post))
    (hsame : forall b, b ∈ pre ++ c :: post -> header m b = header h.mem b) {b : Word}
    (hb : b ∈ pre ++ c :: post) :
    header (link m c (post.headD h.overblock)) b = header h.mem b := by
  have hc : c ∈ pre ++ c :: post := by
    simp
  have hlist : HeaderList h (pre ++ c :: ([] ++ post)) := hbs.toHeaderList
  rcases hlist.link_place fun _ => hbs.first_pos with ⟨hl, hne⟩
  have hnext := hbs.next_eq
  by_cases hbc : b = c
  · subst hbc
    rw [hbs.link_first hc hl hne, hsame b hb, ← hnext]
    rfl
  · by_cases hbl : b = post.headD h.overblock
    · cases post with
      | nil => exact absurd hbl (hbs.ne_over hb)
      | cons l rest =>
          change b = l at hbl
          subst hbl
          have hprev : prev h.mem b = c := (linked_append.mp hbs.linked).2.2.2.1
          have hlast := hbs.link_last (m := m) hc hb hbc
          change header (link m c b) b = _
          rw [hlast, hsame b hb, ← hprev]
          rfl
    · rw [hbs.link_other hc hl hb hbc hbl, hsame b hb]

theorem freeMemory_free (hbs : BlockList h bs) {c : Word} (hc : c ∈ bs)
    (hfree : isFree h.mem c = true) :
    exists m, freeMemory h (c + headerSize) = .ok { h with mem := m } ∧
      forall b, b ∈ bs -> header m b = header h.mem b := by
  have hself : header (setFree h.mem c true) c = header h.mem c := by
    rw [header_setFree, ← hfree]
    rfl
  have hsame : forall b, b ∈ bs -> header (setFree h.mem c true) b = header h.mem b := by
    intro b hb
    by_cases hbc : b = c
    · rw [hbc]
      exact hself
    · exact hbs.setFree_other hb hc hbc true
  have hkept : forall b, b ∈ bs ->
      isFree (setFree h.mem c true) b = isFree h.mem b :=
    fun b hb => congrArg Header.free (hsame b hb)
  have hlinked := hbs.setFree_linked hc true
  have hwalk : walkBlocks h (fun b => b == c + headerSize - headerSize) =
      .ok (some c) := hbs.walk_header hc
  rcases List.append_of_mem hc with ⟨pre, post, rfl⟩
  have hrun : forall b, b ∈ [] ++ c :: [] -> isFree (setFree h.mem c true) b = true := by
    intro b hb
    rw [List.mem_singleton.mp hb, hkept c hc, hfree]
  have hbefore : forall a, a ∈ pre.getLast? ->
      isFree (setFree h.mem c true) a = false := by
    intro a ha
    rw [hkept a (List.mem_append_left _ (List.mem_of_getLast? ha))]
    exact hbs.before_free hfree ha
  have hafter : forall a, a ∈ post.head? ->
      isFree (setFree h.mem c true) a = false := by
    intro a ha
    have hmem := List.mem_cons_of_mem c (List.mem_of_head? ha)
    rw [hkept a (List.mem_append_right _ hmem)]
    exact hbs.behind_free hfree ha
  have hlist : pre ++ [] ++ c :: ([] ++ post) = pre ++ c :: post := by
    rw [List.append_nil, List.nil_append]
  rw [← hlist] at hbs hlinked
  have hmerge := mergeFreeBlocks_eq hbs hlinked hrun hbefore hafter
  rw [hlist] at hbs
  refine ⟨_, ?_, fun b hb => hbs.link_same hsame hb⟩
  rw [freeMemory, hwalk, ok_bind]
  exact hmerge

end DeadFrees

section CarelessRuns

variable {s : UserRun} {bs : List Word}

theorem UserRunInv.dead_free (hs : UserRunInv s bs) {p : Word} (hdead : s.Dead p)
    (hp : p - headerSize ∈ bs) : isFree s.heap.mem (p - headerSize) = true := by
  cases hcase : isFree s.heap.mem (p - headerSize) with
  | true => rfl
  | false =>
      rcases hs.taken_live _ _ ⟨hp, hcase, rfl⟩ with ⟨a, ha, haddress⟩
      rw [BitVec.sub_add_cancel] at haddress
      exact absurd haddress (hdead a ha)

/-- Releasing a dead pointer changes no header of the list. -/
theorem UserRunInv.free_dead (hs : UserRunInv s bs) {p : Word} (hdead : s.Dead p) :
    exists m, freeMemory s.heap p = .ok { s.heap with mem := m } ∧
      forall b, b ∈ bs -> header m b = header s.heap.mem b := by
  by_cases hp : p - headerSize ∈ bs
  · have hfree := freeMemory_free hs.list hp (hs.dead_free hdead hp)
    rw [BitVec.sub_add_cancel] at hfree
    exact hfree
  · exact ⟨s.heap.mem, freeMemory_unlisted hs.list.toHeaderList hp, fun b _ => rfl⟩

theorem userRunInv_careless {s' : UserRun} (hs : UserRunInv s bs)
    (hstep : CarelessStep s s') : exists bs', UserRunInv s' bs' := by
  cases hstep with
  | user hstep => exact userRunInv_step hs hstep
  | free hdead hrun =>
      rcases hs.free_dead hdead with ⟨m, hfree, hsame⟩
      rw [hfree] at hrun
      cases hrun
      have htaken : forall c e, Taken { s.heap with mem := m } bs c e <->
          Taken s.heap bs c e := by
        intro c e
        refine and_congr_right fun hc => ?_
        have hparts := header_parts (hsame c hc)
        change isFree m c = false ∧ next m c = e <-> _
        rw [hparts.2.1, hparts.2.2]
      refine ⟨bs, hs.list.congr hsame, hs.live_nodup, ?_, ?_⟩
      · intro a ha
        rcases hs.live_taken a ha with ⟨c, e, hc, hrest⟩
        exact ⟨c, e, (htaken c e).mpr hc, hrest⟩
      · exact fun c e hc => hs.taken_live c e ((htaken c e).mp hc)

theorem freeIgnored_of_inv (hs : UserRunInv s bs) {p : Word} (hdead : s.Dead p) :
    FreeIgnored s.heap bs p := by
  rcases hs.free_dead hdead with ⟨m, hfree, hsame⟩
  exact ⟨_, hfree, rfl, rfl, (hs.list.congr hsame).path, hsame⟩

end CarelessRuns

/-- In every pool that does not start at the null pointer, the release of what is
not allocated ends and leaves the block list as it is. -/
theorem dead_free_ignored (m : UserMem) (start finish : Word)
    (hpos : 0 < start) (hhigh : finish < 0xffff)
    (hroom : start.toNat + 6 ≤ finish.toNat + 1) {s : UserRun}
    (hs : Reachable (fun s => s = ⟨mallocInit m start finish, []⟩) CarelessStep s) :
    exists bs, NextPath (next s.heap.mem) s.heap.overblock s.heap.first bs ∧
      forall p, s.Dead p -> FreeIgnored s.heap bs p := by
  have hinv : exists bs, UserRunInv s bs := by
    refine hs.invariant (I := fun s => exists bs, UserRunInv s bs) ?_ ?_
    · rintro s rfl
      exact ⟨[start], userRunInv_start m hpos hhigh hroom⟩
    · rintro s s' ⟨bs, hbs⟩ hstep
      exact userRunInv_careless hbs hstep
  rcases hinv with ⟨bs, hbs⟩
  exact ⟨bs, hbs.list.path, fun p hdead => freeIgnored_of_inv hbs hdead⟩

theorem reachable_careless {start : UserRun -> Prop} {s : UserRun}
    (hs : Reachable start UserStep s) : Reachable start CarelessStep s :=
  hs.invariant (fun _ h => .start h) fun _ _ h hstep => .step h (.user hstep)

theorem dead_free_ignored_small_pool :
    exists bs, NextPath (next smallPool.heap.mem) smallPool.heap.overblock
        smallPool.heap.first bs ∧
      forall p, smallPool.Dead p -> FreeIgnored smallPool.heap bs p :=
  dead_free_ignored (fun _ => 0) 10 69 (by decide) (by decide) (by decide)
    (reachable_careless smallPool_reachable)

/-- In a pool that starts at the null pointer the first two blocks may both be
free.  Releasing the first one again merges them. -/
theorem dead_free_null_pool :
    ¬ forall (m : UserMem) (start finish : Word), finish < 0xffff ->
      start.toNat + 6 ≤ finish.toNat + 1 -> forall s,
      Reachable (fun s => s = ⟨mallocInit m start finish, []⟩) CarelessStep s ->
      exists bs, NextPath (next s.heap.mem) s.heap.overblock s.heap.first bs ∧
        forall p, s.Dead p -> FreeIgnored s.heap bs p := by
  intro hall
  have hdead : forall a, a ∈ unmergedPool.live -> a.address ≠ 6 := by
    decide +kernel
  have hnext : next unmergedPool.heap.mem unmergedPool.heap.first = 10 := by
    decide +kernel
  have hmerged : ((freeMemory unmergedPool.heap 6).toOption.map fun h =>
      next h.mem unmergedPool.heap.first) = some 20 := by
    decide +kernel
  rcases hall _ 0 59 (by decide) (by decide) _
    (reachable_careless unmergedPool_reachable) with ⟨bs, hpath, hignored⟩
  rcases hignored 6 hdead with ⟨h', hfree, _, _, _, hsame⟩
  rcases hpath.exists_rest (by decide +kernel) with ⟨rest, rfl, _⟩
  have hkept := congrArg Header.next (hsame _ List.mem_cons_self)
  change next h'.mem _ = next unmergedPool.heap.mem _ at hkept
  rw [hfree] at hmerged
  change some (next h'.mem unmergedPool.heap.first) = some 20 at hmerged
  rw [hkept, hnext] at hmerged
  exact absurd hmerged (by decide)

end Init
end Rmmtos
