import Rmmtos.Init.Memory

/-!
# The block list of the user heap

The headers in the pool form a linked list in the order of their addresses.
Every operation of the allocator is first described by the headers it changes,
and then by the new list.
-/

namespace Rmmtos
namespace Init

open Library

/-!
# Headers

A write of a header field changes that field and no other header.
-/

structure Header where
  prev : Word
  next : Word
  free : Bool
deriving DecidableEq, Repr

def header (m : UserMem) (b : Word) : Header :=
  ⟨prev m b, next m b, isFree m b⟩

theorem header_congr {m m' : UserMem} {b : Word}
    (hsame : forall x, x - b < 6 -> m' x = m x) :
    header m' b = header m b := by
  have hbyte : forall k : Word, k < 6 -> m' (b + k) = m (b + k) := by
    intro k hk
    exact hsame (b + k) (by bv_omega)
  have h0 : m' b = m b := hsame b (by bv_omega)
  have h1 := hbyte 1 (by decide)
  have h2 := hbyte 2 (by decide)
  have h3 := hbyte 3 (by decide)
  have h4 := hbyte 4 (by decide)
  have hassoc : b + 2 + 1 = b + 3 := by bv_omega
  simp only [header, prev, next, isFree, readw, hassoc, h0, h1, h2, h3, h4]

theorem header_parts {m m' : UserMem} {a b : Word}
    (hsame : header m' b = header m a) :
    prev m' b = prev m a ∧ next m' b = next m a ∧ isFree m' b = isFree m a := by
  simpa only [header, Header.mk.injEq] using hsame

theorem readw_writew (m : UserMem) (a v : Word) :
    readw (writew m a v) a = v := by
  have hne : a ≠ a + 1 := by bv_omega
  rw [readw, writew, Function.update_self, Function.update_of_ne hne,
    Function.update_self]
  ext i hi
  simp only [BitVec.getElem_append, BitVec.getElem_extractLsb']
  split
  · rw [Nat.zero_add]
    rfl
  · have hsum : 8 + (i - 8) = i := by omega
    rw [hsum]
    rfl

theorem writew_other {m : UserMem} {a v x : Word}
    (hlow : x ≠ a) (hhigh : x ≠ a + 1) :
    writew m a v x = m x := by
  rw [writew, Function.update_of_ne hhigh, Function.update_of_ne hlow]

theorem readw_writew_other {m : UserMem} {a v x : Word}
    (hlow : x ≠ a) (hnext : x ≠ a + 1) (hprev : x + 1 ≠ a) :
    readw (writew m a v) x = readw m x := by
  have hlast : x + 1 ≠ a + 1 := by bv_omega
  rw [readw, readw, writew_other hlow hnext, writew_other hprev hlast]

theorem header_setPrev (m : UserMem) (b v : Word) :
    header (setPrev m b v) b = { header m b with prev := v } := by
  have h2 : readw (writew m b v) (b + 2) = readw m (b + 2) :=
    readw_writew_other (by bv_omega) (by bv_omega) (by bv_omega)
  have h4 : writew m b v (b + 4) = m (b + 4) :=
    writew_other (by bv_omega) (by bv_omega)
  simp only [header, prev, next, isFree, setPrev, readw_writew, h2, h4]

theorem header_setNext (m : UserMem) (b v : Word) :
    header (setNext m b v) b = { header m b with next := v } := by
  have h0 : readw (writew m (b + 2) v) b = readw m b :=
    readw_writew_other (by bv_omega) (by bv_omega) (by bv_omega)
  have h4 : writew m (b + 2) v (b + 4) = m (b + 4) :=
    writew_other (by bv_omega) (by bv_omega)
  simp only [header, prev, next, isFree, setNext, readw_writew, h0, h4]

theorem header_setFree (m : UserMem) (b : Word) (free : Bool) :
    header (setFree m b free) b = { header m b with free := free } := by
  have hother : forall x, x ≠ b + 4 -> setFree m b free x = m x := by
    intro x hx
    rw [setFree, Function.update_of_ne hx]
  have h0 := hother b (by bv_omega)
  have h1 := hother (b + 1) (by bv_omega)
  have h2 := hother (b + 2) (by bv_omega)
  have h3 := hother (b + 2 + 1) (by bv_omega)
  have h4 : (setFree m b free (b + 4)).getLsbD 0 = free := by
    rw [setFree, Function.update_self]
    cases free <;> simp
  simp only [header, prev, next, isFree, readw, h0, h1, h2, h3, h4]

theorem header_setPrev_other {m : UserMem} {a b v : Word}
    (hlow : 6 ≤ a - b) (hhigh : 6 ≤ a + 1 - b) :
    header (setPrev m a v) b = header m b := by
  apply header_congr
  intro x hx
  exact writew_other (by bv_omega) (by bv_omega)

/-- Two headers that do not overlap. -/
def HeadersApart (a b : Word) : Prop :=
  6 ≤ a - b ∧ 6 ≤ b - a

theorem HeadersApart.symm {a b : Word} (h : HeadersApart a b) :
    HeadersApart b a :=
  ⟨h.2, h.1⟩

instance : Std.Symm HeadersApart := ⟨fun _ _ h => h.symm⟩

theorem headersApart_of_le {a b : Word}
    (hle : a.toNat + 6 ≤ b.toNat) (hfit : b.toNat + 6 ≤ wordCount) :
    HeadersApart a b := by
  unfold wordCount at hfit
  constructor <;> bv_omega

theorem HeadersApart.setPrev {m : UserMem} {a b v : Word}
    (h : HeadersApart a b) :
    header (setPrev m a v) b = header m b := by
  rcases h with ⟨hab, hba⟩
  exact header_setPrev_other hab (by bv_omega)

theorem HeadersApart.setNext {m : UserMem} {a b v : Word}
    (h : HeadersApart a b) :
    header (setNext m a v) b = header m b := by
  rcases h with ⟨hab, hba⟩
  exact header_setPrev_other (by bv_omega) (by bv_omega)

theorem HeadersApart.setFree {m : UserMem} {a b : Word}
    (h : HeadersApart a b) (free : Bool) :
    header (setFree m a free) b = header m b := by
  rcases h with ⟨hab, hba⟩
  apply header_congr
  intro x hx
  rw [Init.setFree, Function.update_of_ne]
  bv_omega

/-!
# The block list
-/

/-- The headers at {lit}`bs` are linked both ways, one after the other from
{lit}`first` to {lit}`overblock`. -/
structure HeaderList (h : UserHeap) (bs : List Word) : Prop where
  head : bs.head? = some h.first
  linked : Linked (prev h.mem) (next h.mem) 0 bs h.overblock
  spaced : (bs ++ [h.overblock]).Pairwise
    (fun a b => a.toNat + 6 ≤ b.toNat)

/-- The headers at {lit}`bs` are the block list of the heap: none of them is at the
null pointer, and no two neighbours are free. -/
structure BlockList (h : UserHeap) (bs : List Word) : Prop extends HeaderList h bs where
  first_pos : 0 < h.first.toNat
  coalesced : bs.IsChain
    (fun a b => isFree h.mem a = true -> isFree h.mem b = false)

def Taken (h : UserHeap) (bs : List Word) (b e : Word) : Prop :=
  b ∈ bs ∧ isFree h.mem b = false ∧ next h.mem b = e

section BlockList

variable {h : UserHeap} {bs : List Word}

theorem HeaderList.head_le (hbs : HeaderList h bs) {b : Word} (hb : b ∈ bs) :
    h.first.toNat ≤ b.toNat := by
  rcases List.head?_eq_some_iff.mp hbs.head with ⟨rest, rfl⟩
  rcases List.mem_cons.mp hb with rfl | hb
  · exact Nat.le_refl _
  · have hspaced := List.rel_of_pairwise_cons hbs.spaced
      (List.mem_append_left _ hb)
    omega

theorem HeaderList.end_le (hbs : HeaderList h bs) {b : Word} (hb : b ∈ bs) :
    b.toNat + 6 ≤ h.overblock.toNat := by
  have hpairs := (List.pairwise_append.mp hbs.spaced).2.2
  exact hpairs b hb h.overblock (by simp)

theorem BlockList.pos (hbs : BlockList h bs) {b : Word} (hb : b ∈ bs) :
    0 < b.toNat :=
  Nat.lt_of_lt_of_le hbs.first_pos (hbs.head_le hb)

theorem HeaderList.first_mem (hbs : HeaderList h bs) : h.first ∈ bs :=
  List.mem_of_head? hbs.head

theorem HeaderList.ne_over (hbs : HeaderList h bs) {b : Word} (hb : b ∈ bs) :
    b ≠ h.overblock := by
  intro heq
  have hend := hbs.end_le hb
  rw [heq] at hend
  omega

theorem BlockList.ne_zero (hbs : BlockList h bs) {b : Word} (hb : b ∈ bs) :
    b ≠ 0 := by
  intro heq
  have hpos := hbs.pos hb
  rw [heq] at hpos
  exact absurd hpos (by decide)

/-- Only the first header may be at the null pointer. -/
theorem HeaderList.tail_ne_zero (hbs : HeaderList h bs) {b : Word} (hb : b ∈ bs.tail) :
    b ≠ 0 := by
  rcases List.head?_eq_some_iff.mp hbs.head with ⟨rest, rfl⟩
  have hspaced := List.rel_of_pairwise_cons hbs.spaced (List.mem_append_left _ hb)
  intro heq
  rw [heq] at hspaced
  exact absurd hspaced (Nat.not_le_of_lt (Nat.lt_add_left _ (by decide)))

theorem HeaderList.over_ne_zero (hbs : HeaderList h bs) : h.overblock ≠ 0 := by
  intro heq
  have hend := hbs.end_le hbs.first_mem
  rw [heq] at hend
  simp at hend

theorem spaced_apart {xs : List Word} {q a b : Word}
    (hspaced : (xs ++ [q]).Pairwise (fun a b => a.toNat + 6 ≤ b.toNat))
    (ha : a ∈ xs) (hb : b ∈ xs) (hne : a ≠ b) :
    HeadersApart a b := by
  rcases List.pairwise_append.mp hspaced with ⟨hinner, _, hend⟩
  have hpairs : xs.Pairwise HeadersApart := by
    refine hinner.imp_of_mem fun {x y} _ hy hle => ?_
    have hy := hend y hy q (by simp)
    have hq := q.isLt
    exact headersApart_of_le hle (by unfold wordCount; omega)
  exact hpairs.forall ha hb hne

theorem HeaderList.apart (hbs : HeaderList h bs) {a b : Word}
    (ha : a ∈ bs) (hb : b ∈ bs) (hne : a ≠ b) :
    HeadersApart a b :=
  spaced_apart hbs.spaced ha hb hne

theorem spaced_nodup {xs : List Word}
    (hspaced : xs.Pairwise (fun a b => a.toNat + 6 ≤ b.toNat)) :
    xs.Nodup := by
  refine hspaced.imp fun {a b} hle heq => ?_
  rw [heq] at hle
  omega

theorem HeaderList.nodup (hbs : HeaderList h bs) : bs.Nodup :=
  spaced_nodup (List.pairwise_append.mp hbs.spaced).1

theorem HeaderList.congr (hbs : HeaderList h bs) {m : UserMem}
    (hsame : forall b, b ∈ bs -> header m b = header h.mem b) :
    HeaderList { h with mem := m } bs := by
  refine ⟨hbs.head, hbs.linked.congr fun b hb => ?_, hbs.spaced⟩
  have hparts := header_parts (hsame b hb)
  exact ⟨hparts.1, hparts.2.1⟩

theorem BlockList.congr (hbs : BlockList h bs) {m : UserMem}
    (hsame : forall b, b ∈ bs -> header m b = header h.mem b) :
    BlockList { h with mem := m } bs where
  toHeaderList := hbs.toHeaderList.congr hsame
  first_pos := hbs.first_pos
  coalesced := by
    refine hbs.coalesced.imp_of_mem_imp fun a b ha hb hab hfree => ?_
    have hfreeA := congrArg Header.free (hsame a ha)
    have hfreeB := congrArg Header.free (hsame b hb)
    exact hfreeB.trans (hab (hfreeA.symm.trans hfree))

theorem HeaderList.setFree_other (hbs : HeaderList h bs) {b c : Word}
    (hb : b ∈ bs) (hc : c ∈ bs) (hne : b ≠ c) (free : Bool) :
    header (setFree h.mem c free) b = header h.mem b :=
  (hbs.apart hc hb hne.symm).setFree free

theorem HeaderList.setFree_linked (hbs : HeaderList h bs) {c : Word}
    (hc : c ∈ bs) (free : Bool) :
    Linked (prev (setFree h.mem c free)) (next (setFree h.mem c free)) 0 bs
      h.overblock := by
  refine hbs.linked.congr fun b hb => ?_
  by_cases hbc : b = c
  · subst hbc
    have hsame := header_setFree h.mem b free
    exact ⟨congrArg Header.prev hsame, congrArg Header.next hsame⟩
  · have hparts := header_parts
      (hbs.setFree_other hb hc hbc free)
    exact ⟨hparts.1, hparts.2.1⟩

theorem HeaderList.marked (hbs : HeaderList h bs) {c : Word} (hc : c ∈ bs)
    (free : Bool) : HeaderList { h with mem := setFree h.mem c free } bs :=
  ⟨hbs.head, hbs.setFree_linked hc free, hbs.spaced⟩

theorem spaced_length {q : Word} (lo : Nat) (hlo : lo ≤ q.toNat)
    (hspaced : (bs ++ [q]).Pairwise (fun a b => a.toNat + 6 ≤ b.toNat))
    (hbs : forall b, b ∈ bs -> lo ≤ b.toNat) :
    lo + 6 * bs.length ≤ q.toNat := by
  induction bs generalizing lo with
  | nil => simpa using hlo
  | cons b rest ih =>
      rcases List.pairwise_cons.mp hspaced with ⟨hb, hrest⟩
      have hq := hb q (by simp)
      have hstep := ih (b.toNat + 6) hq hrest
        (fun c hc => hb c (List.mem_append_left _ hc))
      have hlob := hbs b (by simp)
      rw [List.length_cons]
      omega

theorem HeaderList.length_lt (hbs : HeaderList h bs) :
    bs.length < wordCount := by
  have hlen := spaced_length 0 (Nat.zero_le _) hbs.spaced
    (fun b _ => Nat.zero_le _)
  have hover := h.overblock.isLt
  unfold wordCount
  omega

theorem HeaderList.headD_eq (hbs : HeaderList h bs) : bs.headD h.overblock = h.first := by
  rw [List.headD_eq_head?_getD, hbs.head, Option.getD_some]

theorem HeaderList.path (hbs : HeaderList h bs) :
    NextPath (next h.mem) h.overblock h.first bs := by
  rw [← hbs.headD_eq]
  exact hbs.linked.nextPath fun hmem => hbs.ne_over hmem rfl

end BlockList

/-!
# The traversal
-/

section Walk

variable {h : UserHeap} {wanted : Word -> Bool}

theorem walk_turn (n : Nat) (b : Word) :
    whileLoop Stop.hang Walk.running (fun w => .ok (walkStep h wanted w)) (n + 1)
      (.visit b) =
      whileLoop Stop.hang Walk.running (fun w => .ok (walkStep h wanted w)) n
        (walkStep h wanted (.visit b)) :=
  whileLoop_turn n rfl rfl

theorem walkStep_ended : walkStep h wanted (.visit h.overblock) = .ended := by
  simp [walkStep]

theorem walkStep_found {b : Word} (hb : b ≠ h.overblock)
    (hwanted : wanted b = true) :
    walkStep h wanted (.visit b) = .found b := by
  simp [walkStep, hb, hwanted]

theorem walkStep_next {b : Word} (hb : b ≠ h.overblock)
    (hwanted : wanted b = false) (hnext : next h.mem b ≠ 0) :
    walkStep h wanted (.visit b) = .visit (next h.mem b) := by
  simp only [walkStep, beq_iff_eq, hb, hwanted, hnext, if_false,
    Bool.false_eq_true]

/-- The outcome of a search as the loop leaves it. -/
def Walk.ofFind : Option Word -> Walk
  | some b => .found b
  | none => .ended

theorem walk_linked {p : Word} {bs : List Word} {n : Nat}
    (hlinked : Linked (prev h.mem) (next h.mem) p bs h.overblock)
    (hbs : forall b, b ∈ bs -> b ≠ h.overblock)
    (htail : forall b, b ∈ bs.tail -> b ≠ 0)
    (hover : h.overblock ≠ 0) (hn : bs.length < n) :
    whileLoop Stop.hang Walk.running (fun w => .ok (walkStep h wanted w)) n
      (.visit (bs.headD h.overblock)) =
      .ok (Walk.ofFind (bs.find? wanted)) := by
  induction bs generalizing p n with
  | nil =>
      cases n with
      | zero => simp at hn
      | succ n =>
          rw [walk_turn, List.headD_nil, walkStep_ended]
          exact whileLoop_done n rfl
  | cons b rest ih =>
      cases n with
      | zero => simp at hn
      | succ n =>
          rcases hlinked with ⟨_, hnext, hrest⟩
          have hb := hbs b List.mem_cons_self
          rw [walk_turn, List.headD_cons, List.find?_cons]
          cases hwanted : wanted b with
          | true =>
              rw [walkStep_found hb hwanted]
              exact whileLoop_done n rfl
          | false =>
              have hgo : next h.mem b ≠ 0 := by
                rw [hnext]
                cases rest with
                | nil => exact hover
                | cons c _ => exact htail c List.mem_cons_self
              rw [walkStep_next hb hwanted hgo, hnext]
              exact ih hrest (fun c hc => hbs c (List.mem_cons_of_mem b hc))
                (fun c hc => htail c (List.mem_of_mem_tail hc)) (by simpa using hn)

theorem walkBlocks_eq {bs : List Word} (hbs : HeaderList h bs) :
    walkBlocks h wanted = .ok (bs.find? wanted) := by
  rw [walkBlocks, ← hbs.headD_eq, walk_linked hbs.linked (fun b hb => hbs.ne_over hb)
    (fun b hb => hbs.tail_ne_zero hb) hbs.over_ne_zero hbs.length_lt, ok_bind]
  cases bs.find? wanted <;> rfl

end Walk

end Init
end Rmmtos
