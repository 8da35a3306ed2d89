import Rmmtos.Init.BlockList

/-!
# Taking user memory

The search ends at the first free block that is large enough.  A block with
room for another header is split, and the block itself is marked taken.
-/

namespace Rmmtos
namespace Init

open Library

section Allocate

variable {h : UserHeap} {bs : List Word}

theorem HeaderList.next_eq {c : Word} {pre post : List Word}
    (hbs : HeaderList h (pre ++ c :: post)) :
    next h.mem c = post.headD h.overblock :=
  (linked_append.mp hbs.linked).2.2.1

theorem HeaderList.next_le (hbs : HeaderList h bs) {c : Word} (hc : c ∈ bs) :
    c.toNat + 6 ≤ (next h.mem c).toNat := by
  rcases List.append_of_mem hc with ⟨pre, post, rfl⟩
  rw [hbs.next_eq]
  have hspaced := hbs.spaced
  rw [List.append_assoc] at hspaced
  have hrest := (List.pairwise_append.mp hspaced).2.1
  cases post with
  | nil => exact List.rel_of_pairwise_cons hrest (by simp)
  | cons l _ => exact List.rel_of_pairwise_cons hrest (by simp)

theorem HeaderList.payloadSize_toNat (hbs : HeaderList h bs) {c : Word}
    (hc : c ∈ bs) :
    (payloadSize h.mem c).toNat = (next h.mem c).toNat - c.toNat - 6 := by
  have hle := hbs.next_le hc
  have hlt := (next h.mem c).isLt
  unfold payloadSize headerSize
  bv_omega

theorem BlockList.take_whole (hbs : BlockList h bs) {c : Word} (hc : c ∈ bs)
    (hfree : isFree h.mem c = true) :
    BlockList { h with mem := setFree h.mem c false } bs ∧
      forall b e, Taken { h with mem := setFree h.mem c false } bs b e <->
        Taken h bs b e ∨ b = c ∧ e = next h.mem c := by
  have hself := header_setFree h.mem c false
  have hparts : forall b, b ∈ bs ->
      prev (setFree h.mem c false) b = prev h.mem b ∧
        next (setFree h.mem c false) b = next h.mem b ∧
        (b ≠ c -> isFree (setFree h.mem c false) b = isFree h.mem b) := by
    intro b hb
    by_cases hbc : b = c
    · subst hbc
      exact ⟨congrArg Header.prev hself, congrArg Header.next hself,
        fun hne => absurd rfl hne⟩
    · have hother := header_parts
        ((hbs.apart hc hb (Ne.symm hbc)).setFree (m := h.mem) false)
      exact ⟨hother.1, hother.2.1, fun _ => hother.2.2⟩
  have hselfFree : isFree (setFree h.mem c false) c = false :=
    congrArg Header.free hself
  constructor
  · refine ⟨hbs.toHeaderList.marked hc false, hbs.first_pos, ?_⟩
    · refine hbs.coalesced.imp_of_mem_imp fun a b ha hb hab hafree => ?_
      by_cases hbc : b = c
      · rw [hbc]
        exact hselfFree
      · have hac : a ≠ c := by
          intro heq
          rw [heq, hselfFree] at hafree
          cases hafree
        rw [(hparts a ha).2.2 hac] at hafree
        exact ((hparts b hb).2.2 hbc).trans (hab hafree)
  · intro b e
    unfold Taken
    change b ∈ bs ∧ isFree (setFree h.mem c false) b = false ∧
      next (setFree h.mem c false) b = e <-> _
    by_cases hbc : b = c
    · subst hbc
      rw [hselfFree, hfree, (hparts b hc).2.1]
      constructor
      · rintro ⟨_, _, hnext⟩
        exact Or.inr ⟨rfl, hnext.symm⟩
      · rintro (⟨_, hcase, _⟩ | ⟨_, hnext⟩)
        · cases hcase
        · exact ⟨hc, rfl, hnext.symm⟩
    · constructor
      · rintro ⟨hb, hbfree, hnext⟩
        rw [(hparts b hb).2.2 hbc] at hbfree
        rw [(hparts b hb).2.1] at hnext
        exact Or.inl ⟨hb, hbfree, hnext⟩
      · rintro (⟨hb, hbfree, hnext⟩ | ⟨heq, _⟩)
        · rw [← (hparts b hb).2.2 hbc] at hbfree
          rw [← (hparts b hb).2.1] at hnext
          exact ⟨hb, hbfree, hnext⟩
        · exact absurd heq hbc

theorem header_setupHeader (m : UserMem) (n l c : Word) :
    header (setupHeader m n l c) n = ⟨c, l, true⟩ := by
  rw [setupHeader, header_setFree, header_setPrev, header_setNext]

theorem HeadersApart.setupHeader {m : UserMem} {n l c b : Word}
    (hapart : HeadersApart n b) :
    header (Init.setupHeader m n l c) b = header m b := by
  rw [Init.setupHeader, hapart.setFree, hapart.setPrev, hapart.setNext]

/-!
A split is possible at {lit}`n` when the new header fits between the block at
{lit}`c` and its successor.
-/

/-- The memory of a taken block after its split. -/
def splitMem (h : UserHeap) (c n : Word) : UserMem :=
  setFree (setNext (setupNext (setupHeader h.mem n (next h.mem c) c)
    h.overblock c n) c n) c false

structure SplitAt (h : UserHeap) (c n : Word) : Prop where
  low : c.toNat + 6 ≤ n.toNat
  high : n.toNat + 6 ≤ (next h.mem c).toNat

theorem SplitAt.spaced {c n : Word} {pre post : List Word}
    (hsplit : SplitAt h c n) (hbs : HeaderList h (pre ++ c :: post)) :
    ((pre ++ c :: n :: post) ++ [h.overblock]).Pairwise
      (fun a b => a.toNat + 6 ≤ b.toNat) := by
  rcases hsplit with ⟨hlow, hhigh⟩
  rw [hbs.next_eq] at hhigh
  have hspaced := hbs.spaced
  rw [List.append_assoc, List.cons_append] at hspaced ⊢
  rcases List.pairwise_append.mp hspaced with ⟨hpre, hrest, hcross⟩
  rcases List.pairwise_cons.mp hrest with ⟨hc, hpost⟩
  have hn : forall b, b ∈ post ++ [h.overblock] -> n.toNat + 6 ≤ b.toNat := by
    intro b hb
    cases post with
    | nil =>
        rw [List.nil_append, List.mem_singleton] at hb
        rw [hb]
        exact hhigh
    | cons l rest =>
        rcases List.mem_cons.mp hb with rfl | hb
        · exact hhigh
        · have hl := List.rel_of_pairwise_cons hpost hb
          rw [List.headD_cons] at hhigh
          omega
  refine List.pairwise_append.mpr ⟨hpre, ?_, ?_⟩
  · refine List.pairwise_cons.mpr ⟨?_, List.pairwise_cons.mpr ⟨hn, hpost⟩⟩
    intro b hb
    rcases List.mem_cons.mp hb with rfl | hb
    · exact hlow
    · exact hc b hb
  · intro a ha b hb
    have hac := hcross a ha c (by simp)
    rcases List.mem_cons.mp hb with rfl | hb
    · exact hac
    · rcases List.mem_cons.mp hb with rfl | hb
      · omega
      · exact hcross a ha b (List.mem_cons_of_mem c hb)

/-- The headers after a split; only the block itself, the new block and the
block behind it change. -/
structure SplitHeaders (h : UserHeap) (m : UserMem) (c n : Word)
    (pre post : List Word) : Prop where
  curr : header m c = ⟨prev h.mem c, n, false⟩
  new : header m n = ⟨c, next h.mem c, true⟩
  behind : forall b, post.head? = some b ->
    header m b = { header h.mem b with prev := n }
  other : forall b, b ∈ pre ++ post -> post.head? ≠ some b ->
    header m b = header h.mem b

theorem SplitAt.headers {c n : Word} {pre post : List Word}
    (hsplit : SplitAt h c n) (hbs : HeaderList h (pre ++ c :: post)) :
    SplitHeaders h (splitMem h c n) c n pre post := by
  have hspaced := hsplit.spaced hbs
  have hapart : forall a b, a ∈ pre ++ c :: n :: post ->
      b ∈ pre ++ c :: n :: post -> a ≠ b -> HeadersApart a b :=
    fun a b ha hb hne => spaced_apart hspaced ha hb hne
  have hnodup : (pre ++ c :: n :: post).Nodup :=
    spaced_nodup (List.pairwise_append.mp hspaced).1
  have hcn : c ≠ n := by
    intro heq
    have hlow := hsplit.low
    rw [heq] at hlow
    omega
  have hc : c ∈ pre ++ c :: n :: post := by simp
  have hn : n ∈ pre ++ c :: n :: post := by simp
  have hmem : forall b, b ∈ pre ++ post -> b ∈ pre ++ c :: n :: post ∧
      b ≠ c ∧ b ≠ n := by
    intro b hb
    simp only [List.nodup_append, List.nodup_cons, List.mem_cons, not_or]
      at hnodup
    rcases List.mem_append.mp hb with hb | hb
    · have hsep := hnodup.2.2 b hb
      exact ⟨by simp [hb], hsep c (by simp), hsep n (by simp)⟩
    · refine ⟨by simp [hb], ?_, ?_⟩
      · exact fun heq => hnodup.2.1.1.2 (heq ▸ hb)
      · exact fun heq => hnodup.2.1.2.1 (heq ▸ hb)
  have hnext : next h.mem c = post.headD h.overblock := hbs.next_eq
  let m₀ := setupHeader h.mem n (next h.mem c) c
  have hold : forall b, b ∈ pre ++ c :: n :: post -> b ≠ n ->
      header m₀ b = header h.mem b :=
    fun b hb hbn => (hapart n b hn hb (Ne.symm hbn)).setupHeader
  have hnew : header m₀ n = ⟨c, next h.mem c, true⟩ := header_setupHeader _ _ _ _
  have hnext₀ : next m₀ c = post.headD h.overblock := by
    rw [← hnext]
    exact congrArg Header.next (hold c hc hcn)
  let m₁ := setupNext m₀ h.overblock c n
  have hkeep : forall b, b ∈ pre ++ c :: n :: post -> post.head? ≠ some b ->
      header m₁ b = header m₀ b := by
    intro b hb hhead
    change header (setupNext m₀ h.overblock c n) b = _
    rw [setupNext, hnext₀]
    cases post with
    | nil => rw [List.headD_nil, bne_self_eq_false, if_neg Bool.false_ne_true]
    | cons l rest =>
        split
        · have hlb : l ≠ b := fun heq => hhead (by rw [heq]; rfl)
          exact (hapart l b (by simp) hb hlb).setPrev
        · rfl
  have hbehind : forall b, post.head? = some b ->
      header m₁ b = { header m₀ b with prev := n } := by
    intro b hb
    rcases List.head?_eq_some_iff.mp hb with ⟨rest, rfl⟩
    have hne : b ≠ h.overblock := hbs.ne_over (by simp)
    change header (setupNext m₀ h.overblock c n) b = _
    rw [setupNext, hnext₀, List.headD_cons, if_pos (by simpa using hne),
      header_setPrev]
  have hheadNe : forall b, b = c ∨ b = n -> post.head? ≠ some b := by
    intro b hb hhead
    rcases hmem b (List.mem_append_right pre (List.mem_of_head? hhead)) with
      ⟨_, hbc, hbn⟩
    exact hb.elim hbc hbn
  have hfinal : forall b, b ∈ pre ++ c :: n :: post -> b ≠ c ->
      header (splitMem h c n) b = header m₁ b := by
    intro b hb hbc
    have hab := hapart c b hc hb (Ne.symm hbc)
    rw [splitMem, hab.setFree, hab.setNext]
  refine ⟨?_, ?_, ?_, ?_⟩
  · rw [splitMem, header_setFree, header_setNext]
    change ({ header m₁ c with next := n, free := false } : Header) = _
    rw [hkeep c hc (hheadNe c (Or.inl rfl)), hold c hc hcn]
    rfl
  · rw [hfinal n hn (Ne.symm hcn), hkeep n hn (hheadNe n (Or.inr rfl)), hnew]
  · intro b hb
    rcases hmem b (List.mem_append_right pre (List.mem_of_head? hb)) with
      ⟨hb', hbc, hbn⟩
    rw [hfinal b hb' hbc, hbehind b hb, hold b hb' hbn]
  · intro b hb hhead
    rcases hmem b hb with ⟨hb', hbc, hbn⟩
    rw [hfinal b hb' hbc, hkeep b hb' hhead, hold b hb' hbn]

structure SplitKeeps (h : UserHeap) (m : UserMem) (pre post : List Word) : Prop where
  before : forall b, b ∈ pre -> header m b = header h.mem b
  behind : forall b, b ∈ post -> next m b = next h.mem b ∧
    isFree m b = isFree h.mem b
  tail : forall b, b ∈ post.tail -> prev m b = prev h.mem b

theorem SplitAt.keeps {c n : Word} {pre post : List Word}
    (hsplit : SplitAt h c n) (hbs : HeaderList h (pre ++ c :: post)) :
    SplitKeeps h (splitMem h c n) pre post := by
  have hheaders := hsplit.headers hbs
  have hnodup := spaced_nodup (List.pairwise_append.mp (hsplit.spaced hbs)).1
  constructor
  · intro b hb
    refine hheaders.other b (List.mem_append_left post hb) fun hhead => ?_
    have hpost := List.mem_of_head? hhead
    exact (List.nodup_append.mp hnodup).2.2 b hb b (by simp [hpost]) rfl
  · intro b hb
    by_cases hhead : post.head? = some b
    · have hbehind := hheaders.behind b hhead
      exact ⟨congrArg Header.next hbehind, congrArg Header.free hbehind⟩
    · have hother := hheaders.other b (List.mem_append_right pre hb) hhead
      exact ⟨congrArg Header.next hother, congrArg Header.free hother⟩
  · intro b hb
    have hhead : post.head? ≠ some b := by
      intro hhead
      rcases List.head?_eq_some_iff.mp hhead with ⟨rest, rfl⟩
      have hdup := (List.nodup_append.mp hnodup).2.1
      simp only [List.nodup_cons] at hdup
      exact hdup.2.2.1 hb
    have hmem := List.mem_append_right pre (List.mem_of_mem_tail hb)
    exact congrArg Header.prev (hheaders.other b hmem hhead)

theorem SplitAt.headerList {c n : Word} {pre post : List Word}
    (hsplit : SplitAt h c n) (hbs : HeaderList h (pre ++ c :: post)) :
    HeaderList { h with mem := splitMem h c n } (pre ++ c :: n :: post) := by
  have hheaders := hsplit.headers hbs
  have hkeeps := hsplit.keeps hbs
  refine ⟨?_, ?_, hsplit.spaced hbs⟩
  · have hhead := hbs.head
    cases pre with
    | nil => exact hhead
    | cons a rest => exact hhead
  · refine hbs.linked.insert ?_ ?_ ?_ ?_ ?_ ?_ ?_ ?_
    · intro b hb
      have hparts := header_parts (hkeeps.before b hb)
      exact ⟨hparts.1, hparts.2.1⟩
    · exact congrArg Header.prev hheaders.curr
    · exact congrArg Header.next hheaders.curr
    · exact congrArg Header.prev hheaders.new
    · rw [← hbs.next_eq]
      exact congrArg Header.next hheaders.new
    · exact fun b hb => congrArg Header.prev (hheaders.behind b hb)
    · exact fun b hb => (hkeeps.behind b hb).1
    · exact hkeeps.tail

theorem SplitAt.blockList {c n : Word} {pre post : List Word}
    (hsplit : SplitAt h c n) (hbs : BlockList h (pre ++ c :: post))
    (hfree : isFree h.mem c = true) :
    BlockList { h with mem := splitMem h c n } (pre ++ c :: n :: post) := by
  have hheaders := hsplit.headers hbs.toHeaderList
  have hkeeps := hsplit.keeps hbs.toHeaderList
  have hcFree : isFree (splitMem h c n) c = false :=
    congrArg Header.free hheaders.curr
  refine ⟨hsplit.headerList hbs.toHeaderList, hbs.first_pos, ?_⟩
  rcases List.isChain_append.mp hbs.coalesced with ⟨hchainPre, hchain, _⟩
  rcases List.isChain_cons.mp hchain with ⟨hcPost, hchainPost⟩
  refine List.isChain_append.mpr ⟨?_, ?_, ?_⟩
  · refine hchainPre.imp_of_mem_imp fun a b ha hb hab hafree => ?_
    have ha := congrArg Header.free (hkeeps.before a ha)
    have hb := congrArg Header.free (hkeeps.before b hb)
    exact hb.trans (hab (ha.symm.trans hafree))
  · refine List.isChain_cons.mpr ⟨?_, List.isChain_cons.mpr ⟨?_, ?_⟩⟩
    · intro b _ hcase
      rw [hcFree] at hcase
      cases hcase
    · intro b hb _
      exact (hkeeps.behind b (List.mem_of_head? hb)).2.trans (hcPost b hb hfree)
    · refine hchainPost.imp_of_mem_imp fun a b ha hb hab hafree => ?_
      exact (hkeeps.behind b hb).2.trans
        (hab ((hkeeps.behind a ha).2.symm.trans hafree))
  · intro a _ b hb _
    cases hb
    exact hcFree

theorem SplitAt.taken {c n : Word} {pre post : List Word}
    (hsplit : SplitAt h c n) (hbs : BlockList h (pre ++ c :: post))
    (hfree : isFree h.mem c = true) (b e : Word) :
    Taken { h with mem := splitMem h c n } (pre ++ c :: n :: post) b e <->
      Taken h (pre ++ c :: post) b e ∨ b = c ∧ e = n := by
  have hheaders := hsplit.headers hbs.toHeaderList
  have hnodup := hbs.nodup
  have hkeep : forall b, b ∈ pre ++ post ->
      isFree (splitMem h c n) b = isFree h.mem b ∧
        next (splitMem h c n) b = next h.mem b := by
    intro b hb
    by_cases hhead : post.head? = some b
    · have hbehind := hheaders.behind b hhead
      exact ⟨congrArg Header.free hbehind, congrArg Header.next hbehind⟩
    · have hother := hheaders.other b hb hhead
      exact ⟨congrArg Header.free hother, congrArg Header.next hother⟩
  have hcFree : isFree (splitMem h c n) c = false :=
    congrArg Header.free hheaders.curr
  have hcNext : next (splitMem h c n) c = n :=
    congrArg Header.next hheaders.curr
  have hnFree : isFree (splitMem h c n) n = true :=
    congrArg Header.free hheaders.new
  unfold Taken
  change b ∈ pre ++ c :: n :: post ∧ isFree (splitMem h c n) b = false ∧
    next (splitMem h c n) b = e <-> _
  constructor
  · rintro ⟨hb, hbfree, hnext⟩
    by_cases hbc : b = c
    · subst hbc
      exact Or.inr ⟨rfl, hnext.symm.trans hcNext⟩
    · have hbn : b ≠ n := by
        intro heq
        rw [heq, hnFree] at hbfree
        cases hbfree
      have hmem : b ∈ pre ++ post := by
        simp only [List.mem_append, List.mem_cons] at hb ⊢
        tauto
      rw [(hkeep b hmem).1] at hbfree
      rw [(hkeep b hmem).2] at hnext
      refine Or.inl ⟨?_, hbfree, hnext⟩
      rcases List.mem_append.mp hmem with hb | hb <;> simp [hb]
  · rintro (⟨hb, hbfree, hnext⟩ | ⟨rfl, rfl⟩)
    · have hbc : b ≠ c := by
        intro heq
        rw [heq, hfree] at hbfree
        cases hbfree
      have hmem : b ∈ pre ++ post := by
        simp only [List.mem_append, List.mem_cons] at hb ⊢
        tauto
      rw [← (hkeep b hmem).1] at hbfree
      rw [← (hkeep b hmem).2] at hnext
      refine ⟨?_, hbfree, hnext⟩
      rcases List.mem_append.mp hmem with hb | hb <;> simp [hb]
    · exact ⟨by simp, hcFree, hcNext⟩

/-!
# The allocation

Either no free block is large enough, or the first one that is becomes the
allocation.
-/

def Fits (h : UserHeap) (size b : Word) : Prop :=
  isFree h.mem b = true ∧ size ≤ payloadSize h.mem b

theorem allocateMemory_cases (hbs : HeaderList h bs) (size : Word) :
    (bs.find? (fun b => isFree h.mem b && decide (size ≤ payloadSize h.mem b)) = none ∧
      forall b, b ∈ bs -> ¬ Fits h size b) ∨
    exists c, bs.find? (fun b => isFree h.mem b &&
        decide (size ≤ payloadSize h.mem b)) = some c ∧
      c ∈ bs ∧ Fits h size c ∧
      ((headerSize + size < payloadSize h.mem c ∧
          (c + headerSize + size).toNat = c.toNat + 6 + size.toNat ∧
          SplitAt h c (c + headerSize + size)) ∨
        ¬ headerSize + size < payloadSize h.mem c) := by
  cases hfind : bs.find?
      (fun b => isFree h.mem b && decide (size ≤ payloadSize h.mem b)) with
  | none =>
      left
      refine ⟨rfl, ?_⟩
      rintro b hb ⟨hfree, hsize⟩
      have hnot := List.find?_eq_none.mp hfind b hb
      simp [hfree, hsize] at hnot
  | some c =>
      right
      have hc := List.mem_of_find?_eq_some hfind
      have hsome := List.find?_some hfind
      rw [Bool.and_eq_true, decide_eq_true_eq] at hsome
      refine ⟨c, rfl, hc, hsome, ?_⟩
      have hpayload := hbs.payloadSize_toNat hc
      have hnextLe := hbs.next_le hc
      have hsizeNat : size.toNat ≤ (payloadSize h.mem c).toNat := hsome.2
      by_cases hroom : headerSize + size < payloadSize h.mem c
      · left
        have hnext := (next h.mem c).isLt
        have hn : (c + headerSize + size).toNat = c.toNat + 6 + size.toNat := by
          unfold headerSize
          bv_omega
        have hsum : (headerSize + size).toNat = 6 + size.toNat := by
          unfold headerSize
          bv_omega
        have hroomNat : 6 + size.toNat < (payloadSize h.mem c).toNat := by
          rw [← hsum]
          exact hroom
        exact ⟨hroom, hn, by omega, by omega⟩
      · exact Or.inr hroom

theorem split_mem {c size : Word} (hroom : headerSize + size < payloadSize h.mem c) :
    setFree (splitBlock h c size) c false = splitMem h c (c + headerSize + size) := by
  rw [splitBlock, if_pos hroom, splitMem]

theorem allocateMemory_spec (hbs : BlockList h bs) (size : Word) :
    (allocateMemory h size = .ok (0, h) ∧ forall b, b ∈ bs -> ¬ Fits h size b) ∨
    exists c e m bs', c ∈ bs ∧ Fits h size c ∧
      allocateMemory h size = .ok (c + headerSize, { h with mem := m }) ∧
      BlockList { h with mem := m } bs' ∧
      c.toNat + 6 + size.toNat ≤ e.toNat ∧
      forall b e', Taken { h with mem := m } bs' b e' <->
        Taken h bs b e' ∨ b = c ∧ e' = e := by
  rcases allocateMemory_cases hbs.toHeaderList size with
    ⟨hfind, hfull⟩ | ⟨c, hfind, hc, ⟨hfree, hsize⟩, hcase⟩
  · left
    constructor
    · rw [allocateMemory, walkBlocks_eq hbs.toHeaderList, hfind, ok_bind]
    · exact hfull
  · right
    have halloc : allocateMemory h size = .ok (c + headerSize,
        { h with mem := setFree (splitBlock h c size) c false }) := by
      rw [allocateMemory, walkBlocks_eq hbs.toHeaderList, hfind, ok_bind]
    rcases hcase with ⟨hroom, hn, hsplit⟩ | hroom
    · rcases List.append_of_mem hc with ⟨pre, post, rfl⟩
      rw [split_mem hroom] at halloc
      exact ⟨c, c + headerSize + size, _, _, hc, ⟨hfree, hsize⟩, halloc,
        hsplit.blockList hbs hfree, by omega, hsplit.taken hbs hfree⟩
    · have hpayload := hbs.payloadSize_toNat hc
      have hnextLe := hbs.next_le hc
      have hsizeNat : size.toNat ≤ (payloadSize h.mem c).toNat := hsize
      rcases hbs.take_whole hc hfree with ⟨hblocks, htaken⟩
      rw [splitBlock, if_neg hroom] at halloc
      exact ⟨c, next h.mem c, _, bs, hc, ⟨hfree, hsize⟩, halloc, hblocks,
        by omega, htaken⟩

end Allocate

end Init
end Rmmtos
