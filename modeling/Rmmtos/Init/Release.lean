import Rmmtos.Init.BlockList

/-!
# Releasing user memory

Marking a block free leaves the list as it is.  Merging then cuts the free
blocks behind the first one of the free run out of the list.
-/

namespace Rmmtos
namespace Init

open Library

section Merge

variable {h : UserHeap} {bs : List Word}

def Place (h : UserHeap) (bs : List Word) (a : Word) : Prop :=
  a ∈ bs ∨ a = h.overblock

def Target (h : UserHeap) (bs : List Word) (a : Word) : Prop :=
  Place h bs a ∧ (a = h.overblock -> 0 < h.first.toNat)

/-- Writing the back pointer of one place leaves the other headers alone; at
the end of the pool it writes behind the last block. -/
theorem HeaderList.setPrev_other (hbs : HeaderList h bs) {m : UserMem}
    {a b v : Word} (ha : Target h bs a) (hb : b ∈ bs) (hne : a ≠ b) :
    header (setPrev m a v) b = header m b := by
  rcases ha with ⟨ha | rfl, hfirst⟩
  · exact (hbs.apart ha hb hne).setPrev
  · have hpos := hfirst rfl
    have hlow := hbs.head_le hb
    have hend := hbs.end_le hb
    exact header_setPrev_other (by bv_omega) (by bv_omega)

theorem firstFree_eq {m : UserMem} {p q c : Word} {back : List Word}
    (hlinked : Linked (prev m) (next m) p (back ++ [c]) q)
    (hfree : forall a, a ∈ back -> isFree m a = true ∧ a ≠ 0)
    (hstop : p = 0 ∨ isFree m p = false) (hlen : back.length ≤ wordCount) :
    firstFree m c = .ok ((back ++ [c]).headD c) := by
  refine whileLoop_walkBack (k := fun a => a != 0 && isFree m a) hlinked
    (fun a ha => ?_) ?_ hlen
  · rcases hfree a ha with ⟨hfree, hne⟩
    simp only [hfree, bne_iff_ne, ne_eq, hne, not_false_eq_true, Bool.and_true]
  · rcases hstop with rfl | hstop
    · rfl
    · rw [hstop, Bool.and_false]

theorem lastFree_eq {m : UserMem} {stop p q c : Word} {fwd : List Word}
    (hlinked : Linked (prev m) (next m) p (c :: fwd) q)
    (hfree : forall a, a ∈ c :: fwd -> isFree m a = true ∧ a ≠ stop)
    (hstop : q = stop ∨ isFree m q = false)
    (hlen : (c :: fwd).length ≤ wordCount) :
    lastFree m stop c = .ok q := by
  refine whileLoop_walk (c := fun b => b != stop && isFree m b) hlinked
    (fun a ha => ?_) ?_ hlen
  · rcases hfree a ha with ⟨hfree, hne⟩
    simp only [hfree, bne_iff_ne, ne_eq, hne, not_false_eq_true, Bool.and_true]
  · rcases hstop with rfl | hstop
    · rw [bne_self_eq_false, Bool.false_and]
    · rw [hstop, Bool.and_false]

def link (m : UserMem) (f l : Word) : UserMem :=
  setPrev (setNext m f l) l f

theorem HeaderList.link_first (hbs : HeaderList h bs) {m : UserMem} {f l : Word}
    (hf : f ∈ bs) (hl : Target h bs l) (hne : l ≠ f) :
    header (link m f l) f = { header m f with next := l } := by
  rw [link, hbs.setPrev_other hl hf hne, header_setNext]

theorem HeaderList.link_last (hbs : HeaderList h bs) {m : UserMem} {f l : Word}
    (hf : f ∈ bs) (hl : l ∈ bs) (hne : l ≠ f) :
    header (link m f l) l = { header m l with prev := f } := by
  rw [link, header_setPrev, (hbs.apart hf hl hne.symm).setNext]

theorem HeaderList.link_other (hbs : HeaderList h bs) {m : UserMem}
    {f l b : Word} (hf : f ∈ bs) (hl : Target h bs l) (hb : b ∈ bs)
    (hbf : b ≠ f) (hbl : b ≠ l) :
    header (link m f l) b = header m b := by
  rw [link, hbs.setPrev_other hl hb hbl.symm, (hbs.apart hf hb hbf.symm).setNext]

theorem HeaderList.link_free (hbs : HeaderList h bs) {m : UserMem}
    {f l b : Word} (hf : f ∈ bs) (hl : Target h bs l) (hne : l ≠ f)
    (hb : b ∈ bs) :
    isFree (link m f l) b = isFree m b := by
  by_cases hbf : b = f
  · subst hbf
    exact congrArg Header.free (hbs.link_first hf hl hne)
  · by_cases hbl : b = l
    · subst hbl
      exact congrArg Header.free (hbs.link_last hf hb hne)
    · exact congrArg Header.free (hbs.link_other hf hl hb hbf hbl)

theorem HeaderList.link_next (hbs : HeaderList h bs) {m : UserMem}
    {f l b : Word} (hf : f ∈ bs) (hl : Target h bs l) (hne : l ≠ f)
    (hb : b ∈ bs) (hbf : b ≠ f) :
    next (link m f l) b = next m b := by
  by_cases hbl : b = l
  · subst hbl
    exact congrArg Header.next (hbs.link_last hf hb hne)
  · exact congrArg Header.next (hbs.link_other hf hl hb hbf hbl)

theorem HeaderList.not_mem_outer {f : Word} {pre mid post : List Word}
    (hbs : HeaderList h (pre ++ f :: (mid ++ post))) {b : Word}
    (hb : b ∈ pre ++ post) : b ∉ f :: mid := by
  intro hmem
  rcases List.mem_append.mp hb with hb | hb
  · exact (List.nodup_append.mp hbs.nodup).2.2 b hb b
      (List.mem_append_left post hmem) rfl
  · have hnodup := hbs.nodup
    rw [← List.cons_append, ← List.append_assoc] at hnodup
    exact (List.nodup_append.mp hnodup).2.2 b
      (List.mem_append_right pre hmem) b hb rfl

theorem HeaderList.link_place {f : Word} {pre mid post : List Word}
    (hbs : HeaderList h (pre ++ f :: (mid ++ post)))
    (hpos : post = [] -> 0 < h.first.toNat) :
    Target h (pre ++ f :: (mid ++ post)) (post.headD h.overblock) ∧
      post.headD h.overblock ≠ f := by
  cases post with
  | nil => exact ⟨⟨Or.inr rfl, fun _ => hpos rfl⟩, (hbs.ne_over (by simp)).symm⟩
  | cons l rest =>
      have hl : l ∈ pre ++ f :: (mid ++ l :: rest) := by
        simp
      have hout := hbs.not_mem_outer (b := l) (by simp)
      exact ⟨⟨Or.inl hl, fun heq => absurd heq (hbs.ne_over hl)⟩,
        fun heq => hout (by simp [← heq])⟩

theorem HeaderList.link_splice {m : UserMem} {f : Word} {pre mid post : List Word}
    (hbs : HeaderList h (pre ++ f :: (mid ++ post)))
    (hpos : post = [] -> 0 < h.first.toNat)
    (hlinked : Linked (prev m) (next m) 0 (pre ++ f :: (mid ++ post)) h.overblock) :
    Linked (prev (link m f (post.headD h.overblock)))
      (next (link m f (post.headD h.overblock))) 0 (pre ++ f :: post)
      h.overblock := by
  have hf : f ∈ pre ++ f :: (mid ++ post) := by simp
  rcases hbs.link_place hpos with ⟨hl, hne⟩
  have hmem : forall b, b ∈ post -> b ∈ pre ++ f :: (mid ++ post) := by
    intro b hb
    simp [hb]
  have hnf : forall b, b ∈ pre ++ post -> b ≠ f :=
    fun b hb heq => hbs.not_mem_outer hb (by simp [heq])
  have hsep := (List.nodup_append.mp hbs.nodup).2.2
  have hother : forall b, b ∈ pre ++ f :: (mid ++ post) -> b ≠ f ->
      b ≠ post.headD h.overblock ->
      header (link m f (post.headD h.overblock)) b = header m b :=
    fun b hb hbf hbl => hbs.link_other hf hl hb hbf hbl
  have hfirst := hbs.link_first (m := m) hf hl hne
  refine hlinked.splice ?_ ?_ ?_ ?_ ?_ ?_
  · intro b hb
    have hbl : b ≠ post.headD h.overblock := by
      cases post with
      | nil => exact hbs.ne_over (by simp [hb])
      | cons l rest => exact hsep b hb l (by simp)
    have hparts := header_parts
      (hother b (by simp [hb]) (hnf b (by simp [hb])) hbl)
    exact ⟨hparts.1, hparts.2.1⟩
  · exact congrArg Header.prev hfirst
  · exact congrArg Header.next hfirst
  · intro b hb
    rcases List.head?_eq_some_iff.mp hb with ⟨rest, rfl⟩
    exact congrArg Header.prev
      (hbs.link_last (m := m) hf (hmem b (by simp)) hne)
  · exact fun b hb => hbs.link_next hf hl hne (hmem b hb) (hnf b (by simp [hb]))
  · intro b hb
    have hbl : b ≠ post.headD h.overblock := by
      cases post with
      | nil => simp at hb
      | cons l rest =>
          have hdup := (List.nodup_append.mp hbs.nodup).2.1
          have hdup := (List.nodup_append.mp (List.nodup_cons.mp hdup).2).2.1
          intro heq
          change b = l at heq
          subst heq
          exact (List.nodup_cons.mp hdup).1 hb
    have hb := List.mem_of_mem_tail hb
    exact congrArg Header.prev
      (hother b (hmem b hb) (hnf b (by simp [hb])) hbl)

theorem HeaderList.link_headerList {m : UserMem} {f : Word} {pre mid post : List Word}
    (hbs : HeaderList h (pre ++ f :: (mid ++ post)))
    (hpos : post = [] -> 0 < h.first.toNat)
    (hlinked : Linked (prev m) (next m) 0 (pre ++ f :: (mid ++ post)) h.overblock) :
    HeaderList { h with mem := link m f (post.headD h.overblock) }
      (pre ++ f :: post) := by
  refine ⟨?_, hbs.link_splice hpos hlinked, ?_⟩
  · have hhead := hbs.head
    cases pre with
    | nil => exact hhead
    | cons a rest => exact hhead
  · refine hbs.spaced.sublist ?_
    refine List.Sublist.append ?_ (List.Sublist.refl _)
    refine List.Sublist.append (List.Sublist.refl _) ?_
    exact List.Sublist.cons_cons _ (List.sublist_append_right mid post)

theorem BlockList.link_blockList {m : UserMem} {f : Word}
    {pre mid post : List Word}
    (hbs : BlockList h (pre ++ f :: (mid ++ post)))
    (hlinked : Linked (prev m) (next m) 0 (pre ++ f :: (mid ++ post)) h.overblock)
    (hsame : forall b, b ∈ pre ++ post -> isFree m b = isFree h.mem b)
    (hbefore : forall a, a ∈ pre.getLast? -> isFree m a = false)
    (hafter : forall a, a ∈ post.head? -> isFree m a = false) :
    BlockList { h with mem := link m f (post.headD h.overblock) }
      (pre ++ f :: post) := by
  have hf : f ∈ pre ++ f :: (mid ++ post) := by simp
  have hpos : post = [] -> 0 < h.first.toNat := fun _ => hbs.first_pos
  rcases hbs.link_place hpos with ⟨hl, hne⟩
  have hfree : forall b, b ∈ pre ++ post ->
      isFree (link m f (post.headD h.overblock)) b = isFree m b := by
    intro b hb
    refine hbs.link_free hf hl hne ?_
    rcases List.mem_append.mp hb with hb | hb <;> simp [hb]
  refine ⟨hbs.toHeaderList.link_headerList hpos hlinked, hbs.first_pos, ?_⟩
  · rcases List.isChain_append.mp hbs.coalesced with ⟨hpre, hrest, _⟩
    have hpost := (List.isChain_append.mp (List.isChain_cons.mp hrest).2).2.1
    have hkeep : forall xs : List Word, (forall b, b ∈ xs -> b ∈ pre ++ post) ->
        xs.IsChain (fun a b => isFree h.mem a = true -> isFree h.mem b = false) ->
        xs.IsChain (fun a b =>
          isFree (link m f (post.headD h.overblock)) a = true ->
            isFree (link m f (post.headD h.overblock)) b = false) := by
      intro xs hxs hchain
      refine hchain.imp_of_mem_imp fun a b ha hb hab => ?_
      rw [hfree a (hxs a ha), hfree b (hxs b hb), hsame a (hxs a ha),
        hsame b (hxs b hb)]
      exact hab
    refine List.isChain_append.mpr ⟨hkeep pre (by simp_all) hpre, ?_, ?_⟩
    · refine List.isChain_cons.mpr ⟨?_, hkeep post (by simp_all) hpost⟩
      intro b hb _
      rw [hfree b (List.mem_append_right _ (List.mem_of_head? hb))]
      exact hafter b hb
    · intro a ha b _ hafree
      have hmem := List.mem_append_left post (List.mem_of_getLast? ha)
      rw [hfree a hmem, hbefore a ha] at hafree
      cases hafree

theorem BlockList.link_taken {m : UserMem} {f : Word}
    {pre mid post : List Word}
    (hbs : BlockList h (pre ++ f :: (mid ++ post)))
    (hffree : isFree m f = true) {b e : Word} :
    Taken { h with mem := link m f (post.headD h.overblock) }
      (pre ++ f :: post) b e <->
      b ∈ pre ++ post ∧ isFree m b = false ∧ next m b = e := by
  have hf : f ∈ pre ++ f :: (mid ++ post) := by simp
  rcases hbs.link_place (fun _ => hbs.first_pos) with ⟨hl, hne⟩
  have hkeep : forall b, b ∈ pre ++ post ->
      isFree (link m f (post.headD h.overblock)) b = isFree m b ∧
        next (link m f (post.headD h.overblock)) b = next m b := by
    intro b hb
    have hmem : b ∈ pre ++ f :: (mid ++ post) := by
      rcases List.mem_append.mp hb with hb | hb <;> simp [hb]
    have hbf : b ≠ f := fun heq => hbs.not_mem_outer hb (by simp [heq])
    exact ⟨hbs.link_free hf hl hne hmem, hbs.link_next hf hl hne hmem hbf⟩
  constructor
  · rintro ⟨hb, hfree, hnext⟩
    change isFree (link m f (post.headD h.overblock)) b = false at hfree
    change next (link m f (post.headD h.overblock)) b = e at hnext
    have hbf : b ≠ f := by
      intro heq
      rw [heq, hbs.link_free hf hl hne hf, hffree] at hfree
      cases hfree
    have hb : b ∈ pre ++ post := by
      simp only [List.mem_append, List.mem_cons] at hb ⊢
      tauto
    rw [(hkeep b hb).1] at hfree
    rw [(hkeep b hb).2] at hnext
    exact ⟨hb, hfree, hnext⟩
  · rintro ⟨hb, hfree, hnext⟩
    rw [← (hkeep b hb).1] at hfree
    rw [← (hkeep b hb).2] at hnext
    refine ⟨?_, hfree, hnext⟩
    rcases List.mem_append.mp hb with hb | hb <;> simp [hb]

/-- Where merging around a block that has just been marked free begins and ends. -/
theorem HeaderList.merge_ends {m : UserMem} {c : Word} {pre back fwd post : List Word}
    (hbs : HeaderList h (pre ++ back ++ c :: (fwd ++ post)))
    (hlinked : Linked (prev m) (next m) 0 (pre ++ back ++ c :: (fwd ++ post))
      h.overblock)
    (hback : forall b, b ∈ back -> isFree m b = true ∧ b ≠ 0)
    (hfwd : forall b, b ∈ c :: fwd -> isFree m b = true)
    (hbefore : forall a, a ∈ pre.getLast? -> a = 0 ∨ isFree m a = false)
    (hafter : forall a, a ∈ post.head? -> isFree m a = false) :
    firstFree m c = .ok ((back ++ [c]).headD c) ∧
      lastFree m h.overblock c = .ok (post.headD h.overblock) := by
  have hlen := hbs.length_lt
  simp only [List.length_append, List.length_cons] at hlen
  rw [List.append_assoc] at hlinked
  rcases linked_append.mp hlinked with ⟨_, hmid⟩
  constructor
  · have hsplit : back ++ c :: (fwd ++ post) = (back ++ [c]) ++ (fwd ++ post) := by
      simp
    rw [hsplit] at hmid
    refine firstFree_eq (linked_append.mp hmid).1 hback ?_ (by omega)
    cases pre using List.reverseRecOn with
    | nil => exact Or.inl rfl
    | append_singleton xs x =>
        have hx := hbefore x (by simp)
        simpa using hx
  · rcases linked_append.mp hmid with ⟨_, hright⟩
    rw [← List.cons_append] at hright
    refine lastFree_eq (linked_append.mp hright).1 ?_ ?_ ?_
    · intro a ha
      refine ⟨hfwd a ha, hbs.ne_over ?_⟩
      rw [← List.cons_append]
      exact List.mem_append_right _ (List.mem_append_left _ ha)
    · cases post with
      | nil => exact Or.inl rfl
      | cons l rest => exact Or.inr (hafter l rfl)
    · rw [List.length_cons]
      omega

theorem mergeFreeBlocks_eq {m : UserMem} {c : Word} {pre back fwd post : List Word}
    (hbs : BlockList h (pre ++ back ++ c :: (fwd ++ post)))
    (hlinked : Linked (prev m) (next m) 0 (pre ++ back ++ c :: (fwd ++ post))
      h.overblock)
    (hrun : forall b, b ∈ back ++ c :: fwd -> isFree m b = true)
    (hbefore : forall a, a ∈ pre.getLast? -> isFree m a = false)
    (hafter : forall a, a ∈ post.head? -> isFree m a = false) :
    mergeFreeBlocks { h with mem := m } c =
      .ok { h with
        mem := link m ((back ++ [c]).headD c) (post.headD h.overblock) } := by
  rcases hbs.toHeaderList.merge_ends hlinked
    (fun b hb => ⟨hrun b (List.mem_append_left _ hb), hbs.ne_zero (by simp [hb])⟩)
    (fun b hb => hrun b (List.mem_append_right _ hb))
    (fun a ha => Or.inr (hbefore a ha)) hafter with ⟨hfirst, hlast⟩
  rw [mergeFreeBlocks, hfirst, ok_bind, hlast, ok_bind, link]

end Merge

section Free

variable {h : UserHeap} {bs : List Word}

theorem run_shape (pre back fwd post : List Word) (c : Word) :
    exists f mid, back ++ c :: fwd = f :: mid ∧ (back ++ [c]).headD c = f ∧
      pre ++ back ++ c :: (fwd ++ post) = pre ++ f :: (mid ++ post) := by
  have hshape : exists f mid, back ++ c :: fwd = f :: mid ∧
      (back ++ [c]).headD c = f := by
    cases back with
    | nil => exact ⟨c, fwd, rfl, rfl⟩
    | cons f rest => exact ⟨f, rest ++ c :: fwd, rfl, rfl⟩
  rcases hshape with ⟨f, mid, hfm, hf⟩
  refine ⟨f, mid, hfm, hf, ?_⟩
  calc
    pre ++ back ++ c :: (fwd ++ post) = pre ++ (back ++ c :: fwd) ++ post := by
      simp
    _ = pre ++ (f :: mid) ++ post := by rw [hfm]
    _ = pre ++ f :: (mid ++ post) := by simp

theorem HeaderList.walk_header (hbs : HeaderList h bs) {c : Word} (hc : c ∈ bs) :
    walkBlocks h (fun b => b == c + headerSize - headerSize) = .ok (some c) := by
  rw [walkBlocks_eq hbs, BitVec.add_sub_cancel]
  congr 1
  have hsome : (bs.find? (fun b => b == c)).isSome = true :=
    List.find?_isSome.mpr ⟨c, hc, beq_self_eq_true c⟩
  rcases Option.isSome_iff_exists.mp hsome with ⟨b, hb⟩
  have heq : b = c := by simpa using List.find?_some hb
  rw [hb, heq]

/-- A header that is not in the list is not found. -/
theorem freeMemory_unlisted (hbs : HeaderList h bs) {p : Word}
    (hp : p - headerSize ∉ bs) : freeMemory h p = .ok h := by
  have hnone : bs.find? (fun b => b == p - headerSize) = none := by
    refine List.find?_eq_none.mpr fun b hb heq => ?_
    rw [beq_iff_eq] at heq
    exact hp (heq ▸ hb)
  rw [freeMemory, walkBlocks_eq hbs, hnone, ok_bind]

/-- Freeing a taken block takes exactly this block off the taken ones and
leaves a block list. -/
theorem freeMemory_spec (hbs : BlockList h bs) {c : Word} (hc : c ∈ bs) :
    exists m bs', freeMemory h (c + headerSize) = .ok { h with mem := m } ∧
      BlockList { h with mem := m } bs' ∧
      forall b e, Taken { h with mem := m } bs' b e <->
        Taken h bs b e ∧ b ≠ c := by
  have hlinked := hbs.setFree_linked hc true
  have hfreeC : isFree (setFree h.mem c true) c = true :=
    congrArg Header.free (header_setFree h.mem c true)
  have hother : forall b, b ∈ bs -> b ≠ c ->
      isFree (setFree h.mem c true) b = isFree h.mem b ∧
        next (setFree h.mem c true) b = next h.mem b := by
    intro b hb hbc
    have hparts := header_parts (hbs.setFree_other hb hc hbc true)
    exact ⟨hparts.2.2, hparts.2.1⟩
  have hwalk := hbs.walk_header hc
  generalize hm : setFree h.mem c true = m at *
  rcases List.append_of_mem hc with ⟨pre, post, rfl⟩
  rcases exists_run (isFree m) pre post with
    ⟨pre, back, fwd, post, rfl, rfl, hback, hfwd, hbefore, hafter⟩
  have hrun : forall b, b ∈ back ++ c :: fwd -> isFree m b = true := by
    intro b hb
    rcases List.mem_append.mp hb with hb | hb
    · exact hback b hb
    · rcases List.mem_cons.mp hb with rfl | hb
      · exact hfreeC
      · exact hfwd b hb
  have hmerge := mergeFreeBlocks_eq hbs hlinked hrun hbefore hafter
  rcases run_shape pre back fwd post c with ⟨f, mid, hfm, hf, hlist⟩
  rw [hf] at hmerge
  have hcRun : c ∈ f :: mid := by
    rw [← hfm]
    simp
  rw [hlist] at hbs hlinked hother hc ⊢
  have houter : forall b, b ∈ pre ++ post -> b ≠ c := by
    intro b hb heq
    subst heq
    exact hbs.not_mem_outer hb hcRun
  have hsame : forall b, b ∈ pre ++ post -> isFree m b = isFree h.mem b ∧
      next m b = next h.mem b := by
    intro b hb
    refine hother b ?_ (houter b hb)
    rcases List.mem_append.mp hb with hb | hb <;> simp [hb]
  refine ⟨_, pre ++ f :: post, ?_, hbs.link_blockList hlinked
    (fun b hb => (hsame b hb).1) hbefore hafter, ?_⟩
  · rw [freeMemory, hwalk, ok_bind, ← hmerge, ← hm]
  · intro b e
    have hffree : isFree m f = true := hrun f (by rw [hfm]; simp)
    rw [hbs.link_taken hffree]
    constructor
    · rintro ⟨hb, hfree, hnext⟩
      have hb' : b ∈ pre ++ f :: (mid ++ post) := by
        rcases List.mem_append.mp hb with hb | hb <;> simp [hb]
      rw [(hsame b hb).1] at hfree
      rw [(hsame b hb).2] at hnext
      exact ⟨⟨hb', hfree, hnext⟩, houter b hb⟩
    · rintro ⟨⟨hb, hfree, hnext⟩, hbc⟩
      rcases hother b hb hbc with ⟨hsameFree, hsameNext⟩
      rw [← hsameFree] at hfree
      rw [← hsameNext] at hnext
      refine ⟨?_, hfree, hnext⟩
      have hout : b ∉ f :: mid := by
        intro hmem
        rw [hrun b (by rw [hfm]; exact hmem)] at hfree
        cases hfree
      simp only [List.mem_append, List.mem_cons, not_or] at hb hout ⊢
      tauto

end Free

end Init
end Rmmtos
