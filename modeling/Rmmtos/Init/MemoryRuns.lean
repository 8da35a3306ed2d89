import Rmmtos.Init.Allocate
import Rmmtos.Init.Release

/-!
# Histories of the user heap

A program allocates, frees what it has allocated, and stores bytes inside its
allocations, in any order.
-/

namespace Rmmtos
namespace Init

open Library

/-!
# Start-up
-/

theorem mallocInit_header (m : UserMem) (start finish : Word) :
    header (mallocInit m start finish).mem start = ⟨0, finish + 1, true⟩ := by
  simp only [mallocInit, header_setFree, header_setNext, header_setPrev]

theorem mallocInit_headerList (m : UserMem) {start finish : Word}
    (hhigh : finish < 0xffff) (hroom : start.toNat + 6 ≤ finish.toNat + 1) :
    HeaderList (mallocInit m start finish) [start] := by
  have hheader := mallocInit_header m start finish
  have hover : (finish + 1).toNat = finish.toNat + 1 := by bv_omega
  refine ⟨rfl, ?_, ?_⟩
  · exact ⟨congrArg Header.prev hheader, congrArg Header.next hheader, trivial⟩
  · refine List.pairwise_cons.mpr ⟨?_, List.pairwise_singleton _ _⟩
    intro b hb
    rw [List.mem_singleton.mp hb]
    change start.toNat + 6 ≤ (finish + 1).toNat
    omega

theorem mallocInit_blockList (m : UserMem) {start finish : Word}
    (hpos : 0 < start) (hhigh : finish < 0xffff)
    (hroom : start.toNat + 6 ≤ finish.toNat + 1) :
    BlockList (mallocInit m start finish) [start] where
  toHeaderList := mallocInit_headerList m hhigh hroom
  first_pos := hpos
  coalesced := List.IsChain.singleton _

/-!
# Histories
-/

structure UserBlock where
  address : Word
  asked : Word
deriving DecidableEq

structure UserRun where
  heap : UserHeap
  live : List UserBlock

def storeByte (h : UserHeap) (address i : Word) (v : Byte) : UserHeap :=
  { h with mem := Function.update h.mem (address + i) v }

inductive UserStep : UserRun -> UserRun -> Prop where
  | allocate {s : UserRun} {size p : Word} {h : UserHeap} :
      allocateMemory s.heap size = .ok (p, h) -> p ≠ 0 ->
      UserStep s ⟨h, ⟨p, size⟩ :: s.live⟩
  | refuse {s : UserRun} {size : Word} {h : UserHeap} :
      allocateMemory s.heap size = .ok (0, h) -> UserStep s ⟨h, s.live⟩
  | free {s : UserRun} {a : UserBlock} {h : UserHeap} :
      a ∈ s.live -> freeMemory s.heap a.address = .ok h ->
      UserStep s ⟨h, s.live.erase a⟩
  | store {s : UserRun} {a : UserBlock} {i : Word} {v : Byte} :
      a ∈ s.live -> i < a.asked ->
      UserStep s ⟨storeByte s.heap a.address i v, s.live⟩

/-- The payload of an allocation is the part of its block behind the header. -/
def payloadOf (h : UserHeap) (p : Word) : Word :=
  payloadSize h.mem (p - headerSize)

/-- What the heap promises a program in one state of a history. -/
structure UserHeapSound (s : UserRun) (bs : List Word) : Prop where
  path : NextPath (next s.heap.mem) s.heap.overblock s.heap.first bs
  increasing : bs.Pairwise (fun a b => a < b)
  tiling : forall x : Word, s.heap.first ≤ x -> x < s.heap.overblock ->
    exists b, (b ∈ bs ∧ b ≤ x ∧ x < next s.heap.mem b) ∧
      forall b', b' ∈ bs -> b' ≤ x -> x < next s.heap.mem b' -> b' = b
  inside : forall b, b ∈ bs -> s.heap.first ≤ b ∧ b + headerSize ≤ next s.heap.mem b ∧
    next s.heap.mem b ≤ s.heap.overblock
  first_prev : prev s.heap.mem s.heap.first = 0
  inverse : forall a b, a ∈ bs -> b ∈ bs ->
    (next s.heap.mem a = b <-> prev s.heap.mem b = a)
  coalesced : forall a, a ∈ bs -> next s.heap.mem a ∈ bs ->
    ¬ (isFree s.heap.mem a = true ∧ isFree s.heap.mem (next s.heap.mem a) = true)
  blocks : forall a, a ∈ s.live -> a.address - headerSize ∈ bs ∧
    isFree s.heap.mem (a.address - headerSize) = false
  large : forall a, a ∈ s.live -> a.asked ≤ payloadOf s.heap a.address
  disjoint : s.live.Pairwise (fun a b =>
    a.address + payloadOf s.heap a.address ≤ b.address ∨
      b.address + payloadOf s.heap b.address ≤ a.address)
  answers : forall size, exists p h, allocateMemory s.heap size = .ok (p, h) ∧
    (p = 0 <-> forall b, b ∈ bs -> ¬ Fits s.heap size b)
  releases : forall a, a ∈ s.live -> exists h,
    freeMemory s.heap a.address = .ok h
  recovered : s.live = [] -> bs = [s.heap.first] ∧
    isFree s.heap.mem s.heap.first = true

/-- The invariant of a history: the live allocations are the taken blocks. -/
structure UserRunInv (s : UserRun) (bs : List Word) : Prop where
  list : BlockList s.heap bs
  live_nodup : (s.live.map UserBlock.address).Nodup
  live_taken : forall a, a ∈ s.live -> exists c e,
    Taken s.heap bs c e ∧ a.address = c + headerSize ∧
      c.toNat + 6 + a.asked.toNat ≤ e.toNat
  taken_live : forall c e, Taken s.heap bs c e ->
    exists a, a ∈ s.live ∧ a.address = c + headerSize

theorem add_headerSize_injective {b c : Word}
    (h : b + headerSize = c + headerSize) : b = c :=
  (BitVec.add_left_inj headerSize).mp h

section Runs

variable {s : UserRun} {bs : List Word}

theorem UserRunInv.live_inj (hs : UserRunInv s bs) {a a' : UserBlock}
    (ha : a ∈ s.live) (ha' : a' ∈ s.live) (heq : a.address = a'.address) :
    a = a' :=
  List.inj_on_of_nodup_map hs.live_nodup ha ha' heq

theorem userRunInv_allocate (hs : UserRunInv s bs) {size p : Word}
    {h : UserHeap} (hrun : allocateMemory s.heap size = .ok (p, h))
    (hp : p ≠ 0) :
    exists bs', UserRunInv ⟨h, ⟨p, size⟩ :: s.live⟩ bs' := by
  rcases allocateMemory_spec hs.list size with
    ⟨hnone, _⟩ | ⟨c, e, m, bs', hc, hfits, hsome, hlist, hsize, htaken⟩
  · rw [hnone] at hrun
    cases hrun
    exact absurd rfl hp
  · rw [hsome] at hrun
    cases hrun
    refine ⟨bs', hlist, ?_, ?_, ?_⟩
    · refine List.nodup_cons.mpr ⟨?_, hs.live_nodup⟩
      intro hmem
      rcases List.mem_map.mp hmem with ⟨a, ha, haddr⟩
      rcases hs.live_taken a ha with ⟨b, _, ⟨_, hbfree, _⟩, hb, _⟩
      have hbc : b = c := add_headerSize_injective (hb.symm.trans haddr)
      rw [hbc, hfits.1] at hbfree
      cases hbfree
    · intro a ha
      rcases List.mem_cons.mp ha with rfl | ha
      · exact ⟨c, e, (htaken c e).mpr (Or.inr ⟨rfl, rfl⟩), rfl, hsize⟩
      · rcases hs.live_taken a ha with ⟨b, e', hb, haddr, hlarge⟩
        exact ⟨b, e', (htaken b e').mpr (Or.inl hb), haddr, hlarge⟩
    · intro b e' hb
      rcases (htaken b e').mp hb with hb | ⟨rfl, _⟩
      · rcases hs.taken_live b e' hb with ⟨a, ha, haddr⟩
        exact ⟨a, List.mem_cons_of_mem _ ha, haddr⟩
      · exact ⟨⟨b + headerSize, size⟩, List.mem_cons_self, rfl⟩

theorem userRunInv_refuse (hs : UserRunInv s bs) {size : Word}
    {h : UserHeap} (hrun : allocateMemory s.heap size = .ok (0, h)) :
    h = s.heap := by
  rcases allocateMemory_spec hs.list size with
    ⟨hnone, _⟩ | ⟨c, e, m, bs', hc, _, hsome, _⟩
  · rw [hnone] at hrun
    cases hrun
    rfl
  · rw [hsome] at hrun
    injection hrun with hpair
    have hzero : c + headerSize = 0 := congrArg Prod.fst hpair
    have hend := hs.list.end_le hc
    have hover := s.heap.overblock.isLt
    unfold headerSize at hzero
    bv_omega

theorem userRunInv_free (hs : UserRunInv s bs) {a : UserBlock} {h : UserHeap}
    (ha : a ∈ s.live) (hrun : freeMemory s.heap a.address = .ok h) :
    exists bs', UserRunInv ⟨h, s.live.erase a⟩ bs' := by
  rcases hs.live_taken a ha with ⟨c, e, hc, haddr, _⟩
  rcases freeMemory_spec hs.list hc.1 with ⟨m, bs', hfree, hlist, htaken⟩
  rw [haddr, hfree] at hrun
  cases hrun
  have hnodup : s.live.Nodup := List.Nodup.of_map _ hs.live_nodup
  refine ⟨bs', hlist, ?_, ?_, ?_⟩
  · exact hs.live_nodup.sublist (List.erase_sublist.map _)
  · intro a' ha'
    rcases (List.Nodup.mem_erase_iff hnodup).mp ha' with ⟨hne, hmem⟩
    rcases hs.live_taken a' hmem with ⟨b, e', hb, haddr', hlarge⟩
    refine ⟨b, e', (htaken b e').mpr ⟨hb, ?_⟩, haddr', hlarge⟩
    intro hbc
    exact hne (hs.live_inj hmem ha (by rw [haddr', haddr, hbc]))
  · intro b e' hb
    rcases (htaken b e').mp hb with ⟨hb, hbc⟩
    rcases hs.taken_live b e' hb with ⟨a', ha', haddr'⟩
    refine ⟨a', (List.Nodup.mem_erase_iff hnodup).mpr ⟨?_, ha'⟩, haddr'⟩
    intro heq
    rw [heq, haddr] at haddr'
    exact hbc (add_headerSize_injective haddr').symm

/-!
The blocks follow each other without gaps, so a block that starts later starts
behind the end of an earlier one.
-/

theorem BlockList.next_le_of_lt {h : UserHeap} (hbs : BlockList h bs)
    {b c : Word} (hb : b ∈ bs) (hc : c ∈ bs) (hlt : c.toNat < b.toNat) :
    (next h.mem c).toNat ≤ b.toNat := by
  rcases List.append_of_mem hc with ⟨pre, post, rfl⟩
  rw [hbs.next_eq]
  have hspaced := (List.pairwise_append.mp hbs.spaced).1
  rcases List.pairwise_append.mp hspaced with ⟨_, hrest, hcross⟩
  rcases List.mem_append.mp hb with hb | hb
  · have hbc := hcross b hb c (by simp)
    omega
  · rcases List.mem_cons.mp hb with rfl | hb
    · omega
    · cases post with
      | nil => simp at hb
      | cons l rest =>
          rw [List.headD_cons]
          rcases List.mem_cons.mp hb with rfl | hb
          · exact Nat.le_refl _
          · have hpost := (List.pairwise_cons.mp hrest).2
            have hlb := List.rel_of_pairwise_cons hpost hb
            omega

theorem BlockList.next_le_over {h : UserHeap} (hbs : BlockList h bs)
    {c : Word} (hc : c ∈ bs) :
    (next h.mem c).toNat ≤ h.overblock.toNat := by
  rcases List.append_of_mem hc with ⟨pre, post, rfl⟩
  rw [hbs.next_eq]
  cases post with
  | nil => exact Nat.le_refl _
  | cons l rest =>
      have hend := hbs.end_le (b := l) (by simp)
      rw [List.headD_cons]
      omega

theorem linked_covers {m : UserMem} {p q x : Word} {xs : List Word}
    (hlinked : Linked (prev m) (next m) p xs q)
    (hlow : (xs.headD q).toNat ≤ x.toNat) (hhigh : x.toNat < q.toNat) :
    exists b, b ∈ xs ∧ b.toNat ≤ x.toNat ∧ x.toNat < (next m b).toNat := by
  induction xs generalizing p with
  | nil =>
      rw [List.headD_nil] at hlow
      omega
  | cons b rest ih =>
      rcases hlinked with ⟨_, hnext, hrest⟩
      by_cases hx : x.toNat < (next m b).toNat
      · exact ⟨b, List.mem_cons_self, hlow, hx⟩
      · rw [hnext] at hx
        rcases ih hrest (by omega) with ⟨c, hc, hcx⟩
        exact ⟨c, List.mem_cons_of_mem b hc, hcx⟩

theorem userRunInv_store (hs : UserRunInv s bs) {a : UserBlock}
    (ha : a ∈ s.live) {i : Word} (hi : i < a.asked) (v : Byte) :
    UserRunInv ⟨storeByte s.heap a.address i v, s.live⟩ bs := by
  rcases hs.live_taken a ha with ⟨c, e, ⟨hc, _, hnext⟩, haddr, hlarge⟩
  have hend := hs.list.end_le hc
  have hover := s.heap.overblock.isLt
  have hi' : i.toNat < a.asked.toNat := hi
  have helt := e.isLt
  have hx : (a.address + i).toNat = c.toNat + 6 + i.toNat := by
    rw [haddr]
    unfold headerSize
    bv_omega
  have hsame : forall b, b ∈ bs ->
      header (storeByte s.heap a.address i v).mem b = header s.heap.mem b := by
    intro b hb
    have hbEnd := hs.list.end_le hb
    apply header_congr
    intro y hy
    refine Function.update_of_ne ?_ _ _
    intro heq
    subst heq
    rcases Nat.lt_trichotomy b.toNat c.toNat with hlt | heq | hgt
    · have hnextLe := hs.list.next_le_of_lt hc hb hlt
      have hbNext := hs.list.next_le hb
      bv_omega
    · bv_omega
    · have hnextLe := hs.list.next_le_of_lt hb hc hgt
      rw [hnext] at hnextLe
      bv_omega
  have hkeep : forall b e', Taken (storeByte s.heap a.address i v) bs b e' <->
      Taken s.heap bs b e' := by
    intro b e'
    unfold Taken
    refine and_congr_right fun hb => ?_
    have hparts := header_parts (hsame b hb)
    rw [hparts.2.1, hparts.2.2]
  refine ⟨hs.list.congr hsame, hs.live_nodup, ?_, ?_⟩
  · intro a' ha'
    rcases hs.live_taken a' ha' with ⟨b, e', hb, hrest⟩
    exact ⟨b, e', (hkeep b e').mpr hb, hrest⟩
  · exact fun b e' hb => hs.taken_live b e' ((hkeep b e').mp hb)

theorem userRunInv_step {s' : UserRun} (hs : UserRunInv s bs)
    (hstep : UserStep s s') : exists bs', UserRunInv s' bs' := by
  cases hstep with
  | allocate hrun hp => exact userRunInv_allocate hs hrun hp
  | refuse hrun => exact ⟨bs, by rw [userRunInv_refuse hs hrun]; exact hs⟩
  | free ha hrun => exact userRunInv_free hs ha hrun
  | store ha hi => exact ⟨bs, userRunInv_store hs ha hi _⟩

/-!
# Soundness
-/

theorem payload_end {h : UserHeap} (hbs : BlockList h bs) {c : Word}
    (hc : c ∈ bs) :
    c + headerSize + payloadOf h (c + headerSize) = next h.mem c := by
  have hle := hbs.next_le hc
  rw [payloadOf, BitVec.add_sub_cancel]
  unfold payloadSize headerSize
  bv_omega

theorem BlockList.tiles {h : UserHeap} (hbs : BlockList h bs) {x : Word}
    (hlow : h.first.toNat ≤ x.toNat) (hhigh : x.toNat < h.overblock.toNat) :
    exists b, (b ∈ bs ∧ b ≤ x ∧ x < next h.mem b) ∧
      forall b', b' ∈ bs -> b' ≤ x -> x < next h.mem b' -> b' = b := by
  rcases linked_covers hbs.linked (hbs.headD_eq ▸ hlow) hhigh with ⟨b, hb, hbx, hxb⟩
  refine ⟨b, ⟨hb, hbx, hxb⟩, ?_⟩
  intro b' hb' hbx' hxb'
  have hbx'' : b'.toNat ≤ x.toNat := hbx'
  have hxb'' : x.toNat < (next h.mem b').toNat := hxb'
  rcases Nat.lt_trichotomy b'.toNat b.toNat with hlt | heq | hgt
  · have hle := hbs.next_le_of_lt hb hb' hlt
    omega
  · exact BitVec.eq_of_toNat_eq heq
  · have hle := hbs.next_le_of_lt hb' hb hgt
    omega

theorem BlockList.coalesced_next {h : UserHeap} (hbs : BlockList h bs) {a : Word}
    (ha : a ∈ bs) (hnext : next h.mem a ∈ bs) :
    ¬ (isFree h.mem a = true ∧ isFree h.mem (next h.mem a) = true) := by
  have hover : h.overblock ∉ bs := fun hmem => hbs.ne_over hmem rfl
  intro hfree
  rcases List.append_of_mem ha with ⟨pre, post, rfl⟩
  rw [hbs.next_eq] at hnext hfree
  cases post with
  | nil => exact hover hnext
  | cons l rest =>
      have hchain := (List.isChain_append_cons_cons.mp hbs.coalesced).2.1
      have hl := hchain hfree.1
      rw [List.headD_cons, hl] at hfree
      exact Bool.noConfusion hfree.2

theorem BlockList.all_free {h : UserHeap} (hbs : BlockList h bs)
    (hfree : forall b, b ∈ bs -> isFree h.mem b = true) : bs = [h.first] := by
  rcases List.head?_eq_some_iff.mp hbs.head with ⟨rest, rfl⟩
  cases rest with
  | nil => rfl
  | cons l rest =>
      have hchain := (List.isChain_cons_cons.mp hbs.coalesced).1
      have hl := hchain (hfree _ List.mem_cons_self)
      rw [hfree l (List.mem_cons_of_mem _ List.mem_cons_self)] at hl
      cases hl

theorem UserRunInv.live_block (hs : UserRunInv s bs) {a : UserBlock} (ha : a ∈ s.live) :
    exists c, c ∈ bs ∧ a.address = c + headerSize ∧ a.address - headerSize = c ∧
      isFree s.heap.mem c = false ∧
      c.toNat + 6 + a.asked.toNat ≤ (next s.heap.mem c).toNat := by
  rcases hs.live_taken a ha with ⟨c, e, ⟨hc, hcfree, hnext⟩, haddr, hlarge⟩
  refine ⟨c, hc, haddr, ?_, hcfree, ?_⟩
  · rw [haddr, BitVec.add_sub_cancel]
  · rw [hnext]
    exact hlarge

theorem BlockList.payload_le {h : UserHeap} (hbs : BlockList h bs) {b c : Word}
    (hb : b ∈ bs) (hc : c ∈ bs) (hlt : b.toNat < c.toNat) :
    b + headerSize + payloadOf h (b + headerSize) ≤ c + headerSize := by
  have hend := hbs.end_le hc
  have hover := h.overblock.isLt
  have hle := hbs.next_le_of_lt hc hb hlt
  rw [payload_end hbs hb]
  change _ ≤ (c + headerSize).toNat
  unfold headerSize
  bv_omega

theorem UserRunInv.disjoint (hs : UserRunInv s bs) : s.live.Pairwise (fun a b =>
    a.address + payloadOf s.heap a.address ≤ b.address ∨
      b.address + payloadOf s.heap b.address ≤ a.address) := by
  refine (List.pairwise_map.mp hs.live_nodup).imp_of_mem ?_
  intro a a' ha ha' hne
  rcases hs.live_block ha with ⟨c, hc, haddr, _⟩
  rcases hs.live_block ha' with ⟨c', hc', haddr', _⟩
  rw [haddr, haddr']
  rcases Nat.lt_trichotomy c.toNat c'.toNat with hcc | hcc | hcc
  · exact Or.inl (hs.list.payload_le hc hc' hcc)
  · exact absurd (by rw [haddr, haddr', BitVec.eq_of_toNat_eq hcc]) hne
  · exact Or.inr (hs.list.payload_le hc' hc hcc)

/-- An allocation is refused exactly when no block fits. -/
theorem BlockList.answers {h : UserHeap} (hbs : BlockList h bs) (size : Word) :
    exists p h', allocateMemory h size = .ok (p, h') ∧
      (p = 0 <-> forall b, b ∈ bs -> ¬ Fits h size b) := by
  rcases allocateMemory_spec hbs size with
    ⟨hnone, hfull⟩ | ⟨c, _, m, _, hc, hfits, hsome, _⟩
  · exact ⟨0, h, hnone, by simpa using hfull⟩
  · refine ⟨_, _, hsome, ?_⟩
    constructor
    · intro hp
      have hend := hbs.end_le hc
      have hlt := h.overblock.isLt
      unfold headerSize at hp
      bv_omega
    · exact fun hnone => absurd hfits (hnone c hc)

theorem UserRunInv.recovered (hs : UserRunInv s bs) (hlive : s.live = []) :
    bs = [s.heap.first] ∧ isFree s.heap.mem s.heap.first = true := by
  have hfree : forall b, b ∈ bs -> isFree s.heap.mem b = true := by
    intro b hb
    cases hcase : isFree s.heap.mem b with
    | true => rfl
    | false =>
        rcases hs.taken_live b _ ⟨hb, hcase, rfl⟩ with ⟨a, ha, _⟩
        rw [hlive] at ha
        cases ha
  exact ⟨hs.list.all_free hfree, hfree _ hs.list.first_mem⟩

theorem userHeapSound_of_inv (hs : UserRunInv s bs) : UserHeapSound s bs := by
  have hlist := hs.list
  have hzero : (0 : Word) ∉ bs := fun hmem => hlist.ne_zero hmem rfl
  have hover : s.heap.overblock ∉ bs := fun hmem => hlist.ne_over hmem rfl
  constructor
  case path => exact hlist.path
  case increasing =>
    refine (List.pairwise_append.mp hlist.spaced).1.imp fun {a b} hab => ?_
    change a.toNat < b.toNat
    omega
  case tiling => exact fun x hlow hhigh => hlist.tiles hlow hhigh
  case inside =>
    intro b hb
    have hnext := hlist.next_le hb
    have hlt := (next s.heap.mem b).isLt
    refine ⟨hlist.head_le hb, ?_, hlist.next_le_over hb⟩
    change (b + headerSize).toNat ≤ _
    unfold headerSize
    bv_omega
  case first_prev =>
    rcases List.head?_eq_some_iff.mp hlist.head with ⟨rest, rfl⟩
    exact hlist.linked.1
  case inverse => exact fun a b ha hb => hlist.linked.inverse hzero hover ha hb
  case coalesced => exact fun a ha hnext => hlist.coalesced_next ha hnext
  case blocks =>
    intro a ha
    rcases hs.live_block ha with ⟨c, hc, _, hac, hcfree, _⟩
    rw [hac]
    exact ⟨hc, hcfree⟩
  case large =>
    intro a ha
    rcases hs.live_block ha with ⟨c, hc, _, hac, _, hlarge⟩
    have hpayload := hlist.payloadSize_toNat hc
    change a.asked.toNat ≤ (payloadOf s.heap a.address).toNat
    rw [payloadOf, hac]
    omega
  case disjoint => exact hs.disjoint
  case answers => exact hlist.answers
  case releases =>
    intro a ha
    rcases hs.live_block ha with ⟨c, hc, haddr, _⟩
    rcases freeMemory_spec hlist hc with ⟨m, _, hfree, _⟩
    exact ⟨_, by rw [haddr, hfree]⟩
  case recovered => exact hs.recovered

end Runs

theorem userRunInv_start (m : UserMem) {start finish : Word}
    (hpos : 0 < start) (hhigh : finish < 0xffff)
    (hroom : start.toNat + 6 ≤ finish.toNat + 1) :
    UserRunInv ⟨mallocInit m start finish, []⟩ [start] := by
  refine ⟨mallocInit_blockList m hpos hhigh hroom, List.nodup_nil, by simp, ?_⟩
  rintro c e ⟨hc, hcfree, _⟩
  have hfree := congrArg Header.free (mallocInit_header m start finish)
  rw [List.mem_singleton.mp hc] at hcfree
  exact Bool.noConfusion (hfree.symm.trans hcfree)

/-- The user heap keeps its block list sound through every history, for every
pool that does not start at the null pointer. -/
theorem user_heap_sound (m : UserMem) (start finish : Word)
    (hpos : 0 < start) (hhigh : finish < 0xffff)
    (hroom : start.toNat + 6 ≤ finish.toNat + 1) {s : UserRun}
    (hs : Reachable (fun s => s = ⟨mallocInit m start finish, []⟩) UserStep s) :
    exists bs, UserHeapSound s bs := by
  have hinv : exists bs, UserRunInv s bs := by
    refine hs.invariant (I := fun s => exists bs, UserRunInv s bs) ?_ ?_
    · rintro s rfl
      exact ⟨[start], userRunInv_start m hpos hhigh hroom⟩
    · rintro s s' ⟨bs, hbs⟩ hstep
      exact userRunInv_step hbs hstep
  rcases hinv with ⟨bs, hbs⟩
  exact ⟨bs, userHeapSound_of_inv hbs⟩

/-- The state after an allocation. -/
def UserRun.allocate (s : UserRun) (size : Word) : UserRun :=
  match allocateMemory s.heap size with
  | .ok (p, h) => ⟨h, ⟨p, size⟩ :: s.live⟩
  | .error _ => s

def UserRun.free (s : UserRun) (a : UserBlock) : UserRun :=
  match freeMemory s.heap a.address with
  | .ok h => ⟨h, s.live.erase a⟩
  | .error _ => s

theorem reachable_allocate {start : UserRun -> Prop} {s : UserRun} {size : Word}
    (hs : Reachable start UserStep s)
    (hok : (s.allocate size).live.head?.any (fun a => a.address != 0) = true)
    (hnew : (s.allocate size).live.length = s.live.length + 1) :
    Reachable start UserStep (s.allocate size) := by
  unfold UserRun.allocate at hok hnew ⊢
  split at hok
  · next p h hrun =>
      refine Reachable.step hs (UserStep.allocate hrun ?_)
      simpa using hok
  · next hrun => simp [hrun] at hnew

theorem reachable_free {start : UserRun -> Prop} {s : UserRun} {a : UserBlock}
    (hs : Reachable start UserStep s) (ha : a ∈ s.live) :
    Reachable start UserStep (s.free a) := by
  unfold UserRun.free
  split
  · next h hrun => exact Reachable.step hs (UserStep.free ha hrun)
  · exact hs

def smallPool : UserRun :=
  (((⟨mallocInit (fun _ => 0) 10 69, []⟩ : UserRun).allocate 4).allocate 4).free
    ⟨16, 4⟩

theorem smallPool_reachable :
    Reachable (fun s => s = ⟨mallocInit (fun _ => 0) 10 69, []⟩) UserStep smallPool := by
  refine reachable_free (reachable_allocate (reachable_allocate
    (Reachable.start rfl) ?_ ?_) ?_ ?_) ?_ <;> decide +kernel

theorem user_heap_sound_small_pool : exists bs, UserHeapSound smallPool bs :=
  user_heap_sound (fun _ => 0) 10 69 (by decide) (by decide) (by decide)
    smallPool_reachable

/-!
A block at address zero looks like no block at all from the block behind it,
so a pool that starts there does not stay merged.
-/

def unmergedPool : UserRun :=
  (((((⟨mallocInit (fun _ => 0) 0 59, []⟩ : UserRun).allocate 4).allocate
    4).allocate 4).free ⟨6, 4⟩).free ⟨16, 4⟩

theorem unmergedPool_reachable :
    Reachable (fun s => s = ⟨mallocInit (fun _ => 0) 0 59, []⟩) UserStep
      unmergedPool := by
  refine reachable_free (reachable_free (reachable_allocate
    (reachable_allocate (reachable_allocate (Reachable.start rfl) ?_ ?_) ?_ ?_)
    ?_ ?_) ?_) ?_ <;> decide +kernel

/-- The first two blocks are never both free. -/
theorem UserHeapSound.first_two {s : UserRun} {bs : List Word}
    (hs : UserHeapSound s bs) (hfirst : s.heap.first ≠ s.heap.overblock)
    (hnext : next s.heap.mem s.heap.first ≠ s.heap.overblock) :
    ¬ (isFree s.heap.mem s.heap.first = true ∧
      isFree s.heap.mem (next s.heap.mem s.heap.first) = true) := by
  rcases hs.path.exists_rest hfirst with ⟨rest, rfl, hrest⟩
  rcases hrest.exists_rest hnext with ⟨rest, rfl, _⟩
  exact hs.coalesced _ List.mem_cons_self (by simp)

theorem user_heap_null_pool :
    ¬ (forall (m : UserMem) (start finish : Word), finish < 0xffff ->
      start.toNat + 6 ≤ finish.toNat + 1 -> forall s,
      Reachable (fun s => s = ⟨mallocInit m start finish, []⟩) UserStep s ->
      exists bs, UserHeapSound s bs) := by
  intro hall
  rcases hall _ 0 59 (by decide) (by decide) _ unmergedPool_reachable with ⟨bs, hbs⟩
  exact hbs.first_two (by decide +kernel) (by decide +kernel) (by decide +kernel)

end Init
end Rmmtos
