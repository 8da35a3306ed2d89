import Rmmtos.Kernel.HeapInvariant

/-!
# Ownership of heap blocks

The users of the heap are told apart by labels: every address that is in use
has the label of its one user, so that two users never share a block.  A label
also says how many bytes its user needs at least.
-/

namespace Rmmtos
namespace Kernel

open Library Library.Zones

/-- Every labelled address is the address of a taken block that is large enough
for its label. -/
structure Owned {ω : Type} (size : ω -> Nat) (h : Heap)
    (label : Word -> Option ω) : Prop where
  heap : HeapInv h
  taken : forall p o, label p = some o -> exists b, h.taken b = true ∧
    h.address b = p ∧ size o ≤ blockSize h.layout b

section Ownership

variable {ω : Type} {size : ω -> Nat} {h : Heap} {label : Word -> Option ω}

theorem Owned.take (howned : Owned size h label) {b : Nat}
    (hb : b < blockCount h.layout) (hfree : h.taken b = false) {o : ω}
    (hlarge : size o ≤ blockSize h.layout b) : label (h.address b) = none ∧
      Owned size (h.take b) (Function.update label (h.address b) (some o)) := by
  have hinv := howned.heap
  constructor
  · cases hlabel : label (h.address b) with
    | none => rfl
    | some o' =>
        rcases howned.taken _ o' hlabel with ⟨c, hc, hcb, _⟩
        have hcb := address_injective hinv.table (hinv.taken_lt c hc) hb hcb
        rw [hcb, hfree] at hc
        cases hc
  · refine ⟨take_inv hinv hb hfree, ?_⟩
    intro q o' hq
    by_cases hqp : q = h.address b
    · subst hqp
      rw [Function.update_self] at hq
      cases hq
      exact ⟨b, by simp [take_taken], rfl, hlarge⟩
    · rw [Function.update_of_ne hqp] at hq
      rcases howned.taken q o' hq with ⟨c, hc, hcq, hcsize⟩
      exact ⟨c, by simp [take_taken, hc], hcq, hcsize⟩

theorem Owned.malloc (howned : Owned size h label) {n p : Word} {h' : Heap}
    (hrun : Kernel.malloc h n = .ok (p, h')) {o : ω} (hsize : size o ≤ n.toNat) :
    label p = none ∧ Owned size h' (Function.update label p (some o)) := by
  have hinv := howned.heap
  rcases malloc_block hinv.zoneTable hrun with ⟨b, hskip, hb, hfree, rfl, rfl⟩
  have hlarge := le_blockSize_of_sorted hinv.sizes_sorted hskip hb
  exact howned.take hb hfree (Nat.le_trans hsize hlarge)

theorem Owned.free (howned : Owned size h label) {p : Word} {o : ω}
    (hp : label p = some o) :
    exists h', Kernel.free h p = .ok h' ∧
      Owned size h' (Function.update label p none) := by
  have hinv := howned.heap
  rcases howned.taken p o hp with ⟨b, hb, rfl, _⟩
  have hlt := hinv.taken_lt b hb
  refine ⟨h.release b, free_address hinv.table hlt, release_inv hinv hb, ?_⟩
  intro q o' hq
  by_cases hqp : q = h.address b
  · rw [hqp, Function.update_self] at hq
    cases hq
  · rw [Function.update_of_ne hqp] at hq
    rcases howned.taken q o' hq with ⟨c, hc, hcq, hcsize⟩
    have hcb : c ≠ b := by
      intro heq
      exact hqp (by rw [← hcq, heq])
    exact ⟨c, by simp [release_taken, hc, hcb], hcq, hcsize⟩

theorem Owned.free_taken (howned : Owned size h label) {p : Word} {o : ω}
    (hp : label p = some o) {h' : Heap} (hrun : Kernel.free h p = .ok h') :
    h'.zones = h.zones ∧ h'.poolStart = h.poolStart ∧
      forall b, h'.taken b = true <-> h.taken b = true ∧ h.address b ≠ p := by
  have hinv := howned.heap
  rcases howned.taken p o hp with ⟨c, hc, rfl, _⟩
  have hlt := hinv.taken_lt c hc
  rw [free_address hinv.table hlt] at hrun
  cases hrun
  refine ⟨rfl, rfl, fun b => ?_⟩
  rw [release_taken]
  by_cases hbc : b = c
  · subst hbc
    simp [hc]
  · have hother : h.taken b = true -> h.address b ≠ h.address c := by
      intro hb heq
      exact hbc (address_injective hinv.table (hinv.taken_lt b hb) hlt heq)
    simpa [hbc] using hother

theorem Owned.mono (howned : Owned size h label) {label' : Word -> Option ω}
    (hmono : forall p o, label' p = some o -> label p = some o) :
    Owned size h label' :=
  ⟨howned.heap, fun p o hp => howned.taken p o (hmono p o hp)⟩

/-- A block may pass to an owner that needs no more of it. -/
theorem Owned.relabel (howned : Owned size h label) {p : Word} {o : ω}
    (hp : label p = some o) (o' : ω) (hsize : size o' ≤ size o) :
    Owned size h (Function.update label p (some o')) := by
  refine ⟨howned.heap, ?_⟩
  intro q o'' hq
  by_cases hqp : q = p
  · subst hqp
    rw [Function.update_self] at hq
    cases hq
    rcases howned.taken q o hp with ⟨b, hb, hbq, hlarge⟩
    exact ⟨b, hb, hbq, Nat.le_trans hsize hlarge⟩
  · rw [Function.update_of_ne hqp] at hq
    exact howned.taken q o'' hq

theorem Owned.inside (howned : Owned size h label) {p : Word} {o : ω}
    (hp : label p = some o) : p.toNat + size o < 65536 := by
  rcases howned.taken p o hp with ⟨b, hb, rfl, hsize⟩
  have hlt := howned.heap.taken_lt b hb
  rw [address_toNat howned.heap hlt]
  have hend := blockEnd_le_byteCount hlt
  have hfit := howned.heap.pool_fits
  omega

theorem Owned.apart (howned : Owned size h label) {p q : Word} {o o' : ω}
    (hp : label p = some o) (hq : label q = some o') (hne : p ≠ q) :
    p.toNat + size o ≤ q.toNat ∨ q.toNat + size o' ≤ p.toNat := by
  rcases howned.taken p o hp with ⟨b, hb, rfl, hsize⟩
  rcases howned.taken q o' hq with ⟨c, hc, rfl, hsize'⟩
  have hblt := howned.heap.taken_lt b hb
  have hclt := howned.heap.taken_lt c hc
  rw [address_toNat howned.heap hblt, address_toNat howned.heap hclt]
  rcases Nat.lt_trichotomy b c with hlt | heq | hgt
  · left
    have hend := blockEnd_le_blockStart hlt hclt
    omega
  · exact absurd (by rw [heq]) hne
  · right
    have hend := blockEnd_le_blockStart hgt hblt
    omega

theorem address_ne_zero (hinv : HeapInv h) (hpos : 0 < h.poolStart.toNat)
    {b : Nat} (hb : b < blockCount h.layout) : h.address b ≠ 0 := by
  intro hzero
  have hnat := address_toNat hinv hb
  rw [hzero] at hnat
  change 0 = _ at hnat
  omega

theorem malloc_ne_zero (hinv : HeapInv h) (hpos : 0 < h.poolStart.toNat)
    {n p : Word} {h' : Heap} (hrun : Kernel.malloc h n = .ok (p, h')) :
    p ≠ 0 := by
  rcases malloc_block hinv.zoneTable hrun with ⟨b, _, hb, _, rfl, _⟩
  exact address_ne_zero hinv hpos hb

end Ownership

/-!
# The pool stays where it is
-/

theorem malloc_poolStart {h h' : Heap} {n p : Word}
    (hrun : Kernel.malloc h n = .ok (p, h')) : h'.poolStart = h.poolStart := by
  rcases ok_bind_iff.mp hrun with ⟨b, _, hrun⟩
  rcases ok_bind_iff.mp hrun with ⟨c, _, hrun⟩
  split at hrun
  · cases hrun
    rfl
  · cases hrun

theorem free_poolStart {h h' : Heap} {p : Word}
    (hrun : Kernel.free h p = .ok h') : h'.poolStart = h.poolStart := by
  unfold Kernel.free at hrun
  split at hrun
  · cases hrun
  · cases hrun
    rfl

/-!
# Lists of live blocks

Where all users are alike, their addresses are enough.
-/

def liveLabel (live : List Word) (p : Word) : Option Unit :=
  if p ∈ live then some () else none

def OwnsAll (h : Heap) (live : List Word) : Prop :=
  Owned (fun _ : Unit => 0) h (liveLabel live)

section Lists

variable {h h' : Heap} {live : List Word} {n p : Word}

theorem liveLabel_cons : Function.update (liveLabel live) p (some ()) =
    liveLabel (p :: live) := by
  funext q
  unfold liveLabel
  by_cases hq : q = p <;> simp [hq]

theorem liveLabel_erase (hnodup : live.Nodup) :
    Function.update (liveLabel live) p none = liveLabel (live.erase p) := by
  funext q
  unfold liveLabel
  by_cases hq : q = p
  · subst hq
    simp [hnodup.not_mem_erase]
  · simp [hq, List.mem_erase_of_ne hq]

theorem liveLabel_none (hnone : liveLabel live p = none) : p ∉ live := by
  intro hmem
  unfold liveLabel at hnone
  rw [if_pos hmem] at hnone
  cases hnone

theorem OwnsAll.malloc (hs : OwnsAll h live)
    (hrun : Kernel.malloc h n = .ok (p, h')) :
    p ∉ live ∧ OwnsAll h' (p :: live) := by
  rcases Owned.malloc hs hrun (o := ()) (Nat.zero_le _) with ⟨hnone, howned⟩
  rw [liveLabel_cons] at howned
  exact ⟨liveLabel_none hnone, howned⟩

theorem OwnsAll.free (hs : OwnsAll h live) (hnodup : live.Nodup)
    (hp : p ∈ live) (hrun : Kernel.free h p = .ok h') :
    OwnsAll h' (live.erase p) := by
  rcases Owned.free hs (o := ()) (if_pos hp) with ⟨h₁, hrun₁, howned⟩
  rw [hrun] at hrun₁
  cases hrun₁
  rw [liveLabel_erase hnodup] at howned
  exact howned

structure Owns (h : Heap) (live : List Word) : Prop where
  all : OwnsAll h live
  nodup : live.Nodup
  pool_pos : 0 < h.poolStart.toNat

theorem owns_none (hinv : HeapInv h) (hpool : 0 < h.poolStart.toNat) : Owns h [] :=
  ⟨⟨hinv, fun _ _ hp => by cases hp⟩, List.nodup_nil, hpool⟩

theorem Owns.ne_zero (hs : Owns h live) (hp : p ∈ live) : p ≠ 0 := by
  rcases hs.all.taken p () (if_pos hp) with ⟨b, hb, rfl, _⟩
  exact address_ne_zero hs.all.heap hs.pool_pos (hs.all.heap.taken_lt b hb)

theorem Owns.perm {live' : List Word} (hs : Owns h live)
    (hperm : live.Perm live') : Owns h live' := by
  refine ⟨Owned.mono hs.all ?_, hperm.nodup_iff.mp hs.nodup, hs.pool_pos⟩
  intro p o hp
  unfold liveLabel at *
  rw [if_congr hperm.mem_iff rfl rfl]
  exact hp

theorem Owns.malloc (hs : Owns h live) (hrun : Kernel.malloc h n = .ok (p, h')) :
    p ∉ live ∧ Owns h' (p :: live) := by
  rcases hs.all.malloc hrun with ⟨hp, hall⟩
  refine ⟨hp, hall, List.nodup_cons.mpr ⟨hp, hs.nodup⟩, ?_⟩
  rw [malloc_poolStart hrun]
  exact hs.pool_pos

theorem Owns.take (hs : Owns h live) {b : Nat} (hb : b < blockCount h.layout)
    (hfree : h.taken b = false) : Owns (h.take b) (h.address b :: live) := by
  rcases Owned.take hs.all hb hfree (o := ()) (Nat.zero_le _) with ⟨hnone, howned⟩
  rw [liveLabel_cons] at howned
  exact ⟨howned, List.nodup_cons.mpr ⟨liveLabel_none hnone, hs.nodup⟩, hs.pool_pos⟩

theorem Owns.malloc_cases (hs : Owns h live) (n : Word) :
    Kernel.malloc h n = panic .outOfMem ∨ exists p h',
      Kernel.malloc h n = .ok (p, h') ∧ p ∉ live ∧ Owns h' (p :: live) := by
  rcases malloc_eq hs.all.heap.zoneTable n with ⟨b, _, _, _, _, heq⟩ | ⟨_, heq⟩
  · exact Or.inr ⟨_, _, heq, hs.malloc heq⟩
  · exact Or.inl heq

theorem Owns.free (hs : Owns h live) (hp : p ∈ live) :
    exists h', Kernel.free h p = .ok h' ∧ Owns h' (live.erase p) := by
  rcases Owned.free hs.all (o := ()) (if_pos hp) with ⟨h', hrun, _⟩
  refine ⟨h', hrun, hs.all.free hs.nodup hp hrun, hs.nodup.erase p, ?_⟩
  rw [free_poolStart hrun]
  exact hs.pool_pos

end Lists

end Kernel
end Rmmtos
