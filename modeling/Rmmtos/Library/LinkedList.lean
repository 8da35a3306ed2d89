import Rmmtos.Library.Loop
import Mathlib.Data.List.DropRight
import Mathlib.Logic.Function.Basic

/-!
# Doubly linked lists in memory

A list of nodes is linked when each node points to its neighbours.  The two
ends are given from outside: the node before the first one and the node after
the last one need not be nodes at all.
-/

namespace Rmmtos
namespace Library

section LinkedList

variable {α : Type _} {prev next prev' next' : α -> α}

/-- The nodes of a list point to each other, the first one back to {lit}`p` and
the last one on to {lit}`q`. -/
def Linked (prev next : α -> α) : α -> List α -> α -> Prop
  | _, [], _ => True
  | p, a :: rest, q =>
      prev a = p ∧ next a = rest.headD q ∧ Linked prev next a rest q

@[simp] theorem linked_nil (p q : α) : Linked prev next p [] q := trivial

theorem linked_cons {p q a : α} {rest : List α} :
    Linked prev next p (a :: rest) q <->
      prev a = p ∧ next a = rest.headD q ∧ Linked prev next a rest q :=
  Iff.rfl

theorem headD_append (xs ys : List α) (q : α) :
    (xs ++ ys).headD q = xs.headD (ys.headD q) := by
  cases xs <;> rfl

theorem linked_append {p q : α} {xs ys : List α} :
    Linked prev next p (xs ++ ys) q <->
      Linked prev next p xs (ys.headD q) ∧
        Linked prev next (xs.getLastD p) ys q := by
  induction xs generalizing p with
  | nil => simp
  | cons a rest ih =>
      rw [List.cons_append, linked_cons, linked_cons, headD_append, ih,
        List.getLastD_cons]
      constructor
      · rintro ⟨hprev, hnext, hrest, hys⟩
        exact ⟨⟨hprev, hnext, hrest⟩, hys⟩
      · rintro ⟨⟨hprev, hnext, hrest⟩, hys⟩
        exact ⟨hprev, hnext, hrest, hys⟩

/-- Inside a list each pointer undoes the other. -/
theorem Linked.inverse {p q a b : α} {xs : List α}
    (h : Linked prev next p xs q) (hp : p ∉ xs) (hq : q ∉ xs)
    (ha : a ∈ xs) (hb : b ∈ xs) :
    next a = b <-> prev b = a := by
  constructor
  · intro hnext
    rcases List.append_of_mem ha with ⟨pre, post, rfl⟩
    rcases (linked_append.mp h).2 with ⟨_, hhead, hpost⟩
    cases post with
    | nil =>
        have hqb : q = b := hhead.symm.trans hnext
        rw [hqb] at hq
        exact absurd hb hq
    | cons l rest =>
        have hbl : b = l := hnext.symm.trans hhead
        rw [hbl]
        exact hpost.1
  · intro hprev
    rcases List.append_of_mem hb with ⟨pre, post, rfl⟩
    rcases linked_append.mp h with ⟨hleft, hback, _⟩
    cases pre using List.reverseRecOn with
    | nil =>
        have hpa : p = a := hback.symm.trans hprev
        rw [hpa] at hp
        exact absurd ha hp
    | append_singleton xs x =>
        have hax : a = x := by simpa [hprev] using hback
        rcases (linked_append.mp hleft).2 with ⟨_, hhead, _⟩
        rw [hax]
        exact hhead

theorem Linked.congr {p q : α} {xs : List α}
    (h : Linked prev next p xs q)
    (hsame : forall a, a ∈ xs -> prev' a = prev a ∧ next' a = next a) :
    Linked prev' next' p xs q := by
  induction xs generalizing p with
  | nil => trivial
  | cons a rest ih =>
      rcases h with ⟨hprev, hnext, hrest⟩
      rcases hsame a (by simp) with ⟨hp, hn⟩
      refine ⟨by rw [hp, hprev], by rw [hn, hnext], ih hrest ?_⟩
      exact fun b hb => hsame b (by simp [hb])

theorem Linked.rehang {p p' q : α} {xs : List α}
    (h : Linked prev next p xs q)
    (hhead : forall a, xs.head? = some a -> prev' a = p')
    (hnext : forall a, a ∈ xs -> next' a = next a)
    (hprev : forall a, a ∈ xs.tail -> prev' a = prev a) :
    Linked prev' next' p' xs q := by
  cases xs with
  | nil => trivial
  | cons a rest =>
      rcases h with ⟨_, hn, hrest⟩
      refine ⟨hhead a rfl, by rw [hnext a (by simp), hn], hrest.congr ?_⟩
      intro b hb
      exact ⟨hprev b hb, hnext b (by simp [hb])⟩

/-- Cut a middle part out: the node before it takes over its end. -/
theorem Linked.splice {p q a : α} {pre mid post : List α}
    (h : Linked prev next p (pre ++ a :: (mid ++ post)) q)
    (hpre : forall x, x ∈ pre -> prev' x = prev x ∧ next' x = next x)
    (haPrev : prev' a = prev a) (haNext : next' a = post.headD q)
    (hhead : forall x, post.head? = some x -> prev' x = a)
    (hpostNext : forall x, x ∈ post -> next' x = next x)
    (hpostPrev : forall x, x ∈ post.tail -> prev' x = prev x) :
    Linked prev' next' p (pre ++ a :: post) q := by
  rcases linked_append.mp h with ⟨hleft, hback, _, hright⟩
  rcases linked_append.mp hright with ⟨_, hpost⟩
  refine linked_append.mpr ⟨hleft.congr hpre, by rw [haPrev, hback], haNext, ?_⟩
  exact hpost.rehang hhead hpostNext hpostPrev

/-- Put a new node in after a node. -/
theorem Linked.insert {p q a n : α} {pre post : List α}
    (h : Linked prev next p (pre ++ a :: post) q)
    (hpre : forall x, x ∈ pre -> prev' x = prev x ∧ next' x = next x)
    (haPrev : prev' a = prev a) (haNext : next' a = n)
    (hnPrev : prev' n = a) (hnNext : next' n = post.headD q)
    (hhead : forall x, post.head? = some x -> prev' x = n)
    (hpostNext : forall x, x ∈ post -> next' x = next x)
    (hpostPrev : forall x, x ∈ post.tail -> prev' x = prev x) :
    Linked prev' next' p (pre ++ a :: n :: post) q := by
  rcases linked_append.mp h with ⟨hleft, hback, _, hpost⟩
  refine linked_append.mpr
    ⟨hleft.congr hpre, by rw [haPrev, hback], haNext, hnPrev, hnNext, ?_⟩
  exact hpost.rehang hhead hpostNext hpostPrev

/-- A walk along {lit}`next` passes the nodes that the condition lets through
and stops behind them. -/
theorem whileLoop_walk {ε : Type _} {e : ε} {c : α -> Bool} {p q : α}
    {xs : List α} {n : Nat} (h : Linked prev next p xs q)
    (hpass : forall a, a ∈ xs -> c a = true) (hstop : c q = false)
    (hfuel : xs.length ≤ n) :
    whileLoop e c (fun a => .ok (next a)) n (xs.headD q) = .ok q := by
  induction xs generalizing p n with
  | nil => exact whileLoop_done n hstop
  | cons a rest ih =>
      cases n with
      | zero => simp at hfuel
      | succ n =>
          rcases h with ⟨_, hnext, hrest⟩
          have hturn := whileLoop_turn (e := e) (b := fun a => .ok (next a)) n
            (hpass a (by simp)) rfl
          rw [List.headD_cons, hturn, hnext]
          exact ih hrest (fun b hb => hpass b (by simp [hb]))
            (by simpa using hfuel)

/-- A walk along {lit}`prev` looks one node ahead and stops at the first node
of the nodes it may pass. -/
theorem whileLoop_walkBack {ε : Type _} {e : ε} {k : α -> Bool} {p q c : α}
    {xs : List α} {n : Nat} (h : Linked prev next p (xs ++ [c]) q)
    (hpass : forall a, a ∈ xs -> k a = true) (hstop : k p = false)
    (hfuel : xs.length ≤ n) :
    whileLoop e (fun a => k (prev a)) (fun a => .ok (prev a)) n c =
      .ok ((xs ++ [c]).headD c) := by
  induction xs using List.reverseRecOn generalizing c q n with
  | nil =>
      rcases h with ⟨hprev, _⟩
      exact whileLoop_done n (by rw [hprev, hstop])
  | append_singleton xs a ih =>
      cases n with
      | zero => simp at hfuel
      | succ n =>
          rcases linked_append.mp h with ⟨hleft, hback, _⟩
          have hprev : prev c = a := by simpa using hback
          have hcond : k (prev c) = true := by
            rw [hprev]
            exact hpass a (by simp)
          have hturn := whileLoop_turn (e := e) (c := fun a => k (prev a))
            (b := fun a => .ok (prev a)) n hcond rfl
          rw [hturn, hprev, ih hleft (fun b hb => hpass b (by simp [hb]))
            (by simpa using hfuel)]
          cases xs <;> rfl

/-- The longest run of wanted nodes around a place in a list. -/
theorem exists_run (w : α -> Bool) (pre post : List α) :
    exists pre' back fwd post',
      pre = pre' ++ back ∧ post = fwd ++ post' ∧
      (forall a, a ∈ back -> w a = true) ∧ (forall a, a ∈ fwd -> w a = true) ∧
      (forall a, a ∈ pre'.getLast? -> w a = false) ∧
      (forall a, a ∈ post'.head? -> w a = false) := by
  refine ⟨pre.rdropWhile w, pre.rtakeWhile w, post.takeWhile w,
    post.dropWhile w, ?_, ?_, ?_, ?_, ?_, ?_⟩
  · exact List.rdropWhile_append_rtakeWhile.symm
  · exact List.takeWhile_append_dropWhile.symm
  · exact fun a ha => List.mem_rtakeWhile_imp ha
  · exact fun a ha => List.mem_takeWhile_imp ha
  · intro a ha
    have hne : pre.rdropWhile w ≠ [] := by
      intro hnil
      simp [hnil] at ha
    have hlast := List.rdropWhile_last_not w pre hne
    rw [List.getLast?_eq_some_getLast hne, Option.mem_some_iff] at ha
    simpa [ha] using hlast
  · intro a ha
    have hne : post.dropWhile w ≠ [] := by
      intro hnil
      simp [hnil] at ha
    have hhead := List.head_dropWhile_not w hne
    rw [List.head?_eq_some_head hne, Option.mem_some_iff] at ha
    simpa [ha] using hhead

/-- The nodes met by following {lit}`next` up to {lit}`q`. -/
inductive NextPath (next : α -> α) (q : α) : α -> List α -> Prop where
  | done : NextPath next q q []
  | node {a : α} {rest : List α} :
      a ≠ q -> NextPath next q (next a) rest -> NextPath next q a (a :: rest)

theorem Linked.nextPath {p q : α} {xs : List α}
    (h : Linked prev next p xs q) (hend : q ∉ xs) :
    NextPath next q (xs.headD q) xs := by
  induction xs generalizing p with
  | nil => exact NextPath.done
  | cons a rest ih =>
      rcases h with ⟨_, hnext, hrest⟩
      change NextPath next q a (a :: rest)
      refine NextPath.node (fun heq => hend (by simp [heq])) ?_
      rw [hnext]
      exact ih hrest (fun hmem => hend (by simp [hmem]))

theorem NextPath.exists_rest {q a : α} {xs : List α}
    (h : NextPath next q a xs) (hne : a ≠ q) :
    exists rest, xs = a :: rest ∧ NextPath next q (next a) rest := by
  cases h with
  | done => exact absurd rfl hne
  | node _ hrest => exact ⟨_, rfl, hrest⟩

/-- The path is determined by where it starts and ends. -/
theorem NextPath.unique {q a : α} {xs ys : List α}
    (hxs : NextPath next q a xs) (hys : NextPath next q a ys) : xs = ys := by
  induction hxs generalizing ys with
  | done =>
      cases hys with
      | done => rfl
      | node hne _ => exact absurd rfl hne
  | node hne _ ih =>
      cases hys with
      | done => exact absurd rfl hne
      | node _ hrest => rw [ih hrest]

theorem NextPath.from_mem {q a b : α} {xs : List α} (h : NextPath next q a xs)
    (hb : b ∈ xs) : exists ys, NextPath next q b ys ∧ ys.length ≤ xs.length := by
  induction h with
  | done => cases hb
  | @node a rest hne hrest ih =>
      rcases List.mem_cons.mp hb with rfl | hmem
      · exact ⟨_, NextPath.node hne hrest, Nat.le_refl _⟩
      · rcases ih hmem with ⟨ys, hys, hlen⟩
        exact ⟨ys, hys, Nat.le_succ_of_le hlen⟩

theorem NextPath.nodup {q a : α} {xs : List α} (h : NextPath next q a xs) :
    xs.Nodup := by
  induction h with
  | done => exact List.nodup_nil
  | @node a rest hne hrest ih =>
      refine List.nodup_cons.mpr ⟨?_, ih⟩
      intro hmem
      rcases hrest.from_mem hmem with ⟨ys, hys, hlen⟩
      rw [hys.unique (NextPath.node hne hrest), List.length_cons] at hlen
      omega

theorem NextPath.not_mem {q a : α} {xs : List α} (h : NextPath next q a xs) :
    q ∉ xs := by
  induction h with
  | done => exact List.not_mem_nil
  | @node a rest hne _ ih =>
      intro hmem
      rcases List.mem_cons.mp hmem with heq | hmem
      · exact hne heq.symm
      · exact ih hmem

theorem NextPath.congr {q a : α} {xs : List α} (h : NextPath next q a xs)
    (hsame : forall b, b ∈ xs -> next' b = next b) : NextPath next' q a xs := by
  induction h with
  | done => exact NextPath.done
  | @node a rest hne _ ih =>
      refine NextPath.node hne ?_
      rw [hsame a List.mem_cons_self]
      exact ih fun b hb => hsame b (List.mem_cons_of_mem a hb)

/-- A walk along a path ends at the first node that the condition does not let
through, if there is one. -/
theorem NextPath.walk_find {ε : Type _} {e : ε} {c : α -> Bool} {q a : α}
    {xs : List α} {n : Nat} (h : NextPath next q a xs) (hstop : c q = false)
    (hfuel : xs.length ≤ n) :
    whileLoop e c (fun a => .ok (next a)) n a =
      .ok ((xs.find? fun x => !c x).getD q) := by
  induction h generalizing n with
  | done => exact whileLoop_done n hstop
  | @node a rest _ _ ih =>
      cases hpass : c a with
      | false =>
          rw [whileLoop_done n hpass, List.find?_cons_of_pos (by simp [hpass])]
          rfl
      | true =>
          cases n with
          | zero => simp at hfuel
          | succ n =>
              have hturn := whileLoop_turn (e := e)
                (b := fun a => .ok (next a)) n hpass rfl
              rw [List.find?_cons_of_neg (by simp [hpass])]
              exact hturn.trans (ih (by simpa using hfuel))

theorem NextPath.walk {ε : Type _} {e : ε} {c : α -> Bool} {q a : α}
    {xs : List α} {n : Nat} (h : NextPath next q a xs) (hstop : c q = false)
    (hfuel : xs.length ≤ n) :
    exists b, whileLoop e c (fun a => .ok (next a)) n a = .ok b ∧
      ((b = q ∧ forall x, x ∈ xs -> c x = true) ∨ b ∈ xs ∧ c b = false) := by
  induction h generalizing n with
  | done =>
      refine ⟨q, whileLoop_done n hstop, Or.inl ⟨rfl, ?_⟩⟩
      intro x hx
      cases hx
  | @node a rest _ _ ih =>
      cases hpass : c a with
      | false =>
          exact ⟨a, whileLoop_done n hpass,
            Or.inr ⟨List.mem_cons_self, hpass⟩⟩
      | true =>
          cases n with
          | zero => simp at hfuel
          | succ n =>
              rcases ih (by simpa using hfuel) with ⟨b, hrun, hb⟩
              have hturn := whileLoop_turn (e := e)
                (b := fun a => .ok (next a)) n hpass rfl
              refine ⟨b, hturn.trans hrun, ?_⟩
              · rcases hb with ⟨hbq, hall⟩ | ⟨hmem, hfail⟩
                · refine Or.inl ⟨hbq, ?_⟩
                  intro x hx
                  rcases List.mem_cons.mp hx with hxa | hx
                  · rw [hxa]
                    exact hpass
                  · exact hall x hx
                · exact Or.inr ⟨List.mem_cons_of_mem a hmem, hfail⟩

end LinkedList

/-!
# Lists that share a next pointer
-/

section ListsApart

variable {α β : Type _} {next next' : α -> α} {q : α} {heads : Set β} {head : β -> α}
  {lists : β -> List α}

/-- The lists from each of the heads: they end, and no node is in two of them. -/
structure ListsApart (next : α -> α) (q : α) (heads : Set β) (head : β -> α)
    (lists : β -> List α) : Prop where
  path : forall d, d ∈ heads -> NextPath next q (head d) (lists d)
  apart : forall d d', d ∈ heads -> d' ∈ heads -> d ≠ d' ->
    forall a, a ∈ lists d -> a ∉ lists d'

def LastOfList (next : α -> α) (q : α) (heads : Set β) (head : β -> α) (a : α) :
    Prop :=
  exists d xs, d ∈ heads ∧ NextPath next q (head d) xs ∧ xs.getLast? = some a

theorem NextPath.head_mem {a : α} {xs : List α} (h : NextPath next q a xs)
    (hne : a ≠ q) : a ∈ xs := by
  rcases h.exists_rest hne with ⟨rest, rfl, _⟩
  exact List.mem_cons_self

theorem NextPath.last_of_next {a b : α} {xs : List α} (h : NextPath next q a xs)
    (hb : b ∈ xs) (hnext : next b = q) : xs.getLast? = some b := by
  induction h with
  | done => cases hb
  | @node a rest hne hrest ih =>
      rcases List.mem_cons.mp hb with rfl | hmem
      · rw [hnext] at hrest
        cases hrest with
        | done => rfl
        | node hne _ => exact absurd rfl hne
      · rw [List.getLast?_cons, ih hmem]
        rfl

theorem NextPath.next_mem {a b : α} {xs : List α} (h : NextPath next q a xs)
    (hb : b ∈ xs) (hnext : next b ≠ q) : next b ∈ xs := by
  induction h with
  | done => cases hb
  | @node a rest _ hrest ih =>
      rcases List.mem_cons.mp hb with rfl | hmem
      · exact List.mem_cons_of_mem _ (hrest.head_mem hnext)
      · exact List.mem_cons_of_mem a (ih hmem)

/-- The way to a node does not go through its pointer. -/
theorem NextPath.leads {a b : α} {xs ys : List α} (h : NextPath next q a xs)
    (hb : b ∈ xs) (h' : NextPath next' q a ys)
    (hsame : forall c, c ≠ b -> next' c = next c) : b ∈ ys := by
  induction h generalizing ys with
  | done => cases hb
  | @node a rest hne _ ih =>
      rcases h'.exists_rest hne with ⟨rest', rfl, hrest'⟩
      rcases eq_or_ne a b with rfl | hab
      · exact List.mem_cons_self
      · rw [hsame a hab] at hrest'
        rcases List.mem_cons.mp hb with heq | hmem
        · exact absurd heq.symm hab
        · exact List.mem_cons_of_mem a (ih hmem hrest')

variable [DecidableEq α] [DecidableEq β] {a : α} {d : β}

/-- A node that is in no list is put in front of one. -/
theorem ListsApart.push (h : ListsApart next q heads head lists)
    (hnew : forall d, d ∈ heads -> a ∉ lists d) (hd : d ∈ heads) (ha : a ≠ q) :
    ListsApart (Function.update next a (head d)) q heads (Function.update head d a)
      (Function.update lists d (a :: lists d)) := by
  have hpath : forall e, e ∈ heads ->
      NextPath (Function.update next a (head d)) q (head e) (lists e) := by
    intro e he
    refine (h.path e he).congr ?_
    intro b hb
    have hba : b ≠ a := fun heq => hnew e he (heq ▸ hb)
    exact Function.update_of_ne hba ..
  constructor
  · intro e he
    rcases eq_or_ne e d with rfl | hne
    · rw [Function.update_self, Function.update_self]
      refine NextPath.node ha ?_
      rw [Function.update_self]
      exact hpath e he
    · rw [Function.update_of_ne hne, Function.update_of_ne hne]
      exact hpath e he
  · intro e e' he he' hne b hb
    rcases eq_or_ne e d with rfl | hed
    · rw [Function.update_self] at hb
      rw [Function.update_of_ne hne.symm]
      rcases List.mem_cons.mp hb with rfl | hmem
      · exact hnew e' he'
      · exact h.apart e e' he he' hne b hmem
    · rw [Function.update_of_ne hed] at hb
      rcases eq_or_ne e' d with rfl | hed'
      · rw [Function.update_self]
        intro hmem
        rcases List.mem_cons.mp hmem with rfl | hmem
        · exact hnew e he hb
        · exact h.apart e e' he he' hne b hb hmem
      · rw [Function.update_of_ne hed']
        exact h.apart e e' he he' hne b hb

theorem ListsApart.clear (h : ListsApart next q heads head lists) (x : α) :
    ListsApart (Function.update next q x) q heads (Function.update head d q)
      (Function.update lists d []) := by
  constructor
  · intro e he
    rcases eq_or_ne e d with rfl | hne
    · rw [Function.update_self, Function.update_self]
      exact NextPath.done
    · rw [Function.update_of_ne hne, Function.update_of_ne hne]
      refine (h.path e he).congr ?_
      intro b hb
      have hbq : b ≠ q := fun heq => (h.path e he).not_mem (heq ▸ hb)
      exact Function.update_of_ne hbq ..
  · intro e e' he he' hne b hb
    rcases eq_or_ne e d with rfl | hed
    · rw [Function.update_self] at hb
      cases hb
    · rw [Function.update_of_ne hed] at hb
      rcases eq_or_ne e' d with rfl | hed'
      · rw [Function.update_self]
        exact List.not_mem_nil
      · rw [Function.update_of_ne hed']
        exact h.apart e e' he he' hne b hb

theorem LastOfList.not_push (h : LastOfList next q heads head a) (hd : d ∈ heads) :
    ¬ ListsApart (Function.update next a (head d)) q heads (Function.update head d a)
      lists := by
  intro hpushed
  rcases h with ⟨e, xs, he, hxs, hlast⟩
  have hmem : a ∈ xs := List.mem_of_getLast? hlast
  have hne : a ≠ q := fun heq => hxs.not_mem (heq ▸ hmem)
  have hsame : forall c, c ≠ a -> Function.update next a (head d) c = next c :=
    fun c hc => Function.update_of_ne hc ..
  have hpath := hpushed.path d hd
  rw [Function.update_self] at hpath
  rcases hpath.exists_rest hne with ⟨rest, hlist, hrest⟩
  rw [Function.update_self] at hrest
  rcases eq_or_ne e d with rfl | hed
  · have hnodup := hpath.nodup
    rw [hlist] at hnodup
    exact (List.nodup_cons.mp hnodup).1 (hxs.leads hmem hrest hsame)
  · have hother := hpushed.path e he
    rw [Function.update_of_ne hed] at hother
    have hfirst : a ∈ lists d := by
      rw [hlist]
      exact List.mem_cons_self
    exact hpushed.apart d e hd he hed.symm a hfirst (hxs.leads hmem hother hsame)

end ListsApart

end Library
end Rmmtos
