import Rmmtos.Fs.FatEnds
import Rmmtos.Fs.FatListing

/-!
# The nodes of a whole directory

A listing that goes on from each node it was given yields the live entries in
the order that they stand on the disk.  The loop tests the position of the entry
it has read last, so that it also reads what stands right behind a directory
whose last entry it passes; and it goes on behind an empty entry that carries
the flag of a volume label.
-/

namespace Rmmtos
namespace Fs

open Library Kernel

/-!
# Ascending numbers
-/

section Ascending

variable {p : Nat -> Bool} {k m n : Nat}

def numbersBelow (p : Nat -> Bool) (m : Nat) : List Nat :=
  (List.range m).filter p

theorem mem_numbersBelow : k ∈ numbersBelow p m <-> k < m ∧ p k = true := by
  unfold numbersBelow
  rw [List.mem_filter, List.mem_range]

theorem numbersBelow_mono (p : Nat -> Bool) (hle : m ≤ n) :
    numbersBelow p m <+: numbersBelow p n := by
  have hrange : List.range m <+: List.range n := by
    rw [← Nat.add_sub_cancel' hle, List.range_add]
    exact List.prefix_append _ _
  exact hrange.filter p

theorem numbersBelow_none (hle : m ≤ n)
    (hnone : forall i, m ≤ i -> i < n -> p i = false) :
    numbersBelow p n = numbersBelow p m := by
  induction n, hle using Nat.le_induction with
  | base => rfl
  | succ n hle ih =>
      unfold numbersBelow at ih ⊢
      rw [List.range_succ, List.filter_append,
        ih fun i hmi hi => hnone i hmi (Nat.lt_succ_of_lt hi)]
      simp [hnone n hle (Nat.lt_succ_self n)]

theorem numbersBelow_least (hle : m ≤ k) (hk : p k = true)
    (hnone : forall i, m ≤ i -> i < k -> p i = false) :
    numbersBelow p (k + 1) = numbersBelow p m ++ [k] := by
  rw [← numbersBelow_none hle hnone]
  unfold numbersBelow
  rw [List.range_succ, List.filter_append]
  simp [hk]

end Ascending

/-!
# Entries
-/

namespace DirectoryEntry

instance (e : DirectoryEntry) : Decidable e.Skipped :=
  inferInstanceAs (Decidable (_ ∨ _))

instance (e : DirectoryEntry) : Decidable e.Ends :=
  inferInstanceAs (Decidable (_ ∧ _))

instance (e : DirectoryEntry) : Decidable e.Live :=
  inferInstanceAs (Decidable (_ ∧ _ ∧ _))

theorem not_live_of_skipped {e : DirectoryEntry} (h : e.Skipped) : ¬ e.Live := by
  intro hlive
  rcases h with hvol | hdeleted
  · exact hvol hlive.1
  · exact hlive.2.1 hdeleted

theorem not_ends_of_live {e : DirectoryEntry} (h : e.Live) : ¬ e.Ends :=
  fun hends => h.2.2 hends.2

end DirectoryEntry

def slotCount (root : FatGeometry) : Nat :=
  (root.rootEnd.toNat - root.rootBegin.toNat) / 32

def slotPlace (root : FatGeometry) (k : Nat) : Nat :=
  root.rootBegin.toNat + 32 * k

/-- The entries of the root directory, and what stands behind them. -/
def slot (image : Bytes) (root : FatGeometry) (k : Nat) : DirectoryEntry :=
  entryAt image (slotPlace root k)

/-- A live entry in front of the first one with an empty name. -/
def RootEntry (image : Bytes) (root : FatGeometry) (k : Nat) : Prop :=
  k < slotCount root ∧ (slot image root k).Live ∧
    forall i, i < k -> (slot image root i).name 0 ≠ 0x00

instance (image : Bytes) (root : FatGeometry) (k : Nat) :
    Decidable (RootEntry image root k) :=
  inferInstanceAs (Decidable (_ ∧ _ ∧ forall i, i < k -> _))

def rootEntries (image : Bytes) (root : FatGeometry) : List Nat :=
  (numbersBelow (fun k => decide (RootEntry image root k)) (slotCount root)).map
    (slotPlace root)

/-- An entry that a listing comes to. -/
def Yielded (image : Bytes) (root : FatGeometry) (k : Nat) : Prop :=
  (slot image root k).Live ∧ (forall i, i < k -> ¬ (slot image root i).Ends) ∧
    (k < slotCount root ∨ k = slotCount root ∧ 0 < slotCount root ∧
      (slot image root (slotCount root - 1)).Skipped)

instance (image : Bytes) (root : FatGeometry) (k : Nat) :
    Decidable (Yielded image root k) :=
  inferInstanceAs (Decidable (_ ∧ (forall i, i < k -> _) ∧ _))

def yieldedBelow (image : Bytes) (root : FatGeometry) (m : Nat) : List Nat :=
  (numbersBelow (fun k => decide (Yielded image root k)) m).map (slotPlace root)

section Slots

variable {image : Bytes} {root : FatGeometry} {j k m : Nat}

/-- A listing may go on at {lit}`m`: it has passed no end mark, and the entry in
front is the one that it has yielded last. -/
structure GoesOnAt (image : Bytes) (root : FatGeometry) (m : Nat) : Prop where
  le : m ≤ slotCount root + 1
  before : forall i, i < m -> ¬ (slot image root i).Ends
  last : 0 < m -> (slot image root (m - 1)).Live

theorem goesOnAt_zero : GoesOnAt image root 0 where
  le := Nat.zero_le _
  before := fun _ hi => absurd hi (Nat.not_lt_zero _)
  last := fun h => absurd h (Nat.lt_irrefl 0)

theorem goesOnAt_succ (hk : Yielded image root k) : GoesOnAt image root (k + 1) where
  le := by
    rcases hk.2.2 with hlt | ⟨heq, _⟩
    · exact Nat.succ_le_succ (Nat.le_of_lt hlt)
    · exact Nat.succ_le_succ (Nat.le_of_eq heq)
  before := by
    intro i hi
    rcases Nat.lt_succ_iff_lt_or_eq.mp hi with hlt | rfl
    · exact hk.2.1 i hlt
    · exact DirectoryEntry.not_ends_of_live hk.1
  last := fun _ => hk.1

theorem slotPlace_add (root : FatGeometry) (m j : Nat) :
    slotPlace root m + 32 * j = slotPlace root (m + j) := by
  unfold slotPlace
  omega

theorem yielded_of_first
    (hregion : root.rootEnd.toNat = slotPlace root (slotCount root))
    (hm : GoesOnAt image root m)
    (hfirst : FirstEntry image root (fun _ => true) (slotPlace root m) j) :
    Yielded image root (m + j) ∧
      forall i, m ≤ i -> i < m + j -> ¬ Yielded image root i := by
  have hskipped : forall i, m ≤ i -> i < m + j -> (slot image root i).Skipped := by
    intro i hmi hi
    have hpassed := hfirst.passed (i - m) (by omega)
    rw [slotPlace_add, Nat.add_sub_cancel' hmi] at hpassed
    rcases hpassed with hskip | ⟨_, hfalse⟩
    · exact hskip
    · cases hfalse
  have hlive : (slot image root (m + j)).Live := by
    have htaken := hfirst.taken
    rw [slotPlace_add] at htaken
    exact htaken.1
  have hinside := hfirst.inside
  rw [slotPlace_add, hregion] at hinside
  unfold slotPlace at hinside
  refine ⟨⟨hlive, ?_, ?_⟩, ?_⟩
  · intro i hi hends
    rcases Nat.lt_or_ge i m with hlt | hge
    · exact hm.before i hlt hends
    · rcases hskipped i hge hi with hvol | hdeleted
      · exact hvol hends.1
      · rw [hends.2] at hdeleted
        exact absurd hdeleted (by decide)
  · rcases Nat.lt_or_ge (m + j) (slotCount root) with hlt | hge
    · exact Or.inl hlt
    · have heq : m + j = slotCount root := by omega
      refine Or.inr ⟨heq, by omega, ?_⟩
      exact hskipped _ (by omega) (by omega)
  · intro i hmi hi hyielded
    exact DirectoryEntry.not_live_of_skipped (hskipped i hmi hi) hyielded.1

theorem not_yielded_of_none
    (hregion : root.rootEnd.toNat = slotPlace root (slotCount root))
    (hm : GoesOnAt image root m)
    (hnone : forall j, ¬ FirstEntry image root (fun _ => true) (slotPlace root m) j) :
    forall k, m ≤ k -> ¬ Yielded image root k := by
  intro k
  induction k using Nat.strongRecOn with
  | ind k ih =>
      intro hmk hk
      apply hnone (k - m)
      have hle : k ≤ slotCount root := by
        rcases hk.2.2 with hlt | ⟨heq, _⟩
        · exact Nat.le_of_lt hlt
        · exact Nat.le_of_eq heq
      refine ⟨?_, ?_, ?_⟩
      · rw [slotPlace_add, hregion]
        unfold slotPlace
        rcases Nat.eq_or_lt_of_le hmk with rfl | hlt
        · rcases hk.2.2 with hlt | ⟨heq, hpos, hskip⟩
          · omega
          · have hlast := hm.last (by omega)
            rw [heq] at hlast
            exact absurd hlast (DirectoryEntry.not_live_of_skipped hskip)
        · omega
      · intro i hi
        rw [slotPlace_add]
        change DirectoryEntry.Passed _ (slot image root (m + i))
        rcases DirectoryEntry.skipped_or_ends_or_live (slot image root (m + i)) with
          hskip | hends | hlive
        · exact Or.inl hskip
        · exact absurd hends (hk.2.1 (m + i) (by omega))
        · have hbefore : Yielded image root (m + i) :=
            ⟨hlive, fun l hl => hk.2.1 l (by omega), Or.inl (by omega)⟩
          exact absurd hbefore (ih (m + i) (by omega) (Nat.le_add_right m i))
      · rw [slotPlace_add, Nat.add_sub_cancel' hmk]
        exact ⟨hk.1, rfl⟩

end Slots

/-!
# Listings
-/

/-- The next call of a listing.  Since the last one anything may have happened
that leaves the directory and the last node alone. -/
structure NextCall (handle : Word) (image : Bytes) (root : FatGeometry)
    (s : VfsState) (p : Word) (s₁ : VfsState) : Prop where
  mounted : FatMounted s₁ handle image root
  node : p ≠ 0 -> s₁.fatFile p = s.fatFile p

/-- A listing from the start: the places of the nodes that it has yielded, and
the last one of them. -/
inductive Enumeration (handle : Word) (image : Bytes) (root : FatGeometry) :
    List Nat -> VfsState -> Word -> Prop where
  | start (s : VfsState) : Enumeration handle image root [] s 0
  | next {places : List Nat} {s s₁ t : VfsState} {p q : Word} :
      Enumeration handle image root places s p ->
      NextCall handle image root s p s₁ ->
      fatRootGetNextNode s₁ handle p = .ok (q, t) -> q ≠ 0 ->
      Enumeration handle image root
        (places ++ [(t.fatFile q).entryPosition.toNat]) t q

/-- A listing yields the live entries one after the other, and zero only behind
the last one.  A call that does not return has no memory. -/
def EnumeratesExactly (handle : Word) (image : Bytes) (root : FatGeometry) : Prop :=
  forall places s p, Enumeration handle image root places s p ->
    places <+: rootEntries image root ∧
      forall s₁, NextCall handle image root s p s₁ ->
        fatRootGetNextNode s₁ handle p = panic .outOfMem ∨
          exists q t, fatRootGetNextNode s₁ handle p = .ok (q, t) ∧
            (q = 0 -> places = rootEntries image root)

/-- No lookup finds what stands behind the directory. -/
def LooksInside (handle : Word) (image : Bytes) (root : FatGeometry) : Prop :=
  forall s name q t, FatMounted s handle image root ->
    fatRootGetNodeByName s handle name = .ok (q, t) -> q ≠ 0 ->
      (t.fatFile q).entryPosition.toNat < root.rootEnd.toNat

structure ListedTo (image : Bytes) (root : FatGeometry) (m : Nat)
    (places : List Nat) (s : VfsState) (p : Word) : Prop where
  goesOn : GoesOnAt image root m
  places_eq : places = yieldedBelow image root m
  first : p = 0 -> m = 0
  later : p ≠ 0 -> (s.fatFile p).entryPosition.toNat + 32 = slotPlace root m

section Listings

variable {handle p : Word} {image : Bytes} {root : FatGeometry}
  {s s₁ : VfsState} {k m : Nat} {places : List Nat}

theorem yieldedBelow_least (hle : m ≤ k) (hk : Yielded image root k)
    (hnone : forall i, m ≤ i -> i < k -> ¬ Yielded image root i) :
    yieldedBelow image root (k + 1) =
      yieldedBelow image root m ++ [slotPlace root k] := by
  unfold yieldedBelow
  rw [numbersBelow_least hle (decide_eq_true hk)
    fun i hmi hi => decide_eq_false (hnone i hmi hi), List.map_append]
  rfl

theorem ListedTo.near (hsmall : SmallRoot root)
    (hregion : root.rootEnd.toNat = slotPlace root (slotCount root))
    (hlisted : ListedTo image root m places s p) :
    slotPlace root m < root.rootEnd.toNat + 64 ∧ root.rootEnd.toNat < 2 ^ 30 := by
  have hle := hlisted.goesOn.le
  refine ⟨?_, hsmall.end_lt⟩
  rw [hregion]
  unfold slotPlace
  omega

theorem ListedTo.search (hsmall : SmallRoot root)
    (hregion : root.rootEnd.toNat = slotPlace root (slotCount root))
    (hlisted : ListedTo image root m places s p)
    (hcall : NextCall handle image root s p s₁) :
    exists position : Uint64, position.toNat = slotPlace root m ∧
      fatRootGetNextNode s₁ handle p = fatLoadNode s₁ (s₁.fs.handle handle).node
        (fun _ => true) position := by
  rcases hlisted.near hsmall hregion with ⟨hnear, hend⟩
  unfold fatRootGetNextNode
  dsimp only
  rw [hcall.mounted.geometry]
  rcases Decidable.em (p = 0) with hzero | hne
  · refine ⟨root.rootBegin, ?_, by rw [if_pos hzero]⟩
    rw [hlisted.first hzero]
    rfl
  · have hlater := hlisted.later hne
    have hsize : (init64 0 0 0 directoryEntrySize).toNat = 32 := rfl
    refine ⟨_, ?_, by rw [if_neg hne]⟩
    rw [hcall.node hne, add64_toNat_of_lt (by omega), hsize, ← hlater]
    omega

theorem ListedTo.call (hsmall : SmallRoot root)
    (hregion : root.rootEnd.toNat = slotPlace root (slotCount root))
    (hlisted : ListedTo image root m places s p)
    (hcall : NextCall handle image root s p s₁) :
    ((exists t, fatRootGetNextNode s₁ handle p = .ok (0, t)) ∧
        forall k, m ≤ k -> ¬ Yielded image root k) ∨
      exists k, m ≤ k ∧ Yielded image root k ∧
        (forall i, m ≤ i -> i < k -> ¬ Yielded image root i) ∧
        (fatRootGetNextNode s₁ handle p = panic .outOfMem ∨
          exists q t, fatRootGetNextNode s₁ handle p = .ok (q, t) ∧ q ≠ 0 ∧
            (t.fatFile q).entryPosition.toNat = slotPlace root k) := by
  rcases hlisted.near hsmall hregion with ⟨hnear, hend⟩
  rcases hcall.mounted.owns with ⟨live, howns⟩
  rcases hlisted.search hsmall hregion hcall with ⟨position, hplace, hrun⟩
  rw [hrun]
  rcases fatLoadNode_cases howns (s₁.fs.handle handle).node (fun _ => true)
    position hcall.mounted.geometry hcall.mounted.image_eq (by omega)
    (by rw [hplace]; exact hnear) with ⟨_, hnone, hok⟩ | ⟨j, hfirst, hload⟩
  · rw [hplace] at hnone
    exact Or.inl ⟨⟨_, hok⟩, not_yielded_of_none hregion hlisted.goesOn hnone⟩
  · rw [hplace] at hfirst
    have hyielded := yielded_of_first hregion hlisted.goesOn hfirst
    refine Or.inr ⟨m + j, Nat.le_add_right m j, hyielded.1, hyielded.2, ?_⟩
    rcases hload with hpanic | ⟨q, t, place, _, hok, heq, hcreated⟩
    · exact Or.inl hpanic
    · refine Or.inr ⟨q, t, hok, hcreated.owns.ne_zero List.mem_cons_self, ?_⟩
      rcases hcreated.file with ⟨junk, hfile⟩
      rw [hfile, ← slotPlace_add, ← hplace]
      exact heq

theorem ListedTo.next {q : Word} {t : VfsState}
    (hlisted : ListedTo image root m places s p) (hmk : m ≤ k)
    (hk : Yielded image root k)
    (hnone : forall i, m ≤ i -> i < k -> ¬ Yielded image root i) (hq : q ≠ 0)
    (hplace : (t.fatFile q).entryPosition.toNat = slotPlace root k) :
    ListedTo image root (k + 1)
      (places ++ [(t.fatFile q).entryPosition.toNat]) t q := by
  refine ⟨goesOnAt_succ hk, ?_, fun h => absurd h hq, fun _ => ?_⟩
  · rw [yieldedBelow_least hmk hk hnone, ← hlisted.places_eq, hplace]
  · rw [hplace]
    unfold slotPlace
    omega

theorem listedTo_of_enumeration (hsmall : SmallRoot root)
    (hregion : root.rootEnd.toNat = slotPlace root (slotCount root))
    (henum : Enumeration handle image root places s p) :
    exists m, ListedTo image root m places s p := by
  induction henum with
  | start s =>
      exact ⟨0, goesOnAt_zero, rfl, fun _ => rfl, fun h => absurd rfl h⟩
  | next _ hcall hrun hq ih =>
      rcases ih with ⟨m, hlisted⟩
      rcases hlisted.call hsmall hregion hcall with
        ⟨⟨t, hzero⟩, _⟩ | ⟨k, hmk, hk, hnone, hpanic | ⟨q, t, hok, _, hplace⟩⟩
      · rw [hzero] at hrun
        cases hrun
        exact absurd rfl hq
      · rw [hpanic] at hrun
        cases hrun
      · rw [hok] at hrun
        cases hrun
        exact ⟨k + 1, hlisted.next hmk hk hnone hq hplace⟩

/-!
# Memory for nodes
-/

/-- A kernel with free memory that has mounted a volume on every directory. -/
def readyToList (image : Bytes) (root : FatGeometry) (stack : Bytes)
    (file : FatFile) : VfsState :=
  { mountedAt8 image with
    fatRoot := fun _ => ⟨root, 16⟩
    fatFile := fun _ => file
    stack := fun _ => stack }

theorem readyToList_mounted (handle : Word) (image : Bytes) (root : FatGeometry)
    (stack : Bytes) (file : FatFile) :
    FatMounted (readyToList image root stack file) handle image root :=
  ⟨(mountedAt8_mounted image).owns, rfl, rfl⟩

def nodeBlocks (h : Heap) : Result Heap := do
  let (p, h) ← Kernel.malloc h fileSize
  let (_, h) ← Kernel.malloc h fatFileSize
  Kernel.free h p

theorem nodeBlocks_small : (nodeBlocks smallHeap).toOption.isSome = true := by
  decide +kernel

theorem fatCreateNode_small {s : VfsState} (hheap : s.fs.heap = smallHeap)
    (directory : Word) (entry : DirectoryEntry) (position : Uint64) :
    fatCreateNode s directory entry position ≠ panic .outOfMem := by
  have hblocks := nodeBlocks_small
  unfold nodeBlocks at hblocks
  rw [← hheap] at hblocks
  unfold fatCreateNode
  intro hpanic
  cases hmalloc : Kernel.malloc s.fs.heap fileSize with
  | error e =>
      rw [hmalloc] at hblocks
      cases hblocks
  | ok r =>
      rcases r with ⟨p, h⟩
      rw [hmalloc, ok_bind] at hblocks
      dsimp only at hblocks
      have hs : Owns s.fs.heap [] := by
        rw [hheap]
        exact ⟨⟨smallBoot_boot.heap, fun _ _ hp => by cases hp⟩, List.nodup_nil,
          smallBoot_boot.pool_pos⟩
      have hp0 := (hs.malloc hmalloc).2.ne_zero List.mem_cons_self
      rw [fileCreateNode_ok [] 0 .fat hp0 hmalloc, ok_bind] at hpanic
      dsimp only at hpanic
      cases hmalloc' : Kernel.malloc h fatFileSize with
      | error e =>
          rw [hmalloc'] at hblocks
          cases hblocks
      | ok r' =>
          rcases r' with ⟨q, h'⟩
          rw [hmalloc', ok_bind] at hblocks
          dsimp only at hblocks
          have hq0 := ((hs.malloc hmalloc).2.malloc hmalloc').2.ne_zero
            List.mem_cons_self
          cases hfree : Kernel.free h' p with
          | error e =>
              rw [hfree] at hblocks
              cases hblocks
          | ok h'' =>
              rw [reallocNode_ok (h := h') hq0 hmalloc' hfree, ok_bind]
                at hpanic
              cases hpanic

theorem fatLoadNode_small {s : VfsState} (hheap : s.fs.heap = smallHeap)
    (directory : Word) (wanted : Bytes -> Bool) (position : Uint64)
    (hend : (s.fatRoot directory).geometry.rootEnd.toNat < 2 ^ 32)
    (hstart : position.toNat <
      (s.fatRoot directory).geometry.rootEnd.toNat + 64) :
    fatLoadNode s directory wanted position ≠ panic .outOfMem := by
  rcases scanEntries_eq (s.fatRoot directory).geometry wanted
    (s.volume (s.fatRoot directory).handle) position hend hstart with ⟨x, hrun, _⟩
  unfold fatLoadNode
  dsimp only
  rw [hrun, ok_bind]
  cases x.entry with
  | none => exact nofun
  | some entry =>
      exact fatCreateNode_small (s := s.setPosition (s.fatRoot directory).handle
        x.volume.position) hheap directory entry x.position

theorem listing_to_end (hsmall : SmallRoot root)
    (hregion : root.rootEnd.toNat = slotPlace root (slotCount root))
    (hlisted : ListedTo image root m places s p)
    (henum : Enumeration handle image root places s p) :
    exists m' places' s' p', ListedTo image root m' places' s' p' ∧
      Enumeration handle image root places' s' p' ∧
      (forall k, m' ≤ k -> ¬ Yielded image root k) ∧
      exists s₁ t, NextCall handle image root s' p' s₁ ∧
        fatRootGetNextNode s₁ handle p' = .ok (0, t) := by
  induction hleft : slotCount root + 1 - m using Nat.strongRecOn generalizing
    m places s p with
  | ind left ih =>
      have hcall : NextCall handle image root s p
          (readyToList image root (fun _ => 0) (s.fatFile p)) :=
        ⟨readyToList_mounted .., fun _ => rfl⟩
      rcases hlisted.call hsmall hregion hcall with
        ⟨⟨t, hzero⟩, hnone⟩ | ⟨k, hmk, hk, hnone, hpanic | ⟨q, t, hok, hq, hplace⟩⟩
      · exact ⟨m, places, s, p, hlisted, henum, hnone, _, t, hcall, hzero⟩
      · rcases hlisted.near hsmall hregion with ⟨hnear, hend⟩
        rcases hlisted.search hsmall hregion hcall with ⟨position, hplace, hrun⟩
        rw [hrun] at hpanic
        refine absurd hpanic (fatLoadNode_small rfl _ _ _ ?_ ?_)
        · exact Nat.lt_trans hend (by decide)
        · rw [hplace]
          exact hnear
      · have hle := (goesOnAt_succ hk).le
        exact ih (slotCount root + 1 - (k + 1)) (by omega)
          (hlisted.next hmk hk hnone hq hplace) (henum.next hcall hok hq) rfl

end Listings

/-!
# Whole directories
-/

/-- No live entry that a listing comes to stands behind an empty name. -/
def EmptyNamesEnd (image : Bytes) (root : FatGeometry) : Prop :=
  forall k, k < slotCount root -> (slot image root k).Live ->
    (forall i, i < k -> ¬ (slot image root i).Ends) ->
      forall i, i < k -> (slot image root i).name 0 ≠ 0x00

/-- A directory without an end mark has something like a live entry right
behind it. -/
def LiveBehind (image : Bytes) (root : FatGeometry) : Prop :=
  0 < slotCount root ∧
    (forall i, i < slotCount root -> ¬ (slot image root i).Ends) ∧
      (slot image root (slotCount root)).Live

/-- A live entry of the directory hides what stands behind it: it is the last
one, and every lookup of the name behind the directory finds another entry. -/
def Hidden (image : Bytes) (root : FatGeometry) : Prop :=
  ¬ (slot image root (slotCount root - 1)).Skipped ∧
    forall outerName stack,
      SameName (slot image root (slotCount root)).name
          (nameToFat outerName stack) ->
        exists i, i < slotCount root ∧ (slot image root i).Live ∧
          SameName (slot image root i).name
            (slot image root (slotCount root)).name

section Directories

variable {image : Bytes} {root : FatGeometry} {handle : Word} {k : Nat}

theorem yielded_of_rootEntry (h : RootEntry image root k) : Yielded image root k :=
  ⟨h.2.1, fun i hi hends => h.2.2 i hi hends.2, Or.inl h.1⟩

theorem yielded_iff_rootEntry (hnames : EmptyNamesEnd image root)
    (hbehind : LiveBehind image root -> Hidden image root) (k : Nat) :
    Yielded image root k <-> RootEntry image root k := by
  refine ⟨?_, yielded_of_rootEntry⟩
  rintro ⟨hlive, hbefore, hlt | ⟨rfl, hpos, hskipped⟩⟩
  · exact ⟨hlt, hlive, hnames k hlt hlive hbefore⟩
  · exact absurd hskipped (hbehind ⟨hpos, hbefore, hlive⟩).1

theorem yieldedBelow_all
    (hiff : forall k, Yielded image root k <-> RootEntry image root k) :
    yieldedBelow image root (slotCount root + 1) = rootEntries image root := by
  have hsame : (fun k => decide (Yielded image root k)) =
      fun k => decide (RootEntry image root k) :=
    funext fun k => decide_eq_decide.mpr (hiff k)
  have hlast : numbersBelow (fun k => decide (RootEntry image root k))
      (slotCount root + 1) =
        numbersBelow (fun k => decide (RootEntry image root k)) (slotCount root) := by
    apply numbersBelow_none (Nat.le_succ _)
    intro i hle _
    exact decide_eq_false fun hentry => absurd hentry.1 (Nat.not_lt_of_le hle)
  unfold yieldedBelow rootEntries
  rw [hsame, hlast]

/-- The lookup of a name finds what stands behind the directory, when nothing in
it has the name and nothing ends it. -/
theorem first_behind {wanted : Bytes -> Bool}
    (hregion : root.rootEnd.toNat = slotPlace root (slotCount root))
    (hbehind : LiveBehind image root)
    (hwanted : wanted (slot image root (slotCount root)).name = true)
    (hother : forall i, i < slotCount root -> (slot image root i).Live ->
      wanted (slot image root i).name = false) :
    FirstEntry image root wanted root.rootBegin.toNat (slotCount root) := by
  refine ⟨?_, ?_, hbehind.2.2, hwanted⟩
  · have hpos := hbehind.1
    rw [hregion]
    unfold slotPlace
    omega
  · intro i hi
    rcases DirectoryEntry.skipped_or_ends_or_live (slot image root i) with
      hskipped | hends | hlive
    · exact Or.inl hskipped
    · exact absurd hends (hbehind.2.1 i hi)
    · exact Or.inr ⟨hlive, hother i hi hlive⟩

theorem rootEntry_of_yielded (hsmall : SmallRoot root)
    (hregion : root.rootEnd.toNat = slotPlace root (slotCount root))
    (hexact : EnumeratesExactly handle image root) :
    forall k, Yielded image root k -> RootEntry image root k := by
  have hlisted : ListedTo image root 0 []
      (readyToList image root (fun _ => 0) ⟨0, init64 0 0 0 0, fun _ => 0⟩) 0 :=
    ⟨goesOnAt_zero, rfl, fun _ => rfl, fun h => absurd rfl h⟩
  rcases listing_to_end hsmall hregion hlisted
    (@Enumeration.start handle image root _) with
    ⟨m, places, s, p, hlisted, henum, hnone, s₁, t, hcall, hzero⟩
  have hplaces : places = rootEntries image root := by
    rcases (hexact places s p henum).2 s₁ hcall with hpanic | ⟨q, u, hok, hend⟩
    · rw [hpanic] at hzero
      cases hzero
    · rw [hok] at hzero
      cases hzero
      exact hend rfl
  intro k hk
  have hkm : k < m := by
    by_contra hge
    exact hnone k (Nat.le_of_not_lt hge) hk
  have hmem : slotPlace root k ∈ rootEntries image root := by
    rw [← hplaces, hlisted.places_eq]
    exact List.mem_map_of_mem (mem_numbersBelow.mpr ⟨hkm, decide_eq_true hk⟩)
  rcases List.mem_map.mp hmem with ⟨k', hk', heq⟩
  have hsame : k' = k := by
    unfold slotPlace at heq
    omega
  rw [← hsame]
  exact of_decide_eq_true (mem_numbersBelow.mp hk').2

theorem hidden_of_exact (hsmall : SmallRoot root)
    (hregion : root.rootEnd.toNat = slotPlace root (slotCount root))
    (hentries : forall k, Yielded image root k -> RootEntry image root k)
    (hinside : LooksInside handle image root)
    (hbehind : LiveBehind image root) : Hidden image root := by
  constructor
  · intro hskipped
    have hentry := hentries (slotCount root)
      ⟨hbehind.2.2, hbehind.2.1, Or.inr ⟨rfl, hbehind.1, hskipped⟩⟩
    exact absurd hentry.1 (Nat.lt_irrefl _)
  · intro outerName stack hsame
    by_contra hnone
    push Not at hnone
    have hend := hsmall.end_lt
    have hle := hsmall.begin_le
    generalize hs : readyToList image root stack ⟨0, init64 0 0 0 0, stack⟩ = s
    have hmounted : FatMounted s handle image root := by
      rw [← hs]
      exact readyToList_mounted ..
    have hstack : s.stack s.lookups = stack := by
      rw [← hs]
      rfl
    have hheap : s.fs.heap = smallHeap := by
      rw [← hs]
      rfl
    have hfirst : FirstEntry image root
        (fun raw => sameFatName raw (nameToFat outerName stack))
        root.rootBegin.toNat (slotCount root) := by
      refine first_behind hregion hbehind (sameFatName_iff.mpr hsame) ?_
      intro i hi hlive
      apply Bool.eq_false_iff.mpr
      intro hfound
      apply hnone i hi hlive
      intro c hc
      rw [sameFatName_iff.mp hfound c hc, hsame c hc]
    rcases hmounted.owns with ⟨live, howns⟩
    have hrun : fatRootGetNodeByName s handle outerName =
        fatLoadNode { s with lookups := s.lookups + 1 } (s.fs.handle handle).node
          (fun raw => sameFatName raw (nameToFat outerName stack)) root.rootBegin := by
      unfold fatRootGetNodeByName
      dsimp only
      rw [hstack, hmounted.geometry]
    rcases fatLoadNode_cases (s := { s with lookups := s.lookups + 1 }) howns
      (s.fs.handle handle).node
      (fun raw => sameFatName raw (nameToFat outerName stack)) root.rootBegin
      hmounted.geometry hmounted.image_eq (by omega) (by omega) with
      ⟨_, hno, _⟩ | ⟨j, hfirst', hload⟩
    · exact hno _ hfirst
    · rw [hfirst'.unique hfirst] at hload
      rcases hload with hpanic | ⟨q, t, place, _, hok, heq, hcreated⟩
      · refine fatLoadNode_small (s := { s with lookups := s.lookups + 1 }) hheap
          _ _ _ ?_ ?_ hpanic
        · change (s.fatRoot (s.fs.handle handle).node).geometry.rootEnd.toNat < _
          rw [hmounted.geometry]
          omega
        · change _ < (s.fatRoot (s.fs.handle handle).node).geometry.rootEnd.toNat + 64
          rw [hmounted.geometry]
          omega
      · have hlt := hinside s outerName q t hmounted (hrun.trans hok)
          (hcreated.owns.ne_zero List.mem_cons_self)
        rcases hcreated.file with ⟨junk, hfile⟩
        rw [hfile] at hlt
        change place.toNat < _ at hlt
        rw [heq, hregion] at hlt
        exact absurd hlt (Nat.lt_irrefl _)

theorem looksInside_of_hidden (hsmall : SmallRoot root)
    (hregion : root.rootEnd.toNat = slotPlace root (slotCount root))
    (hhidden : LiveBehind image root -> Hidden image root) :
    LooksInside handle image root := by
  intro s name q t hmounted hrun hq
  have hend := hsmall.end_lt
  have hle := hsmall.begin_le
  rcases hmounted.owns with ⟨live, howns⟩
  unfold fatRootGetNodeByName at hrun
  dsimp only at hrun
  rw [hmounted.geometry] at hrun
  rcases fatLoadNode_cases (s := { s with lookups := s.lookups + 1 }) howns
    (s.fs.handle handle).node
    (fun raw => sameFatName raw (nameToFat name (s.stack s.lookups)))
    root.rootBegin hmounted.geometry hmounted.image_eq (by omega) (by omega) with
    ⟨_, _, hzero⟩ | ⟨j, hfirst, hload⟩
  · rw [hzero] at hrun
    cases hrun
    exact absurd rfl hq
  · rcases hload with hpanic | ⟨q', t', place, _, hok, heq, hcreated⟩
    · rw [hpanic] at hrun
      cases hrun
    · rw [hok] at hrun
      cases hrun
      rcases hcreated.file with ⟨junk, hfile⟩
      rw [hfile]
      change place.toNat < _
      rw [heq, hregion]
      have hinside := hfirst.inside
      rw [hregion] at hinside
      unfold slotPlace at hinside ⊢
      rcases Nat.lt_or_ge j (slotCount root) with hlt | hge
      · omega
      · have hj : j = slotCount root := by omega
        subst hj
        have hbehind : LiveBehind image root :=
          ⟨by omega, fun i hi hends => DirectoryEntry.not_passed_of_ends hends
            (hfirst.passed i hi), hfirst.taken.1⟩
        have hsame := sameFatName_iff.mp hfirst.taken.2
        rcases (hhidden hbehind).2 _ _ hsame with ⟨i, hi, hlive, hbears⟩
        refine absurd ⟨hlive, sameFatName_iff.mpr fun c hc => ?_⟩
          (DirectoryEntry.not_taken_of_passed (hfirst.passed i hi))
        exact (hbears c hc).trans (hsame c hc)

/-- A directory is listed and searched exactly, when no live entry stands behind
an empty name, and what stands right behind the directory is hidden by the
entries in it. -/
theorem directory_enumerated_iff {params : Parameters}
    (hroot : parseParams params = .ok root)
    (hwhole : 32 ∣ root.rootEnd.toNat - root.rootBegin.toNat)
    (image : Bytes) (handle : Word) :
    EnumeratesExactly handle image root ∧ LooksInside handle image root <->
      EmptyNamesEnd image root ∧ (LiveBehind image root -> Hidden image root) := by
  have hsmall := smallRoot_of_parseParams hroot
  have hregion : root.rootEnd.toNat = slotPlace root (slotCount root) := by
    have hle := hsmall.begin_le
    unfold slotPlace slotCount
    rw [Nat.mul_div_cancel' hwhole]
    omega
  constructor
  · rintro ⟨hexact, hinside⟩
    have hentries := rootEntry_of_yielded hsmall hregion hexact
    refine ⟨?_, hidden_of_exact hsmall hregion hentries hinside⟩
    intro k hlt hlive hbefore
    exact (hentries k ⟨hlive, hbefore, Or.inl hlt⟩).2.2
  · rintro ⟨hnames, hhidden⟩
    have hall := yieldedBelow_all (yielded_iff_rootEntry hnames hhidden)
    refine ⟨?_, looksInside_of_hidden hsmall hregion hhidden⟩
    intro places s p henum
    rcases listedTo_of_enumeration hsmall hregion henum with ⟨m, hlisted⟩
    have hle := hlisted.goesOn.le
    constructor
    · rw [hlisted.places_eq, ← hall]
      exact (numbersBelow_mono _ hle).map _
    · intro s₁ hcall
      rcases hlisted.call hsmall hregion hcall with
        ⟨⟨t, hzero⟩, hnone⟩ | ⟨k, _, _, _, hpanic | ⟨q, t, hok, hq, _⟩⟩
      · refine Or.inr ⟨0, t, hzero, fun _ => ?_⟩
        rw [hlisted.places_eq, ← hall]
        unfold yieldedBelow
        rw [numbersBelow_none hle fun i hmi _ => decide_eq_false (hnone i hmi)]
      · exact Or.inl hpanic
      · exact Or.inr ⟨q, t, hok, fun h => absurd h hq⟩

end Directories

def twoEntries : Bytes :=
  fun i => if i = 0x2600 ∨ i = 0x2640 then 0x41 else if i = 0x2620 then 0xe5 else 0

theorem twoEntries_ends : (slot twoEntries bootRoot 3).Ends := by
  decide

theorem directory_enumerated_two :
    rootEntries twoEntries bootRoot = [0x2600, 0x2640] ∧
      EnumeratesExactly 4 twoEntries bootRoot ∧ LooksInside 4 twoEntries bootRoot := by
  refine ⟨by decide +kernel, (directory_enumerated_iff
    (rfl : parseParams bootParameters = .ok bootRoot) (by decide) _ _).mpr ⟨?_, ?_⟩⟩
  · intro k _ _ hbefore i hik
    have hk : k ≤ 3 := by
      by_contra hmore
      exact hbefore 3 (by omega) twoEntries_ends
    have hnames : forall i, i < 3 -> (slot twoEntries bootRoot i).name 0 ≠ 0x00 := by
      decide
    exact hnames i (by omega)
  · intro hlive
    exact absurd twoEntries_ends (hlive.2.1 3 (by decide))

def fullParameters : Parameters :=
  { bootParameters with rootEntries := 16 }

def fullRoot : FatGeometry :=
  { bootRoot with rootEnd := init64 0 0 0 0x2800 }

def deletedEntries : Bytes :=
  fun i => if i < 0x2800 then 0xe5 else 0x41

theorem data_listed_as_entry :
    parseParams fullParameters = .ok fullRoot ∧
      rootEntries deletedEntries fullRoot = [] ∧
      ¬ EnumeratesExactly 4 deletedEntries fullRoot := by
  have hparse : parseParams fullParameters = .ok fullRoot := rfl
  have hcount : slotCount fullRoot = 16 := by
    decide
  have hslot : forall k, k < 16 -> (slot deletedEntries fullRoot k).Skipped := by
    intro k hk
    right
    change deletedEntries ((0x2600 + 32 * k + 0) % 2 ^ 64) = 0xe5
    exact if_pos (by omega)
  have hlive : (slot deletedEntries fullRoot 16).Live := by
    decide
  have hends : forall k, k < 16 -> ¬ (slot deletedEntries fullRoot k).Ends := by
    intro k hk hends
    rcases hslot k hk with hvol | hdeleted
    · exact hvol hends.1
    · rw [hends.2] at hdeleted
      exact absurd hdeleted (by decide)
  refine ⟨hparse, ?_, ?_⟩
  · unfold rootEntries
    rw [hcount, numbersBelow_none (Nat.zero_le 16)]
    · rfl
    · intro k _ hk
      exact decide_eq_false fun hentry =>
        DirectoryEntry.not_live_of_skipped (hslot k hk) hentry.2.1
  · intro hexact
    have hentry := rootEntry_of_yielded (smallRoot_of_parseParams hparse)
      (by decide) hexact 16 ⟨hlive, hends, Or.inr ⟨rfl, by decide, hslot 15 (by decide)⟩⟩
    exact absurd hentry.1 (by decide)

end Fs
end Rmmtos
