import Rmmtos.Fs.FatTable
import Rmmtos.Fs.Vfs

/-!
# The search through a directory on the disk

Which entry the loop of {lit}`scanEntries` finds, said of the image alone: the
first live one that is wanted, as long as the entry before it begins inside the
directory.
-/

namespace Rmmtos
namespace Fs

open Library Kernel

def entryAt (image : Bytes) (position : Nat) : DirectoryEntry :=
  directoryEntry fun i => image ((position + i) % 2 ^ 64)

namespace DirectoryEntry

def Skipped (e : DirectoryEntry) : Prop :=
  e.attributes &&& flagVolume ≠ 0 ∨ e.name 0 = 0xe5

/-- The mark behind the last entry. -/
def Ends (e : DirectoryEntry) : Prop :=
  e.attributes &&& flagVolume = 0 ∧ e.name 0 = 0x00

def Live (e : DirectoryEntry) : Prop :=
  e.attributes &&& flagVolume = 0 ∧ e.name 0 ≠ 0xe5 ∧ e.name 0 ≠ 0x00

def Passed (wanted : Bytes -> Bool) (e : DirectoryEntry) : Prop :=
  e.Skipped ∨ e.Live ∧ wanted e.name = false

def Taken (wanted : Bytes -> Bool) (e : DirectoryEntry) : Prop :=
  e.Live ∧ wanted e.name = true

variable {wanted : Bytes -> Bool} {e : DirectoryEntry}

theorem skipped_or_ends_or_live (e : DirectoryEntry) :
    e.Skipped ∨ e.Ends ∨ e.Live := by
  by_cases hvol : e.attributes &&& flagVolume = 0
  · by_cases hdeleted : e.name 0 = 0xe5
    · exact Or.inl (Or.inr hdeleted)
    · by_cases hends : e.name 0 = 0x00
      · exact Or.inr (Or.inl ⟨hvol, hends⟩)
      · exact Or.inr (Or.inr ⟨hvol, hdeleted, hends⟩)
  · exact Or.inl (Or.inl hvol)

theorem not_taken_of_passed (h : e.Passed wanted) : ¬ e.Taken wanted := by
  rintro ⟨hlive, hwanted⟩
  rcases h with hvol | ⟨_, hnot⟩
  · rcases hvol with hvol | hdeleted
    · exact hvol hlive.1
    · exact hlive.2.1 hdeleted
  · rw [hwanted] at hnot
    cases hnot

theorem not_passed_of_ends (h : e.Ends) : ¬ e.Passed wanted := by
  rintro (hskipped | ⟨hlive, _⟩)
  · rcases hskipped with hvol | hdeleted
    · exact hvol h.1
    · rw [h.2] at hdeleted
      exact absurd hdeleted (by decide)
  · exact hlive.2.2 h.2

theorem not_taken_of_ends (h : e.Ends) : ¬ e.Taken wanted :=
  fun htaken => htaken.1.2.2 h.2

end DirectoryEntry

/-- The {lit}`k`-th entry from a start is the one that a search finds. -/
structure FirstEntry (image : Bytes) (root : FatGeometry)
    (wanted : Bytes -> Bool) (start k : Nat) : Prop where
  inside : start + 32 * (k - 1) < root.rootEnd.toNat
  passed : forall i, i < k -> (entryAt image (start + 32 * i)).Passed wanted
  taken : (entryAt image (start + 32 * k)).Taken wanted

section Scan

variable {image : Bytes} {root : FatGeometry} {wanted : Bytes -> Bool}
  {start k : Nat}

theorem FirstEntry.unique {k' : Nat}
    (hk : FirstEntry image root wanted start k)
    (hk' : FirstEntry image root wanted start k') : k = k' := by
  rcases Nat.lt_trichotomy k k' with hlt | heq | hgt
  · exact absurd hk.taken
      (DirectoryEntry.not_taken_of_passed (hk'.passed k hlt))
  · exact heq
  · exact absurd hk'.taken
      (DirectoryEntry.not_taken_of_passed (hk.passed k' hgt))

theorem scanTurn_cases (wanted : Bytes -> Bool) (x : Scan) :
    let e := directoryEntry x.volume.data
    let y := { x with
      position := x.volume.position
      volume := x.volume.advance directoryEntrySize }
    (e.Passed wanted ∧ scanTurn wanted x = y) ∨
      (e.Ends ∧ scanTurn wanted x = { y with ended := true }) ∨
      (e.Taken wanted ∧ scanTurn wanted x = { y with entry := some e }) := by
  dsimp only
  unfold scanTurn
  generalize directoryEntry x.volume.data = e
  by_cases hvol : e.attributes &&& flagVolume ≠ 0
  · exact Or.inl ⟨Or.inl (Or.inl hvol), if_pos hvol⟩
  · have hvol0 := not_not.mp hvol
    by_cases hdeleted : e.name 0 = 0xe5
    · refine Or.inl ⟨Or.inl (Or.inr hdeleted), ?_⟩
      simp only [hvol0, ne_eq, not_true_eq_false, if_false, hdeleted, if_true]
    · by_cases hends : e.name 0 = 0x00
      · refine Or.inr (Or.inl ⟨⟨hvol0, hends⟩, ?_⟩)
        simp only [hvol0, ne_eq, not_true_eq_false, if_false, hends, if_true]
        exact if_neg (by decide)
      · have hlive : e.Live := ⟨hvol0, hdeleted, hends⟩
        cases hwanted : wanted e.name with
        | false =>
            refine Or.inl ⟨Or.inr ⟨hlive, hwanted⟩, ?_⟩
            simp only [hvol0, ne_eq, not_true_eq_false, if_false, hdeleted,
              hends, hwanted, if_true]
        | true =>
            refine Or.inr (Or.inr ⟨⟨hlive, hwanted⟩, ?_⟩)
            simp only [hvol0, ne_eq, not_true_eq_false, if_false, hdeleted,
              hends, hwanted, Bool.true_eq_false]

/-- A search that has read {lit}`n` entries goes on, met the end mark, or found
its entry. -/
def ScanOutcome (image : Bytes) (root : FatGeometry) (wanted : Bytes -> Bool)
    (start n : Nat) (x : Scan) : Prop :=
  (x.entry = none ∧ x.ended = false ∧ forall i, i < n ->
      (entryAt image (start + 32 * i)).Passed wanted) ∨
    (x.entry = none ∧ x.ended = true ∧ 0 < n ∧
      (entryAt image (start + 32 * (n - 1))).Ends) ∨
    (x.entry = some (entryAt image (start + 32 * (n - 1))) ∧ 0 < n ∧
      FirstEntry image root wanted start (n - 1))

structure ScanInv (image : Bytes) (root : FatGeometry) (wanted : Bytes -> Bool)
    (start n : Nat) (x : Scan) : Prop where
  image_eq : x.volume.image = image
  next : x.volume.position.toNat = start + 32 * n
  position : x.position.toNat = start + 32 * (n - 1)
  small : start + 32 * n < root.rootEnd.toNat + 64
  passed : forall i, i < n - 1 ->
    (entryAt image (start + 32 * i)).Passed wanted
  outcome : ScanOutcome image root wanted start n x

def scanGoesOn (root : FatGeometry) (x : Scan) : Bool :=
  x.entry.isNone && !x.ended && decide (cmp64 x.position root.rootEnd < 0)

theorem scanGoesOn_iff {x : Scan} : scanGoesOn root x = true <->
    x.entry = none ∧ x.ended = false ∧
      x.position.toNat < root.rootEnd.toNat := by
  unfold scanGoesOn
  rw [Bool.and_eq_true, Bool.and_eq_true, Option.isNone_iff_eq_none,
    Bool.not_eq_true', decide_eq_true_eq, cmp64_neg_iff, and_assoc]

theorem ScanInv.turn {n : Nat} {x : Scan}
    (hx : ScanInv image root wanted start n x)
    (hend : root.rootEnd.toNat < 2 ^ 32) (hcond : scanGoesOn root x = true) :
    ScanInv image root wanted start (n + 1) (scanTurn wanted x) := by
  rcases scanGoesOn_iff.mp hcond with ⟨hnone, hgoing, hlt⟩
  have hpassed : forall i, i < n ->
      (entryAt image (start + 32 * i)).Passed wanted := by
    rcases hx.outcome with ⟨_, _, hpassed⟩ | ⟨_, hended, _⟩ | ⟨hsome, _⟩
    · exact hpassed
    · rw [hgoing] at hended
      cases hended
    · rw [hnone] at hsome
      cases hsome
  have hinside : start + 32 * (n - 1) < root.rootEnd.toNat := by
    rw [← hx.position]
    exact hlt
  have hsize : directoryEntrySize.toNat = 32 := rfl
  have hentry : directoryEntry x.volume.data =
      entryAt image (start + 32 * n) := by
    unfold entryAt Volume.data
    rw [hx.image_eq, hx.next]
  have hnext : (x.volume.advance directoryEntrySize).position.toNat =
      start + 32 * (n + 1) := by
    unfold Volume.advance
    dsimp only
    rw [add64_toNat_of_lt (by rw [Uint64.toNat_init64]; decide),
      Uint64.toNat_init64, hx.next, hsize]
    omega
  have hall : forall y : Scan,
      y.volume = x.volume.advance directoryEntrySize ->
      y.position = x.volume.position ->
      (forall i, i < n + 1 - 1 ->
        (entryAt image (start + 32 * i)).Passed wanted) ->
      ScanOutcome image root wanted start (n + 1) y ->
      ScanInv image root wanted start (n + 1) y := by
    intro y hvolume hposition hpassed houtcome
    refine ⟨?_, ?_, ?_, by omega, hpassed, houtcome⟩
    · rw [hvolume]
      exact hx.image_eq
    · rw [hvolume]
      exact hnext
    · rw [hposition]
      exact hx.next
  have hcases := scanTurn_cases wanted x
  rw [hentry] at hcases
  rcases hcases with ⟨hpass, heq⟩ | ⟨hends, heq⟩ | ⟨htaken, heq⟩
  · rw [heq]
    refine hall _ rfl rfl hpassed (Or.inl ⟨hnone, hgoing, ?_⟩)
    intro i hi
    rcases Nat.lt_succ_iff_lt_or_eq.mp hi with hi | rfl
    · exact hpassed i hi
    · exact hpass
  · rw [heq]
    exact hall _ rfl rfl hpassed
      (Or.inr (Or.inl ⟨hnone, rfl, Nat.succ_pos n, hends⟩))
  · rw [heq]
    exact hall _ rfl rfl hpassed
      (Or.inr (Or.inr ⟨rfl, Nat.succ_pos n, hinside, hpassed, htaken⟩))

theorem scanEntries_eq (root : FatGeometry) (wanted : Bytes -> Bool)
    (v : Volume) (position : Uint64) (hend : root.rootEnd.toNat < 2 ^ 32)
    (hstart : position.toNat < root.rootEnd.toNat + 64) :
    exists x, scanEntries root wanted v position = .ok x ∧
      ((exists k, FirstEntry v.image root wanted position.toNat k ∧
        x.entry = some (entryAt v.image (position.toNat + 32 * k)) ∧
        x.position.toNat = position.toNat + 32 * k) ∨
      (x.entry = none ∧
        forall k, ¬ FirstEntry v.image root wanted position.toNat k)) := by
  have hinit : ScanInv v.image root wanted position.toNat 0
      ⟨v.seek position, position, none, false⟩ := by
    refine ⟨rfl, rfl, rfl, hstart, ?_, Or.inl ⟨rfl, rfl, ?_⟩⟩
    · intro i hi
      exact absurd hi (Nat.not_lt_zero i)
    · intro i hi
      exact absurd hi (Nat.not_lt_zero i)
  have hturn : forall x : Scan,
      (exists n, ScanInv v.image root wanted position.toNat n x) ->
      scanGoesOn root x = true -> exists y : Scan,
        (.ok (scanTurn wanted x) : Result Scan) = .ok y ∧
        (exists n, ScanInv v.image root wanted position.toNat n y) ∧
        root.rootEnd.toNat + 64 - y.volume.position.toNat <
          root.rootEnd.toNat + 64 - x.volume.position.toNat := by
    rintro x ⟨n, hx⟩ hcond
    have hy := hx.turn hend hcond
    refine ⟨_, rfl, ⟨n + 1, hy⟩, ?_⟩
    rw [hx.next, hy.next]
    have hsmall := hx.small
    omega
  have hfuel : root.rootEnd.toNat + 64 - position.toNat ≤ scanStates := by
    unfold scanStates
    omega
  rcases whileLoop_total (e := Stop.hang)
    (fun x : Scan => root.rootEnd.toNat + 64 - x.volume.position.toNat) hturn
    ⟨0, hinit⟩ hfuel with ⟨x, hrun, ⟨n, hx⟩, hexit⟩
  refine ⟨x, hrun, ?_⟩
  rcases hx.outcome with ⟨hnone, hgoing, hpassed⟩ | ⟨hnone, _, hn, hends⟩ |
    ⟨hsome, _, hfirst⟩
  · refine Or.inr ⟨hnone, ?_⟩
    intro k hk
    have hout : ¬ x.position.toNat < root.rootEnd.toNat := by
      intro hlt
      rw [scanGoesOn_iff.mpr ⟨hnone, hgoing, hlt⟩] at hexit
      cases hexit
    rcases Nat.lt_or_ge k n with hkn | hkn
    · exact DirectoryEntry.not_taken_of_passed (hpassed k hkn) hk.taken
    · have hinside := hk.inside
      rw [hx.position] at hout
      omega
  · refine Or.inr ⟨hnone, ?_⟩
    intro k hk
    rcases Nat.lt_trichotomy k (n - 1) with hlt | rfl | hgt
    · exact DirectoryEntry.not_taken_of_passed (hx.passed k hlt) hk.taken
    · exact DirectoryEntry.not_taken_of_ends hends hk.taken
    · exact DirectoryEntry.not_passed_of_ends hends (hk.passed (n - 1) hgt)
  · exact Or.inl ⟨n - 1, hfirst, hsome, hx.position⟩

end Scan

end Fs
end Rmmtos
