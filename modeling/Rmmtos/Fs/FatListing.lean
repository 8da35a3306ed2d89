import Rmmtos.Fs.FatNodes
import Rmmtos.Kernel.System

/-!
# Listing and lookup

The names that a listing gives to the entries of a directory are looked up
again.  The translation of names loses the padding of a short extension, so
that the lookup misses every entry whose extension has less than three
characters.
-/

namespace Rmmtos
namespace Fs

open Library Kernel

/-!
# Directories on the disk
-/

/-- A live entry of the directory: it begins inside and no end mark stands
before it. -/
structure LiveEntry (image : Bytes) (root : FatGeometry) (k : Nat) : Prop where
  inside : root.rootBegin.toNat + 32 * k < root.rootEnd.toNat
  live : (entryAt image (root.rootBegin.toNat + 32 * k)).Live
  before : forall i, i < k ->
    ¬ (entryAt image (root.rootBegin.toNat + 32 * i)).Ends

/-- The eleven characters of two names are the same. -/
def SameName (raw raw' : Bytes) : Prop :=
  forall i, i < 11 -> raw i = raw' i

/-- The live entries have valid names, no two of them the same. -/
structure ValidDirectory (image : Bytes) (root : FatGeometry) : Prop where
  valid : forall k, LiveEntry image root k -> exists base ext,
    ValidName (entryAt image (root.rootBegin.toNat + 32 * k)).name base ext
  distinct : forall k k', LiveEntry image root k -> LiveEntry image root k' ->
    SameName (entryAt image (root.rootBegin.toNat + 32 * k)).name
      (entryAt image (root.rootBegin.toNat + 32 * k')).name -> k = k'

structure FatMounted (s : VfsState) (handle : Word) (image : Bytes)
    (root : FatGeometry) : Prop where
  owns : exists live, Owns s.fs.heap live
  geometry : (s.fatRoot (s.fs.handle handle).node).geometry = root
  image_eq : s.content (s.fs.handle
    (s.fatRoot (s.fs.handle handle).node).handle).node = image

/-- The nodes that a listing yields, one after the other.  Between two of its
calls anything may happen that leaves the directory and the last node alone. -/
inductive Listing (handle : Word) (image : Bytes) (root : FatGeometry) :
    VfsState -> Word -> Prop where
  | first {s s' : VfsState} {p : Word} : FatMounted s handle image root ->
      fatRootGetNextNode s handle 0 = .ok (p, s') -> p ≠ 0 ->
      Listing handle image root s' p
  | next {s s₁ s' : VfsState} {p q : Word} :
      Listing handle image root s p -> p ≠ 0 ->
      FatMounted s₁ handle image root ->
      s₁.fatFile p = s.fatFile p ->
      fatRootGetNextNode s₁ handle p = .ok (q, s') -> q ≠ 0 ->
      Listing handle image root s' q

/-!
# What a listing yields
-/

/-- A file node stands for an entry that a search from the begin of the
directory can reach. -/
structure OnEntry (image : Bytes) (root : FatGeometry) (k : Nat)
    (file : FatFile) : Prop where
  place : file.entryPosition.toNat = root.rootBegin.toNat + 32 * k
  reached : root.rootBegin.toNat + 32 * (k - 1) < root.rootEnd.toNat
  live : (entryAt image (root.rootBegin.toNat + 32 * k)).Live
  before : forall i, i < k ->
    ¬ (entryAt image (root.rootBegin.toNat + 32 * i)).Ends
  name : exists junk, file.name = nameFromFat
    (entryAt image (root.rootBegin.toNat + 32 * k)).name junk

/-- The geometry of a volume leaves room for positions behind the directory. -/
structure SmallRoot (root : FatGeometry) : Prop where
  begin_le : root.rootBegin.toNat ≤ root.rootEnd.toNat
  end_lt : root.rootEnd.toNat < 2 ^ 30

theorem smallRoot_of_parseParams {params : Parameters} {root : FatGeometry}
    (hroot : parseParams params = .ok root) : SmallRoot root := by
  rcases parseParams_eq hroot with ⟨_, hbegin, hend, _⟩
  generalize params.reservedSectors +
    params.fats.setWidth 16 * params.sectorsPerFat = sectors at hbegin
  generalize (params.rootEntries * 32 + params.bytesPerSector - 1) /
    params.bytesPerSector * params.bytesPerSector = size at hend
  have hsectors := sectors.isLt
  have hsize := size.isLt
  constructor <;> omega

section Listing

variable {handle p : Word} {image : Bytes} {root : FatGeometry}
  {s s' : VfsState} {k : Nat}

theorem onEntry_of_first {file : FatFile} {j : Nat} {wanted : Bytes -> Bool}
    (hbefore : forall i, i < k ->
      ¬ (entryAt image (root.rootBegin.toNat + 32 * i)).Ends)
    (hfirst : FirstEntry image root wanted (root.rootBegin.toNat + 32 * k) j)
    (hplace : file.entryPosition.toNat =
      root.rootBegin.toNat + 32 * k + 32 * j)
    (hname : exists junk, file.name = nameFromFat (entryAt image
      (root.rootBegin.toNat + 32 * k + 32 * j)).name junk) :
    OnEntry image root (k + j) file := by
  have hsum : forall i, root.rootBegin.toNat + 32 * (k + i) =
      root.rootBegin.toNat + 32 * k + 32 * i := by
    intro i
    omega
  refine ⟨by rw [hplace, hsum], ?_, ?_, ?_, ?_⟩
  · have hinside := hfirst.inside
    omega
  · rw [hsum]
    exact hfirst.taken.1
  · intro i hi
    rcases Nat.lt_or_ge i k with hik | hik
    · exact hbefore i hik
    · intro hends
      have hpassed := hfirst.passed (i - k) (by omega)
      rw [← hsum, Nat.add_sub_cancel' hik] at hpassed
      exact DirectoryEntry.not_passed_of_ends hends hpassed
  · rw [hsum]
    exact hname

theorem onEntry_of_load {wanted : Bytes -> Bool} {position : Uint64}
    {directory : Word} (hsmall : SmallRoot root)
    (howns : exists live, Owns s.fs.heap live)
    (hgeometry : (s.fatRoot directory).geometry = root)
    (himage : s.content (s.fs.handle (s.fatRoot directory).handle).node = image)
    (hposition : position.toNat = root.rootBegin.toNat + 32 * k)
    (hnear : position.toNat < root.rootEnd.toNat + 64)
    (hbefore : forall i, i < k ->
      ¬ (entryAt image (root.rootBegin.toNat + 32 * i)).Ends)
    (hrun : fatLoadNode s directory wanted position = .ok (p, s'))
    (hp : p ≠ 0) : exists j, OnEntry image root (k + j) (s'.fatFile p) := by
  rcases howns with ⟨live, howns⟩
  have hend := hsmall.end_lt
  rcases fatLoadNode_cases howns directory wanted position hgeometry himage
    (by omega) hnear with ⟨_, _, hnone⟩ | ⟨j, hfirst, hload⟩
  · rw [hnone] at hrun
    cases hrun
    exact absurd rfl hp
  · rcases hload with hpanic | ⟨q, t, place, _, hok, hplace, hcreated⟩
    · rw [hpanic] at hrun
      cases hrun
    · rw [hok] at hrun
      cases hrun
      rcases hcreated.file with ⟨junk, hfile⟩
      rw [hposition] at hfirst hplace hfile
      refine ⟨j, onEntry_of_first hbefore hfirst ?_ ?_⟩
      · rw [hfile]
        exact hplace
      · rw [hfile]
        exact ⟨junk, rfl⟩

theorem onEntry_of_listing (hsmall : SmallRoot root)
    (hlist : Listing handle image root s p) :
    exists k, OnEntry image root k (s.fatFile p) := by
  have hle := hsmall.begin_le
  have hend := hsmall.end_lt
  induction hlist with
  | @first s s' p hmounted hrun hp =>
      unfold fatRootGetNextNode at hrun
      dsimp only at hrun
      rw [if_pos rfl, hmounted.geometry] at hrun
      rcases onEntry_of_load (k := 0) hsmall hmounted.owns hmounted.geometry
        hmounted.image_eq rfl (by omega) (fun i hi => absurd hi (by omega)) hrun
        hp with ⟨j, hon⟩
      exact ⟨0 + j, hon⟩
  | @next s s₁ s' p q _ hp hmounted hsame hrun hq ih =>
      rcases ih with ⟨k, hon⟩
      have hplace := hon.place
      have hreached := hon.reached
      have hsize : (init64 0 0 0 directoryEntrySize).toNat = 32 := rfl
      have hnext : (add64 (init64 0 0 0 directoryEntrySize)
          (s.fatFile p).entryPosition).toNat =
            root.rootBegin.toNat + 32 * (k + 1) := by
        rw [add64_toNat_of_lt (by omega), hsize, hplace]
        omega
      unfold fatRootGetNextNode at hrun
      dsimp only at hrun
      rw [if_neg hp, hsame] at hrun
      rcases onEntry_of_load (k := k + 1) hsmall hmounted.owns
        hmounted.geometry hmounted.image_eq hnext (by omega) (by
          intro i hi
          rcases Nat.lt_succ_iff_lt_or_eq.mp hi with hi | rfl
          · exact hon.before i hi
          · exact fun hends => hon.live.2.2 hends.2) hrun hq with ⟨j, hon⟩
      exact ⟨k + 1 + j, hon⟩

/-!
# The lookup of a name
-/

theorem sameFatName_iff {raw name : Bytes} :
    sameFatName raw name = true <-> SameName raw name := by
  unfold sameFatName SameName
  simp only [List.all_eq_true, List.mem_range, beq_iff_eq]

/-- The names that lead back to their entries.  A listing of a directory
without an end mark also yields what stands right behind the directory, which
need not be an entry at all. -/
def LeadsBack (image : Bytes) (root : FatGeometry) (place : Nat)
    (stack : Bytes) : Prop :=
  (place < root.rootEnd.toNat ∧ (entryAt image place).name 10 ≠ space) ∨
    (root.rootEnd.toNat ≤ place ∧ KeepsName (entryAt image place).name stack ∧
      forall k, LiveEntry image root k -> ¬ SameName
        (entryAt image (root.rootBegin.toNat + 32 * k)).name
        (entryAt image place).name)

theorem ValidName.ext_iff {raw : Bytes} {base ext : Nat}
    (hraw : ValidName raw base ext) : ext = 3 <-> raw 10 ≠ space := by
  have hle := hraw.ext_le
  constructor
  · rintro rfl
    exact (hraw.ext_chars 2 (by omega)).1.1
  · intro hchar
    by_contra hne
    exact hchar (hraw.ext_pad 2 (by omega) (by omega))

def nameWanted (raw junk stack : Bytes) : Bytes -> Bool :=
  fun raw' => sameFatName raw' (nameToFat (nameFromFat raw junk) stack)

theorem leadsBack_of_first {file : FatFile} {junk stack : Bytes}
    (hvalid : ValidDirectory image root) (hon : OnEntry image root k file)
    (hfirst : FirstEntry image root
      (nameWanted (entryAt image (root.rootBegin.toNat + 32 * k)).name junk
        stack) root.rootBegin.toNat k) :
    LeadsBack image root (root.rootBegin.toNat + 32 * k) stack := by
  have hsame := sameFatName_iff.mp hfirst.taken.2
  have hkeeps := keepsName_of_nameToFat fun i hi => (hsame i hi).symm
  rcases Nat.lt_or_ge (root.rootBegin.toNat + 32 * k) root.rootEnd.toNat with
    hin | hout
  · rcases hvalid.valid k ⟨hin, hon.live, hon.before⟩ with ⟨base, ext, hname⟩
    exact Or.inl ⟨hin, hname.ext_iff.mp ((hname.keepsName_iff stack).mp hkeeps)⟩
  · refine Or.inr ⟨hout, hkeeps, ?_⟩
    intro j hj hbears
    have hjk : j < k := by
      have hinside := hj.inside
      omega
    apply DirectoryEntry.not_taken_of_passed (hfirst.passed j hjk)
    refine ⟨hj.live, sameFatName_iff.mpr ?_⟩
    intro i hi
    rw [hbears i hi]
    exact hsame i hi

theorem first_of_leadsBack {file : FatFile} {junk stack : Bytes}
    (hvalid : ValidDirectory image root) (hon : OnEntry image root k file)
    (hback : LeadsBack image root (root.rootBegin.toNat + 32 * k) stack) :
    FirstEntry image root
      (nameWanted (entryAt image (root.rootBegin.toNat + 32 * k)).name junk
        stack) root.rootBegin.toNat k := by
  have hkeeps : KeepsName
      (entryAt image (root.rootBegin.toNat + 32 * k)).name stack := by
    rcases hback with ⟨hin, hchar⟩ | ⟨_, hkeeps, _⟩
    · rcases hvalid.valid k ⟨hin, hon.live, hon.before⟩ with ⟨base, ext, hname⟩
      exact (hname.keepsName_iff stack).mpr (hname.ext_iff.mpr hchar)
    · exact hkeeps
  have hsame := fun i hi => nameToFat_of_keepsName junk hkeeps (i := i) hi
  refine ⟨hon.reached, ?_, hon.live, sameFatName_iff.mpr fun i hi =>
    (hsame i hi).symm⟩
  intro i hi
  rcases DirectoryEntry.skipped_or_ends_or_live
    (entryAt image (root.rootBegin.toNat + 32 * i)) with hskip | hends | hlive
  · exact Or.inl hskip
  · exact absurd hends (hon.before i hi)
  · refine Or.inr ⟨hlive, Bool.eq_false_iff.mpr fun hwanted => ?_⟩
    have hbears : SameName
        (entryAt image (root.rootBegin.toNat + 32 * i)).name
        (entryAt image (root.rootBegin.toNat + 32 * k)).name := by
      intro c hc
      rw [sameFatName_iff.mp hwanted c hc]
      exact hsame c hc
    have hreached := hon.reached
    have hentry : LiveEntry image root i :=
      ⟨by omega, hlive, fun j hj => hon.before j (by omega)⟩
    rcases hback with ⟨hin, _⟩ | ⟨_, _, hnone⟩
    · have heq := hvalid.distinct i k hentry ⟨hin, hon.live, hon.before⟩ hbears
      omega
    · exact hnone i hentry hbears

/-- Listing and lookup agree on an entry exactly when its name leads back: on
the entries with an extension of three characters. -/
theorem lookup_of_listing {params : Parameters} {handle p : Word}
    {image : Bytes} {root : FatGeometry} {s t : VfsState}
    (hroot : parseParams params = .ok root)
    (hvalid : ValidDirectory image root)
    (hlist : Listing handle image root s p)
    (ht : FatMounted t handle image root) :
    (fatRootGetNodeByName t handle (s.fatFile p).name = panic .outOfMem ∨
      exists q t',
        fatRootGetNodeByName t handle (s.fatFile p).name = .ok (q, t') ∧
        (q ≠ 0 ∧ (t'.fatFile q).entryPosition = (s.fatFile p).entryPosition <->
          LeadsBack image root (s.fatFile p).entryPosition.toNat
            (t.stack t.lookups))) ∧
      forall raw junk stack base ext, ValidName raw base ext ->
        (SameName (nameToFat (nameFromFat raw junk) stack) raw <->
          raw 10 ≠ space) := by
  constructor
  · have hsmall := smallRoot_of_parseParams hroot
    have hle := hsmall.begin_le
    have hend := hsmall.end_lt
    rcases onEntry_of_listing hsmall hlist with ⟨k, hon⟩
    rcases hon.name with ⟨junk, hname⟩
    rcases ht.owns with ⟨live, howns⟩
    rw [hname, hon.place]
    unfold fatRootGetNodeByName
    dsimp only
    rw [ht.geometry]
    rcases fatLoadNode_cases (s := { t with lookups := t.lookups + 1 }) howns
      (t.fs.handle handle).node
      (nameWanted (entryAt image (root.rootBegin.toNat + 32 * k)).name junk
        (t.stack t.lookups)) root.rootBegin ht.geometry ht.image_eq (by omega)
      (by omega) with ⟨_, hnone, hok⟩ | ⟨j, hfirst, hload⟩
    · refine Or.inr ⟨0, _, hok, iff_of_false (fun h => h.1 rfl) ?_⟩
      intro hback
      exact hnone k (first_of_leadsBack hvalid hon hback)
    · rcases hload with hpanic | ⟨q, t', place, _, hok, hplace, hcreated⟩
      · exact Or.inl hpanic
      · refine Or.inr ⟨q, t', hok, ?_⟩
        rcases hcreated.file with ⟨_, hfile⟩
        rw [hfile]
        dsimp only
        have hq := hcreated.owns.ne_zero List.mem_cons_self
        constructor
        · rintro ⟨_, heq⟩
          have hjk : j = k := by
            rw [heq, hon.place] at hplace
            omega
          subst hjk
          exact leadsBack_of_first hvalid hon hfirst
        · intro hback
          have hjk := hfirst.unique (first_of_leadsBack hvalid hon hback)
          refine ⟨hq, Uint64.eq_of_toNat_eq ?_⟩
          rw [hplace, hon.place, hjk]
  · intro raw junk stack base ext hraw
    rw [← hraw.ext_iff, ← hraw.keepsName_iff stack]
    exact nameToFat_nameFromFat_iff raw junk stack

end Listing

/-!
# Directories of one entry

The volume has the geometry of the boot sector, and the second entry of its
directory is the end mark.
-/

def oneEntry (name : List Byte) : Bytes :=
  fun i => if i < 0x2600 + 11 then name.getD (i - 0x2600) 0 else 0

def mountedAt8 (image : Bytes) : VfsState where
  toKernelState := { smallBoot with
    fs := { smallBoot.fs with handle := fun _ => ⟨0x8002, 8, init64 0 0 0 0⟩ } }
  vfsRoot := 8
  devfsRoot := 0
  fileOps := fun _ => .none
  content := fun _ => image
  fatRoot := fun _ => ⟨bootRoot, 16⟩
  fatFile := fun _ => ⟨0, init64 0 0 0 0, fun _ => 0⟩
  stack := fun _ _ => 0
  lookups := 0

theorem mountedAt8_mounted (image : Bytes) :
    FatMounted (mountedAt8 image) 4 image bootRoot := by
  refine ⟨⟨[], ⟨smallBoot_boot.heap, ?_⟩, List.nodup_nil,
    smallBoot_boot.pool_pos⟩, rfl, rfl⟩
  intro p o hp
  cases hp

theorem oneEntry_valid {name : List Byte} {base ext : Nat}
    (hname : ValidName (entryAt (oneEntry name) 0x2600).name base ext) :
    ValidDirectory (oneEntry name) bootRoot := by
  have hzero : forall i, 32 ≤ i -> i < 64 -> oneEntry name (0x2600 + i) = 0 := by
    intro i hi _
    exact if_neg (by omega)
  have hends : (entryAt (oneEntry name) (0x2600 + 32)).Ends := by
    have hplace : forall i, i < 32 ->
        (0x2600 + 32 + i) % 2 ^ 64 = 0x2600 + (32 + i) := by
      intro i hi
      omega
    constructor
    · change oneEntry name ((0x2600 + 32 + 11) % 2 ^ 64) &&& flagVolume = 0
      rw [hplace 11 (by omega), hzero 43 (by omega) (by omega)]
      rfl
    · change oneEntry name ((0x2600 + 32 + 0) % 2 ^ 64) = 0
      rw [hplace 0 (by omega), hzero 32 (by omega) (by omega)]
  have honly : forall k, LiveEntry (oneEntry name) bootRoot k -> k = 0 := by
    intro k hk
    rcases Nat.lt_trichotomy k 1 with hlt | rfl | hgt
    · omega
    · exact absurd hends.2 hk.live.2.2
    · exact absurd hends (hk.before 1 hgt)
  constructor
  · intro k hk
    rw [honly k hk]
    exact ⟨base, ext, hname⟩
  · intro k k' hk hk' _
    rw [honly k hk, honly k' hk']

def firstListed (image : Bytes) : Word × VfsState :=
  (fatRootGetNextNode (mountedAt8 image) 4 0).toOption.getD
    (0, mountedAt8 image)

theorem listing_first {image : Bytes} (hp : (firstListed image).1 ≠ 0)
    (hrun : fatRootGetNextNode (mountedAt8 image) 4 0 =
      .ok (firstListed image)) :
    Listing 4 image bootRoot (firstListed image).2 (firstListed image).1 :=
  Listing.first (mountedAt8_mounted image) hrun hp

def initName : List Byte :=
  [0x49, 0x4e, 0x49, 0x54, 0x20, 0x20, 0x20, 0x20, 0x42, 0x49, 0x4e]

theorem initName_valid : ValidName (entryAt (oneEntry initName) 0x2600).name 4 3 where
  base_pos := by decide
  base_le := by decide
  ext_le := by decide
  base_chars := by decide
  base_pad := by decide
  ext_chars := by decide
  ext_pad := by decide

theorem lookup_of_listing_init :
    (fatRootGetNodeByName (mountedAt8 (oneEntry initName)) 4
        ((firstListed (oneEntry initName)).2.fatFile
          (firstListed (oneEntry initName)).1).name = panic .outOfMem ∨
      exists q t',
        fatRootGetNodeByName (mountedAt8 (oneEntry initName)) 4
          ((firstListed (oneEntry initName)).2.fatFile
            (firstListed (oneEntry initName)).1).name = .ok (q, t') ∧
        (q ≠ 0 ∧ (t'.fatFile q).entryPosition =
            ((firstListed (oneEntry initName)).2.fatFile
              (firstListed (oneEntry initName)).1).entryPosition <->
          LeadsBack (oneEntry initName) bootRoot
            ((firstListed (oneEntry initName)).2.fatFile
              (firstListed (oneEntry initName)).1).entryPosition.toNat
            fun _ => 0)) ∧
      forall raw junk stack base ext, ValidName raw base ext ->
        (SameName (nameToFat (nameFromFat raw junk) stack) raw <->
          raw 10 ≠ space) :=
  lookup_of_listing (rfl : parseParams bootParameters = .ok bootRoot)
    (oneEntry_valid initName_valid)
    (listing_first (by decide +kernel) rfl) (mountedAt8_mounted _)

def shortName : List Byte :=
  [0x52, 0x45, 0x41, 0x44, 0x4d, 0x45, 0x20, 0x20, 0x43, 0x20, 0x20]

theorem shortName_valid :
    ValidName (entryAt (oneEntry shortName) 0x2600).name 6 1 where
  base_pos := by decide
  base_le := by decide
  ext_le := by decide
  base_chars := by decide
  base_pad := by decide
  ext_chars := by decide
  ext_pad := by decide

def lookedUp (image : Bytes) : Result Word :=
  (fatRootGetNodeByName (mountedAt8 image) 4
    ((firstListed image).2.fatFile (firstListed image).1).name).map Prod.fst

theorem lookup_misses_short_name :
    ValidDirectory (oneEntry shortName) bootRoot ∧
      Listing 4 (oneEntry shortName) bootRoot
        (firstListed (oneEntry shortName)).2
        (firstListed (oneEntry shortName)).1 ∧
      lookedUp (oneEntry shortName) = .ok 0 :=
  ⟨oneEntry_valid shortName_valid, listing_first (by decide +kernel) rfl,
    by decide +kernel⟩

end Fs
end Rmmtos
