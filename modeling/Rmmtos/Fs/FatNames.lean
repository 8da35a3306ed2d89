import Rmmtos.Fs.Fat

/-!
# File names

The two translations of {lit}`fs/fat/fat.c` between the eleven characters of a
directory entry and the names of nodes.  Neither of them knows how long the
other's result is.
-/

namespace Rmmtos
namespace Fs

open Library Kernel

def space : Byte := 0x20

def dot : Byte := 0x2e

def islower (c : Byte) : Bool :=
  decide (0x61 ≤ c ∧ c ≤ 0x7a)

def isupper (c : Byte) : Bool :=
  decide (0x41 ≤ c ∧ c ≤ 0x5a)

def toupper (c : Byte) : Byte :=
  if islower c then c - 32 else c

def tolower (c : Byte) : Byte :=
  if isupper c then c + 32 else c

/-- Copy characters until the stop character or the limit; also the number of
characters that were copied. -/
def copyUntil (stop : Byte) (convert : Byte -> Byte) (src : Bytes) :
    Nat -> Nat -> Nat -> Bytes -> Nat × Bytes
  | 0, _, _, dest => (0, dest)
  | limit + 1, i, j, dest =>
      if src i = stop then (0, dest)
      else
        let r := copyUntil stop convert src limit (i + 1) (j + 1)
          (Function.update dest j (convert (src i)))
        (r.1 + 1, r.2)

/-- The places that no loop writes keep what {lit}`fatName` held. -/
def nameToFat (name fatName : Bytes) : Bytes :=
  let (base, fatName) := copyUntil dot toupper name 8 0 0 fatName
  let fatName := fun i => if base ≤ i ∧ i < 8 then space else fatName i
  (copyUntil dot toupper name 3 (base + 1) 8 fatName).2

def nameFromFat (fatName name : Bytes) : Bytes :=
  let (base, name) := copyUntil space tolower fatName 8 0 0 name
  let name := Function.update name base dot
  let (ext, name) := copyUntil space tolower fatName 3 8 (base + 1) name
  Function.update name (base + 1 + ext) 0

/-!
# What is copied
-/

/-- A run of characters ends at the limit or at the stop character. -/
structure RunOf (stop : Byte) (src : Bytes) (i limit n : Nat) : Prop where
  le : n ≤ limit
  before : forall k, k < n -> src (i + k) ≠ stop
  ends : n < limit -> src (i + n) = stop

section Copy

variable {stop : Byte} {convert : Byte -> Byte} {src dest : Bytes}
  {i j n limit : Nat}

theorem exists_runOf (stop : Byte) (src : Bytes) (i limit : Nat) :
    exists n, RunOf stop src i limit n := by
  induction limit generalizing i with
  | zero => exact ⟨0, Nat.le_refl 0, fun k hk => by omega, fun h => by omega⟩
  | succ limit ih =>
      by_cases hstop : src i = stop
      · exact ⟨0, Nat.zero_le _, fun k hk => by omega, fun _ => hstop⟩
      · rcases ih (i + 1) with ⟨n, hle, hbefore, hends⟩
        refine ⟨n + 1, by omega, ?_, ?_⟩
        · intro k hk
          cases k with
          | zero => exact hstop
          | succ k =>
              rw [show i + (k + 1) = i + 1 + k by omega]
              exact hbefore k (by omega)
        · intro hlt
          rw [show i + (n + 1) = i + 1 + n by omega]
          exact hends (by omega)

def copied (convert : Byte -> Byte) (src : Bytes) (i j n : Nat) (dest : Bytes) :
    Bytes :=
  fun q => if j ≤ q ∧ q < j + n then convert (src (i + (q - j))) else dest q

theorem copied_in {q k : Nat} (hq : q = j + k) (hk : k < n) :
    copied convert src i j n dest q = convert (src (i + k)) := by
  subst hq
  unfold copied
  rw [if_pos (by omega), Nat.add_sub_cancel_left]

theorem copied_out {q : Nat} (hq : q < j ∨ j + n ≤ q) :
    copied convert src i j n dest q = dest q := by
  unfold copied
  rw [if_neg (by omega)]

theorem copied_zero : copied convert src i j 0 dest = dest :=
  funext fun _ => copied_out (by omega)

theorem copied_succ :
    copied convert src (i + 1) (j + 1) n
        (Function.update dest j (convert (src i))) =
      copied convert src i j (n + 1) dest := by
  funext q
  by_cases hq : q = j
  · subst hq
    rw [copied_out (by omega), Function.update_self,
      copied_in (k := 0) (by omega) (by omega), Nat.add_zero]
  · by_cases hin : j + 1 ≤ q ∧ q < j + 1 + n
    · rw [copied_in (k := q - (j + 1)) (by omega) (by omega),
        copied_in (k := q - (j + 1) + 1) (by omega) (by omega),
        show i + 1 + (q - (j + 1)) = i + (q - (j + 1) + 1) by omega]
    · rw [copied_out (by omega), copied_out (by omega),
        Function.update_of_ne hq]

theorem RunOf.tail (hrun : RunOf stop src i (limit + 1) (n + 1)) :
    RunOf stop src (i + 1) limit n := by
  refine ⟨Nat.le_of_succ_le_succ hrun.le, ?_, ?_⟩
  · intro k hk
    have hbefore := hrun.before (k + 1) (by omega)
    rwa [show i + (k + 1) = i + 1 + k by omega] at hbefore
  · intro hlt
    have hends := hrun.ends (by omega)
    rwa [show i + (n + 1) = i + 1 + n by omega] at hends

theorem copyUntil_eq (hrun : RunOf stop src i limit n) :
    copyUntil stop convert src limit i j dest =
      (n, copied convert src i j n dest) := by
  induction limit generalizing i j n dest with
  | zero =>
      have hn : n = 0 := Nat.le_zero.mp hrun.le
      subst hn
      rw [copied_zero]
      rfl
  | succ limit ih =>
      unfold copyUntil
      cases n with
      | zero =>
          have hstop : src i = stop := hrun.ends (by omega)
          rw [if_pos hstop, copied_zero]
      | succ n =>
          have hgo : src i ≠ stop := hrun.before 0 (by omega)
          rw [if_neg hgo, ih hrun.tail]
          exact Prod.ext rfl copied_succ

end Copy

/-!
# From an entry to a name and back
-/

section Names

variable {raw name junk stack : Bytes} {base ext : Nat}

theorem nameFromFat_eq (junk : Bytes) (hbase : RunOf space raw 0 8 base)
    (hext : RunOf space raw 8 3 ext) :
    (forall i, i < base -> nameFromFat raw junk i = tolower (raw i)) ∧
      nameFromFat raw junk base = dot ∧
      (forall i, i < ext ->
        nameFromFat raw junk (base + 1 + i) = tolower (raw (8 + i))) ∧
      nameFromFat raw junk (base + 1 + ext) = 0 := by
  have heq : nameFromFat raw junk = Function.update
      (copied tolower raw 8 (base + 1) ext
        (Function.update (copied tolower raw 0 0 base junk) base dot))
      (base + 1 + ext) 0 := by
    unfold nameFromFat
    rw [copyUntil_eq hbase]
    dsimp only
    rw [copyUntil_eq hext]
  rw [heq]
  refine ⟨?_, ?_, ?_, ?_⟩
  · intro i hi
    rw [Function.update_of_ne (by omega), copied_out (by omega),
      Function.update_of_ne (by omega), copied_in (k := i) (by omega) hi,
      Nat.zero_add]
  · rw [Function.update_of_ne (by omega), copied_out (by omega),
      Function.update_self]
  · intro i hi
    rw [Function.update_of_ne (by omega), copied_in (k := i) rfl hi]
  · rw [Function.update_self]

/-- The entry's characters for a name: what stands before the first dot, and
what stands behind it before the next. -/
theorem nameToFat_eq (stack : Bytes) (hbase : RunOf dot name 0 8 base)
    (hext : RunOf dot name (base + 1) 3 ext) :
    (forall i, i < base -> nameToFat name stack i = toupper (name i)) ∧
      (forall i, base ≤ i -> i < 8 -> nameToFat name stack i = space) ∧
      (forall i, i < ext -> nameToFat name stack (8 + i) =
        toupper (name (base + 1 + i))) ∧
      forall i, ext ≤ i -> nameToFat name stack (8 + i) = stack (8 + i) := by
  have hle := hbase.le
  have heq : nameToFat name stack = copied toupper name (base + 1) 8 ext
      (fun i => if base ≤ i ∧ i < 8 then space
        else copied toupper name 0 0 base stack i) := by
    unfold nameToFat
    rw [copyUntil_eq hbase]
    dsimp only
    rw [copyUntil_eq hext]
  rw [heq]
  refine ⟨?_, ?_, ?_, ?_⟩
  · intro i hi
    rw [copied_out (by omega), if_neg (by omega),
      copied_in (k := i) (by omega) hi, Nat.zero_add]
  · intro i hi hi8
    rw [copied_out (by omega), if_pos ⟨hi, hi8⟩]
  · intro i hi
    rw [copied_in (k := i) rfl hi]
  · intro i hi
    rw [copied_out (by omega), if_neg (by omega), copied_out (by omega)]

end Names

/-!
# Round trips
-/

def PlainChar (c : Byte) : Prop :=
  c ≠ space ∧ c ≠ dot ∧ islower c = false

instance (c : Byte) : Decidable (PlainChar c) :=
  inferInstanceAs (Decidable (c ≠ space ∧ c ≠ dot ∧ islower c = false))

theorem tolower_eq_dot {c : Byte} : tolower c = dot <-> c = dot := by
  unfold tolower isupper dot
  split
  · next h =>
      rw [decide_eq_true_eq] at h
      bv_omega
  · rfl

theorem toupper_tolower {c : Byte} :
    toupper (tolower c) = c <-> islower c = false := by
  unfold toupper tolower isupper islower
  by_cases hupper : 0x41 ≤ c ∧ c ≤ 0x5a
  · have hlower : 0x61 ≤ c + 32 ∧ c + 32 ≤ 0x7a := by bv_omega
    have hnot : ¬ (0x61 ≤ c ∧ c ≤ 0x7a) := by bv_omega
    simp only [hupper, and_self, decide_true, if_true, hlower, hnot,
      decide_false, iff_true]
    bv_omega
  · by_cases hlower : 0x61 ≤ c ∧ c ≤ 0x7a
    · simp only [hupper, decide_false, Bool.false_eq_true, if_false, hlower,
        and_self, decide_true, if_true, Bool.true_eq_false, iff_false]
      bv_omega
    · simp only [hupper, hlower, decide_false, Bool.false_eq_true, if_false]

theorem toupper_zero_ne_space : toupper 0 ≠ space := by
  decide

/-- The eleven characters that come back from a name made of them: nothing but
plain characters and the padding of the base, and an extension of three
characters or one that the stack repeats from its dot on. -/
def KeepsName (raw stack : Bytes) : Prop :=
  (exists base, base ≤ 8 ∧ (forall i, i < base -> PlainChar (raw i)) ∧
    forall i, base ≤ i -> i < 8 -> raw i = space) ∧
  exists ext, ext ≤ 3 ∧ (forall i, i < ext -> PlainChar (raw (8 + i))) ∧
    (ext < 3 -> raw (8 + ext) = dot ∧
      forall i, ext ≤ i -> i < 3 -> raw (8 + i) = stack (8 + i))

section RoundTrip

variable {raw junk stack : Bytes} {base ext : Nat}

theorem zero_ne_dot : (0 : Byte) ≠ dot := by
  decide

theorem space_ne_dot : space ≠ dot := by
  decide

theorem plainChar_of_back {c : Byte} (hspace : c ≠ space)
    (hdot : tolower c ≠ dot) (hback : toupper (tolower c) = c) :
    PlainChar c :=
  ⟨hspace, fun h => hdot (tolower_eq_dot.mpr h), toupper_tolower.mp hback⟩

theorem PlainChar.tolower_ne_dot {c : Byte} (hc : PlainChar c) :
    tolower c ≠ dot :=
  fun h => hc.2.1 (tolower_eq_dot.mp h)

theorem nameToFat_of_keepsName (junk : Bytes) (hkeeps : KeepsName raw stack)
    {i : Nat} (hi : i < 11) : nameToFat (nameFromFat raw junk) stack i = raw i := by
  rcases hkeeps with ⟨⟨base, hle, hplain, hpad⟩, d, hd, hext, hend⟩
  have hbase : RunOf space raw 0 8 base := by
    refine ⟨hle, ?_, fun hlt => ?_⟩
    · intro k hk
      rw [Nat.zero_add]
      exact (hplain k hk).1
    · rw [Nat.zero_add]
      exact hpad base (Nat.le_refl base) hlt
  rcases exists_runOf space raw 8 3 with ⟨e, hrun⟩
  have hde : d ≤ e := by
    by_contra hlt
    exact (hext e (by omega)).1 (hrun.ends (by omega))
  have hne : d < 3 -> d < e := by
    intro hlt
    apply Nat.lt_of_le_of_ne hde
    rintro rfl
    exact space_ne_dot ((hrun.ends hlt).symm.trans (hend hlt).1)
  rcases nameFromFat_eq junk hbase hrun with
    ⟨hname, hdot, hnameext, _⟩
  have hbase' : RunOf dot (nameFromFat raw junk) 0 8 base := by
    refine ⟨hle, ?_, fun _ => ?_⟩
    · intro k hk
      rw [Nat.zero_add, hname k hk]
      exact (hplain k hk).tolower_ne_dot
    · rw [Nat.zero_add]
      exact hdot
  have hext' : RunOf dot (nameFromFat raw junk) (base + 1) 3 d := by
    refine ⟨hd, ?_, fun hlt => ?_⟩
    · intro k hk
      rw [hnameext k (by omega)]
      exact (hext k hk).tolower_ne_dot
    · rw [hnameext d (hne hlt)]
      exact tolower_eq_dot.mpr (hend hlt).1
  rcases nameToFat_eq stack hbase' hext' with
    ⟨hchars, hspaces, hextchars, hrest⟩
  by_cases hib : i < base
  · rw [hchars i hib, hname i hib]
    exact toupper_tolower.mpr (hplain i hib).2.2
  · by_cases hi8 : i < 8
    · rw [hspaces i (by omega) hi8, hpad i (by omega) hi8]
    · have hsplit : i = 8 + (i - 8) := by omega
      rw [hsplit]
      by_cases hid : i - 8 < d
      · rw [hextchars _ hid, hnameext _ (by omega)]
        exact toupper_tolower.mpr (hext _ hid).2.2
      · rw [hrest _ (by omega)]
        exact ((hend (by omega)).2 _ (by omega) (by omega)).symm

theorem keepsName_of_nameToFat (hback : forall i, i < 11 ->
    nameToFat (nameFromFat raw junk) stack i = raw i) : KeepsName raw stack := by
  rcases exists_runOf space raw 0 8 with ⟨base, hbase⟩
  rcases exists_runOf space raw 8 3 with ⟨e, hext⟩
  rcases nameFromFat_eq junk hbase hext with
    ⟨hname, hdot, hnameext, hzero⟩
  generalize nameFromFat raw junk = name at *
  rcases exists_runOf dot name 0 8 with ⟨base', hbase'⟩
  rcases exists_runOf dot name (base' + 1) 3 with ⟨d, hext'⟩
  rcases nameToFat_eq stack hbase' hext' with
    ⟨hchars, hspaces, hextchars, hrest⟩
  have hle := hbase.le
  have hnamedot : forall k, k < base' -> name k ≠ dot := by
    intro k hk
    have hbefore := hbase'.before k hk
    rwa [Nat.zero_add] at hbefore
  have hsame : base' = base := by
    rcases Nat.lt_trichotomy base' base with hlt | heq | hgt
    · have hstop : name base' = dot := by
        have hends := hbase'.ends (by omega)
        rwa [Nat.zero_add] at hends
      rw [hname base' hlt, tolower_eq_dot] at hstop
      have hspace := hspaces base' (Nat.le_refl _) (by omega)
      rw [hback base' (by omega), hstop] at hspace
      exact absurd hspace.symm space_ne_dot
    · exact heq
    · exact absurd hdot (hnamedot base hgt)
  subst hsame
  have hde : d ≤ e := by
    by_contra hlt
    have h3 := hext'.le
    have hchar := hextchars e (by omega)
    rw [hzero, hback (8 + e) (by omega), hext.ends (by omega)] at hchar
    exact toupper_zero_ne_space hchar.symm
  refine ⟨⟨base', hle, ?_, ?_⟩, d, hext'.le, ?_, ?_⟩
  · intro i hi
    have hspace := hbase.before i hi
    rw [Nat.zero_add] at hspace
    refine plainChar_of_back hspace ?_ ?_
    · rw [← hname i hi]
      exact hnamedot i hi
    · rw [← hname i hi, ← hchars i hi]
      exact hback i (by omega)
  · intro i hi hi8
    rw [← hback i (by omega)]
    exact hspaces i hi hi8
  · intro i hi
    have h3 := hext'.le
    refine plainChar_of_back (hext.before i (by omega)) ?_ ?_
    · rw [← hnameext i (by omega)]
      exact hext'.before i hi
    · rw [← hnameext i (by omega), ← hextchars i hi]
      exact hback (8 + i) (by omega)
  · intro hlt
    have hstop := hext'.ends hlt
    have hlte : d < e := by
      apply Nat.lt_of_le_of_ne hde
      rintro rfl
      exact zero_ne_dot (hzero.symm.trans hstop)
    rw [hnameext d hlte] at hstop
    refine ⟨tolower_eq_dot.mp hstop, ?_⟩
    intro i hi hi3
    rw [← hback (8 + i) (by omega)]
    exact hrest i hi

theorem nameToFat_nameFromFat_iff (raw junk stack : Bytes) :
    (forall i, i < 11 -> nameToFat (nameFromFat raw junk) stack i = raw i) <->
      KeepsName raw stack :=
  ⟨keepsName_of_nameToFat, fun hkeeps _ hi => nameToFat_of_keepsName _ hkeeps hi⟩

/-- A valid name in its form on the disk: upper case and padded with spaces. -/
structure ValidName (raw : Bytes) (base ext : Nat) : Prop where
  base_pos : 1 ≤ base
  base_le : base ≤ 8
  ext_le : ext ≤ 3
  base_chars : forall i, i < base -> PlainChar (raw i) ∧ space < raw i
  base_pad : forall i, base ≤ i -> i < 8 -> raw i = space
  ext_chars : forall i, i < ext ->
    PlainChar (raw (8 + i)) ∧ space < raw (8 + i)
  ext_pad : forall i, ext ≤ i -> i < 3 -> raw (8 + i) = space

/-- The name of a valid entry leads back to it exactly when its extension has
all three characters. -/
theorem ValidName.keepsName_iff (hraw : ValidName raw base ext)
    (stack : Bytes) : KeepsName raw stack <-> ext = 3 := by
  constructor
  · rintro ⟨_, d, hd, hplain, hend⟩
    by_contra hne
    have hlt : ext < 3 := Nat.lt_of_le_of_ne hraw.ext_le hne
    rcases Nat.lt_or_ge ext d with hin | hout
    · exact (hplain ext hin).1 (hraw.ext_pad ext (Nat.le_refl _) hlt)
    · have hdot := (hend (by omega)).1
      by_cases hde : d < ext
      · exact (hraw.ext_chars d hde).1.2.1 hdot
      · rw [hraw.ext_pad d (by omega) (by omega)] at hdot
        exact space_ne_dot hdot
  · rintro rfl
    refine ⟨⟨base, hraw.base_le, fun i hi => (hraw.base_chars i hi).1,
      hraw.base_pad⟩, 3, Nat.le_refl 3, fun i hi => (hraw.ext_chars i hi).1, ?_⟩
    intro hlt
    exact absurd hlt (Nat.lt_irrefl 3)

end RoundTrip

end Fs
end Rmmtos
