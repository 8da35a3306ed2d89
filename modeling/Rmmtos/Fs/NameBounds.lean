import Rmmtos.Fs.FatNames
import Mathlib.Data.List.GetD

/-!
# The bounds of a name

Which characters {lit}`name_to_fat` looks at, and which ones it writes.  Neither
of its loops stops at the end of the name, and nothing pads a short extension.
-/

namespace Rmmtos
namespace Fs

open Library

/-- The characters that {lit}`copyUntil` looks at, each one before the count is
compared. -/
def copyReads (stop : Byte) (src : Bytes) : Nat -> Nat -> List Nat
  | 0, i => [i]
  | limit + 1, i =>
      if src i = stop then [i] else i :: copyReads stop src limit (i + 1)

def copyWrites (stop : Byte) (src : Bytes) : Nat -> Nat -> Nat -> List Nat
  | 0, _, _ => []
  | limit + 1, i, j =>
      if src i = stop then []
      else j :: copyWrites stop src limit (i + 1) (j + 1)

def nameToFatReads (name fatName : Bytes) : List Nat :=
  let (base, _) := copyUntil dot toupper name 8 0 0 fatName
  copyReads dot name 8 0 ++ copyReads dot name 3 (base + 1)

def nameToFatWrites (name fatName : Bytes) : List Nat :=
  let (base, _) := copyUntil dot toupper name 8 0 0 fatName
  copyWrites dot name 8 0 0 ++ List.range' base (8 - base) ++
    copyWrites dot name 3 (base + 1) 8

/-!
# Runs of characters
-/

section Runs

variable {stop : Byte} {src src' : Bytes} {i j n m limit : Nat}

theorem RunOf.unique (hn : RunOf stop src i limit n) (hm : RunOf stop src i limit m) :
    n = m := by
  rcases Nat.lt_trichotomy n m with hlt | heq | hlt
  · exact absurd (hn.ends (Nat.lt_of_lt_of_le hlt hm.le)) (hm.before n hlt)
  · exact heq
  · exact absurd (hm.ends (Nat.lt_of_lt_of_le hlt hn.le)) (hn.before m hlt)

theorem RunOf.congr (h : RunOf stop src i limit n)
    (hsame : forall k, k ≤ n -> src' (i + k) = src (i + k)) :
    RunOf stop src' i limit n where
  le := h.le
  before := by
    intro k hk
    rw [hsame k (Nat.le_of_lt hk)]
    exact h.before k hk
  ends := by
    intro hlt
    rw [hsame n (Nat.le_refl n)]
    exact h.ends hlt

theorem copyReads_eq (hrun : RunOf stop src i limit n) :
    copyReads stop src limit i = List.range' i (n + 1) := by
  induction limit generalizing i n with
  | zero =>
      have hn : n = 0 := Nat.le_zero.mp hrun.le
      subst hn
      rfl
  | succ limit ih =>
      unfold copyReads
      cases n with
      | zero =>
          have hstop : src i = stop := hrun.ends (Nat.succ_pos limit)
          rw [if_pos hstop]
          rfl
      | succ n =>
          have hgo : src i ≠ stop := hrun.before 0 (Nat.succ_pos n)
          rw [if_neg hgo, ih hrun.tail]
          rfl

theorem copyWrites_eq (hrun : RunOf stop src i limit n) :
    copyWrites stop src limit i j = List.range' j n := by
  induction limit generalizing i j n with
  | zero =>
      have hn : n = 0 := Nat.le_zero.mp hrun.le
      subst hn
      rfl
  | succ limit ih =>
      unfold copyWrites
      cases n with
      | zero =>
          have hstop : src i = stop := hrun.ends (Nat.succ_pos limit)
          rw [if_pos hstop]
          rfl
      | succ n =>
          have hgo : src i ≠ stop := hrun.before 0 (Nat.succ_pos n)
          rw [if_neg hgo, ih hrun.tail]
          rfl

end Runs

section Places

variable {name name' stack stack' : Bytes} {base ext : Nat}

/-- The last character that is read is the one behind the extension. -/
theorem mem_nameToFatReads (stack : Bytes) (hbase : RunOf dot name 0 8 base)
    (hext : RunOf dot name (base + 1) 3 ext) (i : Nat) :
    i ∈ nameToFatReads name stack <-> i ≤ base + 1 + ext := by
  unfold nameToFatReads
  rw [copyUntil_eq hbase]
  dsimp only
  rw [copyReads_eq hbase, copyReads_eq hext, List.mem_append, List.mem_range'_1,
    List.mem_range'_1]
  omega

theorem mem_nameToFatWrites (stack : Bytes) (hbase : RunOf dot name 0 8 base)
    (hext : RunOf dot name (base + 1) 3 ext) (j : Nat) :
    j ∈ nameToFatWrites name stack <-> j < 8 + ext := by
  have hle := hbase.le
  unfold nameToFatWrites
  rw [copyUntil_eq hbase]
  dsimp only
  rw [copyWrites_eq hbase, copyWrites_eq hext, List.mem_append, List.mem_append,
    List.mem_range'_1, List.mem_range'_1, List.mem_range'_1]
  omega

theorem nameToFat_writes {j : Nat} (hj : j ∉ nameToFatWrites name stack) :
    nameToFat name stack j = stack j := by
  rcases exists_runOf dot name 0 8 with ⟨base, hbase⟩
  rcases exists_runOf dot name (base + 1) 3 with ⟨ext, hext⟩
  rw [mem_nameToFatWrites stack hbase hext] at hj
  rcases nameToFat_eq stack hbase hext with ⟨_, _, _, hrest⟩
  have hsplit : j = 8 + (j - 8) := by
    omega
  rw [hsplit]
  exact hrest _ (by omega)

end Places

/-!
# Names in memory
-/

/-- A name and the zero behind it. -/
structure Terminated (bytes : Bytes) (name : List Byte) : Prop where
  chars : 0 ∉ name
  bytes : forall i, i ≤ name.length -> bytes i = name.getD i 0

structure EightThree (name base ext : List Byte) : Prop where
  base_pos : 1 ≤ base.length
  base_le : base.length ≤ 8
  base_chars : dot ∉ base
  ext_le : ext.length ≤ 3
  ext_chars : dot ∉ ext
  name_eq : name = base ∧ ext = [] ∨ name = base ++ dot :: ext

/-- The two parts in upper case, each padded with spaces. -/
def fatForm (base ext : List Byte) : List Byte :=
  (base.map toupper).rightpad 8 space ++ (ext.map toupper).rightpad 3 space

/-- What a translation of the name should do, whatever is left on the stack. -/
structure Translated (bytes : Bytes) (name : List Byte) (stack : Bytes) : Prop where
  reads : forall i, i ∈ nameToFatReads bytes stack -> i ≤ name.length
  writes : forall j, j < 11 -> j ∈ nameToFatWrites bytes stack
  output : forall base ext, EightThree name base ext ->
    forall j, j < 11 -> nameToFat bytes stack j = (fatForm base ext).getD j 0

/-- Behind the first dot, or the ninth character, there are three that are no
dots. -/
def FullExtension (name : List Byte) : Prop :=
  exists base c ext rest, name = base ++ c :: (ext ++ rest) ∧ dot ∉ base ∧
    base.length ≤ 8 ∧ (base.length < 8 -> c = dot) ∧ ext.length = 3 ∧ dot ∉ ext

section Names

variable {bytes stack : Bytes} {name base ext : List Byte} {n m : Nat}

theorem not_mem_iff {c : Byte} {xs : List Byte} :
    c ∉ xs <-> forall k, k < xs.length -> xs.getD k 0 ≠ c := by
  constructor
  · intro hmem k hk heq
    rw [List.getD_eq_getElem _ _ hk] at heq
    exact hmem (heq ▸ List.getElem_mem hk)
  · intro hall hmem
    rcases List.mem_iff_getElem.mp hmem with ⟨k, hk, heq⟩
    exact hall k hk (by rw [List.getD_eq_getElem _ _ hk, heq])

theorem Terminated.piece (h : Terminated bytes name) (pre xs post : List Byte)
    (hname : name = pre ++ (xs ++ post)) {k : Nat} (hk : k < xs.length) :
    bytes (pre.length + k) = xs.getD k 0 := by
  have hlen : name.length = pre.length + (xs.length + post.length) := by
    rw [hname, List.length_append, List.length_append]
  rw [h.bytes _ (by omega), hname, List.getD_append_right _ _ _ _ (Nat.le_add_right ..),
    Nat.add_sub_cancel_left, List.getD_append _ _ _ _ hk]

theorem Terminated.base_char {rest : List Byte} (h : Terminated bytes name)
    (hname : name = base ++ rest) {k : Nat} (hk : k < base.length) :
    bytes k = base.getD k 0 := by
  have hchar : bytes (0 + k) = base.getD k 0 := h.piece [] base rest hname hk
  rw [Nat.zero_add] at hchar
  exact hchar

theorem Terminated.end_char {c : Byte} {rest : List Byte} (h : Terminated bytes name)
    (hname : name = base ++ c :: rest) : bytes base.length = c :=
  h.piece base [c] rest hname Nat.one_pos

theorem Terminated.ext_char {c : Byte} {rest : List Byte} (h : Terminated bytes name)
    (hname : name = base ++ c :: (ext ++ rest)) {k : Nat} (hk : k < ext.length) :
    bytes (base.length + 1 + k) = ext.getD k 0 := by
  have hpieces : name = (base ++ [c]) ++ (ext ++ rest) := by
    rw [hname, List.append_assoc]
    rfl
  have hchar := h.piece (base ++ [c]) ext rest hpieces hk
  rw [List.length_append] at hchar
  exact hchar

theorem Terminated.runOf_base {c : Byte} {rest : List Byte} (h : Terminated bytes name)
    (hname : name = base ++ c :: rest) (hchars : dot ∉ base) (hle : base.length ≤ 8)
    (hc : base.length < 8 -> c = dot) : RunOf dot bytes 0 8 base.length where
  le := hle
  before := by
    intro k hk
    rw [Nat.zero_add, h.base_char hname hk]
    exact not_mem_iff.mp hchars k hk
  ends := by
    intro hlt
    rw [Nat.zero_add, h.end_char hname]
    exact hc hlt

theorem Terminated.runOf_ext {c : Byte} {rest : List Byte} (h : Terminated bytes name)
    (hname : name = base ++ c :: (ext ++ rest)) (hlen : ext.length = 3)
    (hchars : dot ∉ ext) : RunOf dot bytes (base.length + 1) 3 3 where
  le := Nat.le_refl 3
  before := by
    intro k hk
    rw [← hlen] at hk
    rw [h.ext_char hname hk]
    exact not_mem_iff.mp hchars k hk
  ends := fun hlt => absurd hlt (Nat.lt_irrefl 3)

theorem exists_pieces (n m : Nat) {xs : List Byte} (hlen : n + 1 + m ≤ xs.length) :
    exists base c ext rest, xs = base ++ c :: (ext ++ rest) ∧ base.length = n ∧
      ext.length = m := by
  have hn : n < xs.length := by
    omega
  have hm : m ≤ (xs.drop (n + 1)).length := by
    rw [List.length_drop]
    omega
  refine ⟨xs.take n, xs[n], (xs.drop (n + 1)).take m, (xs.drop (n + 1)).drop m, ?_,
    List.length_take_of_le (Nat.le_of_lt hn), List.length_take_of_le hm⟩
  rw [List.take_append_drop, ← List.drop_eq_getElem_cons, List.take_append_drop]

/-- The extension is full when the second loop runs to its end inside the name. -/
theorem Terminated.fullExtension_iff (h : Terminated bytes name)
    (hbase : RunOf dot bytes 0 8 n) (hext : RunOf dot bytes (n + 1) 3 m) :
    FullExtension name <-> m = 3 ∧ n + 4 ≤ name.length := by
  constructor
  · intro hfull
    rcases hfull with ⟨base, c, ext, rest, hname, hdot, hle, hc, hlen, hedot⟩
    have hn := hbase.unique (h.runOf_base hname hdot hle hc)
    subst hn
    refine ⟨hext.unique (h.runOf_ext hname hlen hedot), ?_⟩
    rw [hname, List.length_append, List.length_cons, List.length_append, hlen]
    omega
  · intro hruns
    rcases hruns with ⟨rfl, hroom⟩
    rcases exists_pieces n 3 hroom with ⟨base, c, ext, rest, hname, rfl, hlen⟩
    refine ⟨base, c, ext, rest, hname, ?_, hbase.le, ?_, hlen, ?_⟩
    · apply not_mem_iff.mpr
      intro k hk
      have hchar := hbase.before k hk
      rw [Nat.zero_add, h.base_char hname hk] at hchar
      exact hchar
    · intro hlt
      have hends := hbase.ends hlt
      rw [Nat.zero_add, h.end_char hname] at hends
      exact hends
    · apply not_mem_iff.mpr
      intro k hk
      rw [← h.ext_char hname hk]
      rw [hlen] at hk
      exact hext.before k hk

theorem getD_rightpad {xs : List Byte} {k size : Nat} {c : Byte} (hk : k < size) :
    (xs.rightpad size c).getD k 0 = if k < xs.length then xs.getD k 0 else c := by
  unfold List.rightpad
  split
  · rename_i hin
    exact List.getD_append _ _ _ _ hin
  · rename_i hout
    rw [List.getD_append_right _ _ _ _ (Nat.le_of_not_lt hout),
      List.getD_replicate _ (by omega)]

theorem length_fatBase (hle : base.length ≤ 8) :
    ((base.map toupper).rightpad 8 space).length = 8 := by
  rw [List.length_rightpad, List.length_map]
  exact Nat.max_eq_left hle

theorem fatForm_base (hle : base.length ≤ 8) {j : Nat} (hj : j < 8) :
    (fatForm base ext).getD j 0 =
      if j < base.length then toupper (base.getD j 0) else space := by
  unfold fatForm
  rw [List.getD_append _ _ _ _ (by rw [length_fatBase hle]; exact hj), getD_rightpad hj, List.length_map]
  congr 1
  exact List.getD_map base 0 toupper

theorem fatForm_ext (hle : base.length ≤ 8) {k : Nat} (hk : k < 3) :
    (fatForm base ext).getD (8 + k) 0 =
      if k < ext.length then toupper (ext.getD k 0) else space := by
  have hlen := length_fatBase hle
  unfold fatForm
  rw [List.getD_append_right _ _ _ _ (by omega), hlen, Nat.add_sub_cancel_left,
    getD_rightpad hk, List.length_map]
  congr 1
  exact List.getD_map ext 0 toupper

theorem Terminated.dotted (h : Terminated bytes name) (hbase : RunOf dot bytes 0 8 n)
    (hroom : n + 4 ≤ name.length) (hname : EightThree name base ext) :
    name = base ++ dot :: ext := by
  rcases hname.name_eq with ⟨rfl, _⟩ | hdotted
  · have hle := hname.base_le
    have hends := hbase.ends (by omega)
    rw [Nat.zero_add, h.base_char (List.append_nil name).symm (by omega)] at hends
    exact absurd hends (not_mem_iff.mp hname.base_chars n (by omega))
  · exact hdotted

theorem Terminated.output (h : Terminated bytes name) (hbase : RunOf dot bytes 0 8 n)
    (hext : RunOf dot bytes (n + 1) 3 3) (hroom : n + 4 ≤ name.length)
    (hname : EightThree name base ext) {j : Nat} (hj : j < 11) :
    nameToFat bytes stack j = (fatForm base ext).getD j 0 := by
  have hdotted := h.dotted hbase hroom hname
  have hn := hbase.unique (h.runOf_base hdotted hname.base_chars hname.base_le
    fun _ => rfl)
  subst hn
  have hlen : ext.length = 3 := by
    have hle := hname.ext_le
    rw [hdotted, List.length_append, List.length_cons] at hroom
    omega
  rcases nameToFat_eq stack hbase hext with ⟨hchars, hpad, hextchars, _⟩
  rcases Nat.lt_or_ge j 8 with hj8 | hj8
  · rw [fatForm_base hname.base_le hj8]
    split
    · rename_i hin
      rw [hchars j hin, h.base_char hdotted hin]
    · rename_i hout
      exact hpad j (Nat.le_of_not_lt hout) hj8
  · rcases Nat.exists_eq_add_of_le hj8 with ⟨k, rfl⟩
    have hk : k < 3 := by
      omega
    rw [← List.append_nil ext] at hdotted
    rw [fatForm_ext hname.base_le hk, if_pos (hlen ▸ hk), hextchars k hk,
      h.ext_char hdotted (hlen ▸ hk)]

/-- A name is translated as it should be, on reads and writes inside the bounds,
exactly when its extension is full. -/
theorem nameToFat_translated_iff (h : Terminated bytes name) (stack : Bytes) :
    Translated bytes name stack <-> FullExtension name := by
  rcases exists_runOf dot bytes 0 8 with ⟨n, hbase⟩
  rcases exists_runOf dot bytes (n + 1) 3 with ⟨m, hext⟩
  rw [h.fullExtension_iff hbase hext]
  constructor
  · intro htrans
    have hwrite := htrans.writes 10 (by decide)
    rw [mem_nameToFatWrites stack hbase hext] at hwrite
    have hm : m = 3 := by
      have hle := hext.le
      omega
    have hread := htrans.reads (n + 1 + m)
      ((mem_nameToFatReads stack hbase hext _).mpr (Nat.le_refl _))
    exact ⟨hm, by omega⟩
  · intro hruns
    rcases hruns with ⟨rfl, hroom⟩
    constructor
    · intro i hi
      rw [mem_nameToFatReads stack hbase hext] at hi
      omega
    · intro j hj
      rw [mem_nameToFatWrites stack hbase hext]
      exact hj
    · intro base ext hname j hj
      exact h.output hbase hext hroom hname hj

end Names

def inMemory (name : List Byte) : Bytes := fun i => name.getD i 0

theorem inMemory_terminated {name : List Byte} (h0 : 0 ∉ name) :
    Terminated (inMemory name) name :=
  ⟨h0, fun _ _ => rfl⟩

/-- {lit}`"a.txt"`. -/
theorem nameToFat_translated_text :
    Translated (inMemory [0x61, 0x2e, 0x74, 0x78, 0x74])
      [0x61, 0x2e, 0x74, 0x78, 0x74] (fun _ => 0) :=
  (nameToFat_translated_iff (inMemory_terminated (by decide)) _).mpr
    ⟨[0x61], 0x2e, [0x74, 0x78, 0x74], [], rfl, by decide, by decide, fun _ => rfl, rfl,
      by decide⟩

/-- {lit}`"a"`: the base loop goes on behind the end of the name. -/
theorem nameToFat_overrun :
    ¬ forall (bytes : Bytes) (name : List Byte) (stack : Bytes), Terminated bytes name ->
      Translated bytes name stack := by
  intro hall
  have htrans := hall (inMemory [0x61]) [0x61] (fun _ => 0)
    (inMemory_terminated (by decide))
  have hread : 8 ∈ nameToFatReads (inMemory [0x61]) fun _ => 0 := by
    decide
  exact absurd (htrans.reads 8 hread) (by decide)

end Fs
end Rmmtos
