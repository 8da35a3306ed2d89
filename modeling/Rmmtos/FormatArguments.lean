import Rmmtos.Format

/-!
# Arguments of a format

{lit}`va_arg` with the type {lit}`char` leaves the second byte of an argument behind.
Whatever is printed then finds its argument where all later ones are looked for: as
many bytes before it as there have been characters.
-/

namespace Rmmtos

open Library
open Init (UserMem readw HoldsString stringAt)

/-- The addresses at which the condition of the loop and a turn read the format. -/
def formatReads {σ : Type} (m : UserMem) (x : Printing σ) : List Word :=
  if m x.fmt = 0x25 then [x.fmt, x.fmt + 1] else [x.fmt]

def PrintsFormat (m : UserMem) (fmt list : Word) (cs : List Byte) : Prop :=
  forall {σ : Type} (putch : σ -> Byte -> σ) (s : σ),
    vprintf putch m fmt list s =
      .ok ((formatText m Piece.slot (pieces cs) list).foldl putch s)

/-- The call returns, all text that it has printed is right at every turn, and the
format is read up to its terminating zero only. -/
structure VprintfRight (m : UserMem) (fmt list : Word) (cs : List Byte) : Prop where
  prints : PrintsFormat m fmt list cs
  inOrder : forall {σ : Type} {putch : σ -> Byte -> σ} {s : σ} {xs : List (Printing σ)}
    {t : Printing σ}, Turns (vprintfGoes m) (vprintfTurn putch m) ⟨s, fmt, list⟩ xs t ->
      t.out = (formatText m Piece.slot ((pieces cs).take xs.length) list).foldl putch s
  inside : forall {σ : Type} {putch : σ -> Byte -> σ} {s : σ} {xs : List (Printing σ)}
    {t : Printing σ}, Turns (vprintfGoes m) (vprintfTurn putch m) ⟨s, fmt, list⟩ xs t ->
      forall a, a ∈ formatReads m t -> exists i, i ≤ cs.length ∧ a = offsetFrom fmt i

def Piece.SameArgument (m : UserMem) (a a' : Word) : Piece -> Prop
  | .number _ => readw m a = readw m a'
  | .string => stringAt m (readw m a) = stringAt m (readw m a')
  | .char => m a = m a'
  | .literal _ | .nothing => True

def Piece.isChar : Piece -> Bool
  | .char => true
  | .literal _ | .number _ | .string | .nothing => false

def argCount (ds : List Piece) : Nat :=
  ds.countP Piece.takes

def charCount (ds : List Piece) : Nat :=
  ds.countP Piece.isChar

/-- Each conversion finds its own argument as many bytes before it as there are
characters among the arguments before. -/
def FindsArguments (m : UserMem) (list : Word) (cs : List Byte) : Prop :=
  forall ds d ds', pieces cs = ds ++ d :: ds' ->
    d.SameArgument m (offsetFrom list (2 * argCount ds - charCount ds))
      (offsetFrom list (2 * argCount ds))

/-- No conversion that has an argument stands behind one for a character. -/
def NoArgumentBehindChar (cs : List Byte) : Prop :=
  forall ds d ds', pieces cs = ds ++ d :: ds' -> d.takes = true -> charCount ds = 0

def FormatFits (cs : List Byte) : Prop :=
  cs.length + 1 + 2 * argCount (pieces cs) ≤ wordCount

/-!
# Where the arguments are found
-/

section Arguments

variable {m : UserMem} {fmt list a a' : Word} {cs : List Byte} {ds : List Piece}

theorem sameArgument_iff (m : UserMem) (a a' : Word) (d : Piece) :
    d.text m a = d.text m a' <-> d.SameArgument m a a' := by
  cases d with
  | literal c => exact iff_of_true rfl trivial
  | number f =>
      constructor
      · intro h
        exact BitVec.eq_of_toNat_eq (paddedText_inj f.two_le f.le_sixteen f.fill h)
      · intro h
        exact congrArg (fun w : Word => paddedText f.base f.totalnums f.fillchar w.toNat) h
  | string => exact Iff.rfl
  | char => exact List.singleton_inj
  | nothing => exact iff_of_true rfl trivial

theorem argBytes_slot (ds : List Piece) : argBytes Piece.slot ds = 2 * argCount ds := by
  induction ds with
  | nil => rfl
  | cons d ds ih =>
      rw [argBytes_cons, ih]
      unfold argCount Piece.slot
      rw [List.countP_cons]
      split
      · omega
      · omega

/-- A character is a byte short of its argument. -/
theorem argBytes_step (ds : List Piece) :
    argBytes Piece.step ds + charCount ds = 2 * argCount ds := by
  induction ds with
  | nil => rfl
  | cons d ds ih =>
      unfold argCount charCount at *
      rw [argBytes_cons, List.countP_cons, List.countP_cons]
      cases d with
      | literal c | nothing =>
          change 0 + _ + (_ + 0) = 2 * (_ + 0)
          omega
      | number f | string =>
          change 2 + _ + (_ + 0) = 2 * (_ + 1)
          omega
      | char =>
          change 1 + _ + (_ + 1) = 2 * (_ + 1)
          omega

theorem formatText_same_iff (m : UserMem) (size size' : Piece -> Nat) (ds : List Piece)
    (list : Word) :
    (forall n, n ≤ ds.length ->
      formatText m size (ds.take n) list = formatText m size' (ds.take n) list) <->
    forall before d behind, ds = before ++ d :: behind ->
      d.text m (offsetFrom list (argBytes size before)) =
        d.text m (offsetFrom list (argBytes size' before)) := by
  constructor
  · intro hall before d behind hsplit
    have hlength : ds.length = before.length + (behind.length + 1) := by
      rw [hsplit, List.length_append, List.length_cons]
    have hfirst : ds.take before.length = before := by
      rw [hsplit, List.take_left]
    have hone : ds.take (before.length + 1) = before ++ [d] := by
      rw [hsplit, List.take_length_add_append]
      rfl
    have hshort := hall before.length (by omega)
    have hlong := hall (before.length + 1) (by omega)
    rw [hfirst] at hshort
    rw [hone, formatText_snoc, formatText_snoc, hshort] at hlong
    exact List.append_cancel_left hlong
  · intro hall n
    induction n with
    | zero =>
        intro _
        rfl
    | succ n ih =>
        intro hn
        have hsplit : ds = ds.take n ++ ds[n] :: ds.drop (n + 1) := by
          rw [← List.drop_eq_getElem_cons, List.take_append_drop]
        rw [← List.take_append_getElem hn, formatText_snoc, formatText_snoc,
          ih (Nat.le_of_succ_le hn), hall _ _ _ hsplit]

theorem text_own {d : Piece} (h : d.takes = true -> charCount ds = 0) :
    d.text m (offsetFrom list (argBytes Piece.step ds)) =
      d.text m (offsetFrom list (argBytes Piece.slot ds)) := by
  cases htakes : d.takes with
  | false =>
      cases d with
      | literal c | nothing => rfl
      | number f | string | char => cases htakes
  | true =>
      have hstep := argBytes_step ds
      rw [h htakes, Nat.add_zero] at hstep
      rw [hstep, argBytes_slot]

theorem findsArguments_iff :
    FindsArguments m list cs <->
      forall n, n ≤ (pieces cs).length ->
        formatText m Piece.step ((pieces cs).take n) list =
          formatText m Piece.slot ((pieces cs).take n) list := by
  rw [formatText_same_iff]
  unfold FindsArguments
  refine forall_congr' fun before => forall_congr' fun d => forall_congr' fun behind =>
    imp_congr_right fun _ => ?_
  have hstep : argBytes Piece.step before = 2 * argCount before - charCount before :=
    Nat.eq_sub_of_add_eq (argBytes_step before)
  rw [hstep, argBytes_slot]
  exact (sameArgument_iff m _ _ d).symm

theorem formatReads_inside {σ : Type} {putch : σ -> Byte -> σ} {x t : Printing σ}
    {xs : List (Printing σ)} (hfmt : HoldsString m x.fmt cs)
    (h : Turns (vprintfGoes m) (vprintfTurn putch m) x xs t) (ha : a ∈ formatReads m t) :
    exists i, i ≤ cs.length ∧ a = offsetFrom x.fmt i := by
  rcases (turns_followed h hfmt).behind with ⟨cs', i, hheld, hplace, hlength, _⟩
  unfold formatReads at ha
  split at ha
  · next hpercent =>
      cases cs' with
      | nil =>
          rw [hheld.empty] at hpercent
          cases hpercent
      | cons c cs' =>
          rw [List.length_cons] at hlength
          rcases List.mem_cons.mp ha with heq | hmem
          · exact ⟨i, by omega, heq.trans hplace⟩
          · refine ⟨i + 1, by omega, (List.mem_singleton.mp hmem).trans ?_⟩
            rw [hplace]
            exact offsetFrom_offsetFrom x.fmt i 1
  · exact ⟨i, by omega, (List.mem_singleton.mp ha).trans hplace⟩

theorem right_iff_finds (hfmt : HoldsString m fmt cs) :
    VprintfRight m fmt list cs <-> FindsArguments m list cs := by
  rw [findsArguments_iff]
  constructor
  · intro hright n hn
    rcases exists_turns collect (x := ⟨[], fmt, list⟩) hfmt hn with
      ⟨xs, t, hturns, hlength⟩
    have hout := (turns_followed hturns hfmt).out
    have hspec := hright.inOrder hturns
    rw [hlength, foldl_collect, List.nil_append] at hout hspec
    exact hout.symm.trans hspec
  · intro hsame
    constructor
    · intro σ putch s
      have hwhole := hsame _ (Nat.le_refl _)
      rw [List.take_length] at hwhole
      rw [vprintf_eq hfmt, hwhole]
    · intro σ putch s xs t hturns
      have hrun := turns_followed hturns hfmt
      rw [hrun.out, hsame _ hrun.count]
    · intro σ putch s xs t hturns a ha
      exact formatReads_inside (x := ⟨s, fmt, list⟩) hfmt hturns ha

theorem findsArguments_of_none (h : NoArgumentBehindChar cs) (m : UserMem) (list : Word) :
    FindsArguments m list cs := by
  rw [findsArguments_iff, formatText_same_iff]
  exact fun before d behind hsplit => text_own (h before d behind hsplit)

end Arguments

/-!
# Formats that go wrong

The arguments of a format are all zero but for the second byte of a character.  The
next conversion with an argument finds this byte.
-/

section Clash

variable {m : UserMem} {list : Word} {cs : List Byte} {ds : List Piece} {p i : Nat}

theorem argCount_append (ds ds' : List Piece) :
    argCount (ds ++ ds') = argCount ds + argCount ds' :=
  List.countP_append

theorem argCount_cons (d : Piece) (ds : List Piece) :
    argCount (d :: ds) = (if d.takes then 1 else 0) + argCount ds := by
  unfold argCount
  rw [List.countP_cons, Nat.add_comm]

def Piece.zeroText (m : UserMem) : Piece -> List Byte
  | .literal c => [c]
  | .number f => paddedText f.base f.totalnums f.fillchar 0
  | .string => stringAt m 0
  | .char => [0]
  | .nothing => []

theorem readw_zero {a : Word} (hlow : m a = 0) (hhigh : m (a + 1) = 0) : readw m a = 0 := by
  unfold readw
  rw [hlow, hhigh]
  rfl

theorem formatText_zero {size : Piece -> Nat} (hsize : forall d, size d ≤ d.slot)
    {last : Nat} {a : Nat}
    (hzero : forall i, a ≤ i -> i < last -> m (offsetFrom list i) = 0)
    (hlast : a + 2 * argCount ds ≤ last) :
    formatText m size ds (offsetFrom list a) = ds.flatMap (Piece.zeroText m) := by
  induction ds generalizing a with
  | nil => rfl
  | cons d ds ih =>
      rw [argCount_cons] at hlast
      have hslot : size d ≤ 2 * if d.takes then 1 else 0 := by
        refine Nat.le_trans (hsize d) ?_
        unfold Piece.slot
        split
        · exact Nat.le_refl 2
        · exact Nat.le_refl 0
      have hrest : formatText m size ds (offsetFrom list (a + size d)) =
          ds.flatMap (Piece.zeroText m) :=
        ih (fun i hi => hzero i (Nat.le_trans (Nat.le_add_right _ _) hi)) (by omega)
      rw [formatText, List.flatMap_cons, offsetFrom_offsetFrom, hrest]
      congr 1
      have hlow : d.takes = true -> m (offsetFrom list a) = 0 := by
        intro htakes
        rw [if_pos htakes] at hlast
        exact hzero a (Nat.le_refl a) (by omega)
      have hword : d.takes = true -> readw m (offsetFrom list a) = 0 := by
        intro htakes
        have hnext : offsetFrom list a + 1 = offsetFrom list (a + 1) :=
          (offsetFrom_add list a 1).symm
        refine readw_zero (hlow htakes) ?_
        rw [if_pos htakes] at hlast
        rw [hnext]
        exact hzero (a + 1) (Nat.le_succ a) (by omega)
      cases d with
      | literal c | nothing => rfl
      | number f =>
          unfold Piece.text Piece.zeroText
          rw [hword rfl]
          rfl
      | string =>
          unfold Piece.text Piece.zeroText
          rw [hword rfl]
      | char =>
          unfold Piece.text Piece.zeroText
          rw [hlow rfl]

theorem eq_char {d : Piece} (h : d.isChar = true) : d = .char := by
  cases d with
  | char => rfl
  | literal c | number f | string | nothing => cases h

/-- The first character of a format and the next conversion with an argument. -/
structure Clash (all ds ds' : List Piece) (d : Piece) (ds'' : List Piece) : Prop where
  split : all = (ds ++ .char :: ds') ++ d :: ds''
  first : charCount ds = 0
  next : argCount ds' = 0
  takes : d.takes = true

theorem exists_first {kind : Piece -> Bool} {all : List Piece} {d : Piece} (hd : d ∈ all)
    (hkind : kind d = true) :
    exists ds d' ds', all = ds ++ d' :: ds' ∧ kind d' = true ∧ ds.countP kind = 0 := by
  have hfound : exists d', all.find? kind = some d' := by
    rw [← Option.isSome_iff_exists, List.find?_isSome]
    exact ⟨d, hd, hkind⟩
  rcases hfound with ⟨d', hfind⟩
  rcases List.find?_eq_some_iff_append.mp hfind with ⟨hd', ds, ds', hsplit, hnone⟩
  refine ⟨ds, d', ds', hsplit, hd', List.countP_eq_zero.mpr fun x hx => ?_⟩
  simpa using hnone x hx

theorem exists_clash {all before behind : List Piece} {d : Piece}
    (hsplit : all = before ++ d :: behind) (htakes : d.takes = true)
    (hchar : charCount before ≠ 0) : exists ds ds' d' ds'', Clash all ds ds' d' ds'' := by
  rcases List.countP_pos_iff.mp (Nat.pos_of_ne_zero hchar) with ⟨x, hx, hxchar⟩
  rcases exists_first hx hxchar with ⟨ds, c, rest, hbefore, hc, hfirst⟩
  have hmem : d ∈ rest ++ d :: behind := List.mem_append_right _ List.mem_cons_self
  rcases exists_first hmem htakes with ⟨ds', d', ds'', hrest, hd', hnext⟩
  refine ⟨ds, ds', d', ds'', ?_, hfirst, hnext, hd'⟩
  rw [hsplit, hbefore, eq_char hc, List.append_assoc, List.cons_append, hrest,
    List.append_assoc, List.cons_append]

section Places

variable {all ds' ds'' : List Piece} {d : Piece}

theorem Clash.count (h : Clash all ds ds' d ds'') :
    argCount all = argCount ds + 2 + argCount ds'' := by
  rw [h.split, argCount_append, argCount_append, argCount_cons, argCount_cons, h.next,
    h.takes]
  change argCount ds + (1 + 0) + (1 + argCount ds'') = _
  omega

/-- The conversion looks a byte before its argument. -/
theorem Clash.step (h : Clash all ds ds' d ds'') :
    argBytes Piece.step (ds ++ .char :: ds') = 2 * argCount ds + 1 := by
  have hbefore := argBytes_step ds
  have hbetween := argBytes_step ds'
  rw [h.first] at hbefore
  rw [h.next] at hbetween
  rw [argBytes_append, argBytes_cons]
  change _ + (1 + _) = _
  omega

theorem Clash.slot (h : Clash all ds ds' d ds'') :
    argBytes Piece.slot (ds ++ .char :: ds') = 2 * argCount ds + 2 := by
  rw [argBytes_slot, argCount_append, argCount_cons, h.next]
  change 2 * (argCount ds + (1 + 0)) = _
  omega

theorem Clash.before (h : Clash all ds ds' d ds'') :
    formatText m Piece.step (ds ++ .char :: ds') list =
      formatText m Piece.slot (ds ++ .char :: ds') list := by
  have hnone : forall before d behind, ds ++ .char :: ds' = before ++ d :: behind ->
      d.takes = true -> charCount before = 0 := by
    intro before d behind hsplit htakes
    have hfirst := h.first
    rcases List.append_eq_append_iff.mp hsplit with ⟨rest, hbefore, hrest⟩ | ⟨rest, hds, _⟩
    · cases rest with
      | nil =>
          rw [hbefore, List.append_nil]
          exact hfirst
      | cons x rest =>
          rw [List.cons_append] at hrest
          cases hrest
          have hmem : d ∈ rest ++ d :: behind :=
            List.mem_append_right _ List.mem_cons_self
          exact absurd htakes (List.countP_eq_zero.mp h.next d hmem)
    · rw [hds] at hfirst
      exact List.countP_eq_zero.mpr fun x hx =>
        List.countP_eq_zero.mp hfirst x (List.mem_append_left _ hx)
  have hsame := (formatText_same_iff m Piece.step Piece.slot (ds ++ .char :: ds') list).mpr
    fun before d behind hsplit => text_own (hnone before d behind hsplit)
  have hwhole := hsame _ (Nat.le_refl _)
  rw [List.take_length] at hwhole
  exact hwhole

end Places

/-- The address of arguments whose last byte is at address zero. -/
def lowList (cs : List Byte) : Word :=
  BitVec.ofNat 16 (wordCount + 1 - 2 * argCount (pieces cs))

/-- A memory with the format at address one, and the second byte of an argument. -/
def clashMem (cs : List Byte) (p : Nat) : UserMem := fun a =>
  if 1 ≤ a.toNat ∧ a.toNat ≤ cs.length then cs.getD (a.toNat - 1) 0
  else if a = offsetFrom (lowList cs) (2 * p + 1) then 1
  else 0

theorem lowList_toNat (hfit : FormatFits cs) (hi : i < 2 * argCount (pieces cs)) :
    (offsetFrom (lowList cs) i).toNat = 0 ∨
      cs.length + 1 < (offsetFrom (lowList cs) i).toNat := by
  unfold FormatFits wordCount at hfit
  unfold offsetFrom lowList wordCount
  rw [BitVec.toNat_add, BitVec.toNat_ofNat, BitVec.toNat_ofNat]
  omega

theorem lowList_last (hfit : FormatFits cs) (hpos : 0 < argCount (pieces cs)) :
    offsetFrom (lowList cs) (2 * argCount (pieces cs) - 1) = 0 := by
  apply BitVec.eq_of_toNat_eq
  unfold FormatFits wordCount at hfit
  unfold offsetFrom lowList wordCount
  rw [BitVec.toNat_add, BitVec.toNat_ofNat, BitVec.toNat_ofNat]
  change _ = 0
  omega

theorem clashMem_arg (hfit : FormatFits cs) (hi : i < 2 * argCount (pieces cs)) :
    clashMem cs p (offsetFrom (lowList cs) i) =
      if offsetFrom (lowList cs) i = offsetFrom (lowList cs) (2 * p + 1) then 1 else 0 := by
  have hplace := lowList_toNat hfit hi
  unfold clashMem
  rw [if_neg (by omega)]

theorem clashMem_quiet (hfit : FormatFits cs) (hi : i < 2 * argCount (pieces cs))
    (hp : 2 * p + 1 < 2 * argCount (pieces cs)) (hne : i ≠ 2 * p + 1) :
    clashMem cs p (offsetFrom (lowList cs) i) = 0 := by
  unfold FormatFits at hfit
  rw [clashMem_arg hfit hi, if_neg]
  exact fun heq => hne (offsetFrom_injective (by omega) (by omega) heq)

theorem clashMem_one (hfit : FormatFits cs) (hp : 2 * p + 1 < 2 * argCount (pieces cs)) :
    clashMem cs p (offsetFrom (lowList cs) (2 * p + 1)) = 1 := by
  rw [clashMem_arg hfit hp, if_pos rfl]

theorem clashMem_format (hfit : FormatFits cs) (hnonzero : 0 ∉ cs)
    (hp : 2 * p + 1 < 2 * argCount (pieces cs)) : HoldsString (clashMem cs p) 1 cs := by
  have hshort : cs.length + 1 < wordCount := by
    unfold FormatFits at hfit
    omega
  have hplace : forall i, i ≤ cs.length -> (offsetFrom 1 i).toNat = 1 + i :=
    fun i hi => offsetFrom_toNat (by change 1 + i < wordCount; omega)
  refine ⟨?_, ?_, hnonzero, Nat.lt_of_succ_lt hshort⟩
  · intro i hi
    unfold clashMem
    rw [hplace i (Nat.le_of_lt hi), if_pos (by omega), Nat.add_sub_cancel_left]
  · unfold clashMem
    rw [hplace _ (Nat.le_refl _), if_neg (by omega), if_neg]
    intro heq
    have hlow := lowList_toNat hfit hp
    rw [← heq, hplace _ (Nat.le_refl _)] at hlow
    omega

theorem clash_text {d : Piece} (hfit : FormatFits cs) (hnonzero : 0 ∉ cs) (hcs : cs ≠ [])
    (hp : 2 * p + 3 < 2 * argCount (pieces cs)) (htakes : d.takes = true) :
    d.text (clashMem cs p) (offsetFrom (lowList cs) (2 * p + 1)) ≠
      d.text (clashMem cs p) (offsetFrom (lowList cs) (2 * p + 2)) := by
  have hone : clashMem cs p (offsetFrom (lowList cs) (2 * p + 1)) = 1 :=
    clashMem_one hfit (by omega)
  have hbehind : forall i, 2 * p + 1 < i -> i < 2 * p + 4 ->
      clashMem cs p (offsetFrom (lowList cs) i) = 0 :=
    fun i hi hi' => clashMem_quiet hfit (by omega) (by omega) (by omega)
  have hnext : forall i, offsetFrom (lowList cs) i + 1 = offsetFrom (lowList cs) (i + 1) :=
    fun i => (offsetFrom_add (lowList cs) i 1).symm
  have hwrong : readw (clashMem cs p) (offsetFrom (lowList cs) (2 * p + 1)) = 1 := by
    unfold readw
    rw [hnext, hone, hbehind _ (by omega) (by omega)]
    rfl
  have hright : readw (clashMem cs p) (offsetFrom (lowList cs) (2 * p + 2)) = 0 := by
    refine readw_zero (hbehind _ (by omega) (by omega)) ?_
    rw [hnext]
    exact hbehind _ (by omega) (by omega)
  rw [ne_eq, sameArgument_iff]
  cases d with
  | literal c | nothing => cases htakes
  | number f =>
      intro hsame
      have hword := (hwrong.symm.trans hsame).trans hright
      exact absurd hword (by decide)
  | string =>
      intro hsame
      have hzero : clashMem cs p 0 = 0 := by
        rw [← lowList_last hfit (by omega)]
        exact clashMem_quiet hfit (by omega) (by omega) (by omega)
      have hempty : HoldsString (clashMem cs p) 0 [] :=
        ⟨fun i hi => absurd hi (Nat.not_lt_zero i), hzero, List.not_mem_nil, by decide⟩
      unfold Piece.SameArgument at hsame
      rw [hwrong, hright, hempty.stringAt,
        (clashMem_format hfit hnonzero (by omega)).stringAt] at hsame
      exact hcs hsame
  | char =>
      intro hsame
      have hbyte := (hone.symm.trans hsame).trans (hbehind _ (by omega) (by omega))
      exact absurd hbyte (by decide)

theorem step_le_slot (d : Piece) : d.step ≤ d.slot := by
  cases d with
  | literal c | nothing => exact Nat.le_refl 0
  | number f | string => exact Nat.le_refl 2
  | char => exact Nat.le_succ 1

/-- Behind the clash all arguments are zero. -/
theorem clash_behind {size : Piece -> Nat} (hsize : forall d, size d ≤ d.slot)
    (hfit : FormatFits cs) {a : Nat} (ha : 2 * p + 1 < a)
    (hlast : a + 2 * argCount ds ≤ 2 * argCount (pieces cs)) :
    formatText (clashMem cs p) size ds (offsetFrom (lowList cs) a) =
      ds.flatMap (Piece.zeroText (clashMem cs p)) :=
  formatText_zero hsize (fun _ hi hi' =>
    clashMem_quiet hfit hi' (by omega) (by omega)) hlast

/-- With a clash there are arguments for which the text is wrong. -/
theorem Clash.wrong {ds' ds'' : List Piece} {d : Piece} (h : Clash (pieces cs) ds ds' d ds'')
    (hfit : FormatFits cs) (hnonzero : 0 ∉ cs) (hcs : cs ≠ []) :
    formatText (clashMem cs (argCount ds)) Piece.step (pieces cs) (lowList cs) ≠
      formatText (clashMem cs (argCount ds)) Piece.slot (pieces cs) (lowList cs) := by
  have hcount := h.count
  have hstep : 0 < d.step := by
    have htakes := h.takes
    cases d with
    | literal c | nothing => cases htakes
    | number f | string | char => exact Nat.succ_pos _
  have hslot : d.slot = 2 := if_pos h.takes
  have hle := step_le_slot d
  intro htext
  rw [h.split, formatText_append _ _ (ds ++ .char :: ds'),
    formatText_append _ _ (ds ++ .char :: ds'), h.before, h.step, h.slot] at htext
  have hrest := List.append_cancel_left htext
  rw [formatText, formatText, offsetFrom_offsetFrom, offsetFrom_offsetFrom,
    clash_behind step_le_slot hfit (by omega) (by omega),
    clash_behind (fun d => Nat.le_refl d.slot) hfit (by omega) (by omega)] at hrest
  exact clash_text hfit hnonzero hcs (by omega) h.takes (List.append_cancel_right hrest)

/-- Exactly the formats without a conversion behind one for a character are printed
right with all arguments. -/
theorem prints_all_iff (hnonzero : 0 ∉ cs) (hfit : FormatFits cs) :
    (forall m fmt list, HoldsString m fmt cs -> PrintsFormat m fmt list cs) <->
      NoArgumentBehindChar cs := by
  constructor
  · intro hall before d behind hsplit htakes
    by_contra hchar
    rcases exists_clash hsplit htakes hchar with ⟨ds, ds', d', ds'', hclash⟩
    have hcs : cs ≠ [] := by
      intro hnil
      rw [hnil] at hsplit
      exact List.append_ne_nil_of_right_ne_nil _ (List.cons_ne_nil _ _) hsplit.symm
    have hcount := hclash.count
    have hfmt : HoldsString (clashMem cs (argCount ds)) 1 cs :=
      clashMem_format hfit hnonzero (by omega)
    have hprints := hall _ 1 (lowList cs) hfmt collect []
    rw [vprintf_eq hfmt, foldl_collect, foldl_collect] at hprints
    exact hclash.wrong hfit hnonzero hcs (Except.ok.inj hprints)
  · intro hnone m fmt list hfmt
    exact ((right_iff_finds hfmt).mpr (findsArguments_of_none hnone m list)).prints

end Clash

/-- Every format is read up to its end and printed, and exactly when all conversions find
their arguments the text is right at every turn.  With any arguments it is right exactly
when no conversion with an argument stands behind one for a character. -/
theorem vprintf_right_iff {m : UserMem} {fmt : Word} {cs : List Byte}
    (hfmt : HoldsString m fmt cs) (list : Word) :
    (VprintfRight m fmt list cs <-> FindsArguments m list cs) ∧
      (forall {σ : Type} (putch : σ -> Byte -> σ) (s : σ),
        (exists s', vprintf putch m fmt list s = .ok s') ∧
          forall xs t, Turns (vprintfGoes m) (vprintfTurn putch m) ⟨s, fmt, list⟩ xs t ->
            forall a, a ∈ formatReads m t ->
              exists i, i ≤ cs.length ∧ a = offsetFrom fmt i) ∧
      (FormatFits cs ->
        ((forall m fmt list, HoldsString m fmt cs -> PrintsFormat m fmt list cs) <->
          NoArgumentBehindChar cs)) := by
  refine ⟨right_iff_finds hfmt, ?_, prints_all_iff hfmt.nonzero⟩
  intro σ putch s
  constructor
  · exact ⟨_, vprintf_eq hfmt list s⟩
  · intro xs t hturns a ha
    exact formatReads_inside (x := ⟨s, fmt, list⟩) hfmt hturns ha

def decimalMem : UserMem := fun a =>
  if a = 1 then 0x25 else if a = 2 then 0x64 else if a = 0x100 then 42 else 0

theorem vprintf_right_decimal :
    vprintf collect decimalMem 1 0x100 [] = .ok [0x34, 0x32] := by
  have hfmt : HoldsString decimalMem 1 [0x25, 0x64] :=
    ⟨by decide, by decide, by decide, by decide⟩
  have hnone : NoArgumentBehindChar [0x25, 0x64] := by
    intro before d behind hsplit _
    cases before with
    | nil => rfl
    | cons x before =>
        have hlength := congrArg List.length hsplit
        rw [List.length_append, List.length_cons, List.length_cons] at hlength
        change 1 = _ at hlength
        omega
  exact ((vprintf_right_iff hfmt 0x100).1.mpr
    (findsArguments_of_none hnone decimalMem 0x100)).prints collect []

def characterMem : UserMem := fun a =>
  if a = 1 ∨ a = 3 then 0x25 else if a = 2 then 0x63 else if a = 4 then 0x64
  else if a = 0x100 then 0x41 else if a = 0x102 then 1 else 0

/-- Behind the character the number is read from between two words, as 256. -/
theorem vprintf_misreads_number :
    ¬ forall m fmt list cs, HoldsString m fmt cs -> VprintfRight m fmt list cs := by
  intro hall
  have hfmt : HoldsString characterMem 1 [0x25, 0x63, 0x25, 0x64] :=
    ⟨by decide, by decide, by decide, by decide⟩
  have hprints := (hall characterMem 1 0x100 _ hfmt).prints collect []
  rw [vprintf_eq hfmt, foldl_collect, foldl_collect] at hprints
  exact absurd (Except.ok.inj hprints) (by decide)

end Rmmtos
