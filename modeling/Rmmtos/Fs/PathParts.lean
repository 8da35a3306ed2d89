import Rmmtos.Fs.Path
import Rmmtos.Memory
import Mathlib.Data.List.GetD

/-!
# The parts of a path

In the copy of a path a part ends, and the whole path ends, at a zero: only the
address tells the two apart.  The cursor of a resolution is always at the
beginning of a part, which may be empty.
-/

namespace Rmmtos
namespace Fs

open Library Kernel

/-!
# Components
-/

/-- The parts of a path that are not empty. -/
def components (path : List Byte) : List (List Byte) :=
  (path.splitOn slash).filter fun part => !part.isEmpty

/-- The components behind the part that a path begins with. -/
def laterComponents (path : List Byte) : List (List Byte) :=
  (path.splitOn slash).tail.filter fun part => !part.isEmpty

/-- A path begins with a part, and it ends behind the part or goes on behind a
separator. -/
def FirstPart (part path : List Byte) : Prop :=
  slash ∉ part ∧ (path = part ∨ exists rest, path = part ++ slash :: rest)

theorem exists_firstPart (path : List Byte) : exists part, FirstPart part path := by
  induction path with
  | nil => exact ⟨[], List.not_mem_nil, Or.inl rfl⟩
  | cons c path ih =>
      cases Decidable.em (c = slash) with
      | inl hc =>
          refine ⟨[], List.not_mem_nil, Or.inr ⟨path, ?_⟩⟩
          rw [hc]
          rfl
      | inr hc =>
          rcases ih with ⟨part, hpart, hpath⟩
          refine ⟨c :: part, ?_, ?_⟩
          · intro hmem
            rcases List.mem_cons.mp hmem with heq | hmem
            · exact hc heq.symm
            · exact hpart hmem
          · rcases hpath with rfl | ⟨rest, rfl⟩
            · exact Or.inl rfl
            · exact Or.inr ⟨rest, rfl⟩

theorem FirstPart.zero_not_mem {part path : List Byte} (h : FirstPart part path)
    (h0 : 0 ∉ path) : 0 ∉ part := by
  intro hmem
  apply h0
  rcases h.2 with rfl | ⟨rest, rfl⟩
  · exact hmem
  · exact List.mem_append_left _ hmem

theorem laterComponents_last {part : List Byte} (h : slash ∉ part) :
    laterComponents part = [] := by
  unfold laterComponents
  rw [List.splitOn_eq_singleton h]
  rfl

theorem laterComponents_behind {part : List Byte} (h : slash ∉ part)
    (rest : List Byte) :
    laterComponents (part ++ slash :: rest) = components rest := by
  unfold laterComponents components
  rw [List.splitOn_append_cons_self_of_not_mem h]
  rfl

theorem components_nil {path : List Byte} (h : FirstPart [] path) :
    components path = laterComponents path := by
  rcases h with ⟨_, rfl | ⟨rest, rfl⟩⟩
  · rfl
  · unfold components laterComponents
    rw [List.splitOn_append_cons_self_of_not_mem List.not_mem_nil]
    rfl

theorem components_part {c : Byte} {part path : List Byte}
    (h : FirstPart (c :: part) path) :
    components path = (c :: part) :: laterComponents path := by
  rcases h with ⟨hpart, rfl | ⟨rest, rfl⟩⟩
  · unfold components laterComponents
    rw [List.splitOn_eq_singleton hpart]
    rfl
  · unfold components laterComponents
    rw [List.splitOn_append_cons_self_of_not_mem hpart]
    rfl

/-!
# The copy of the path
-/

structure Copied (m : Mem) (first last : Word) (path : List Byte) : Prop where
  bytes : forall i, i < path.length ->
    peek m kernelSegment (offsetFrom first i) = path.getD i 0
  zero : peek m kernelSegment last = 0
  length : first.toNat + path.length = last.toNat

def cutByte (c : Byte) : Byte :=
  if c = slash then 0 else c

/-- The end of a path in memory, with zeros for the separators. -/
structure Laid (m : Mem) (first last : Word) (path : List Byte) : Prop where
  bytes : forall i, i < path.length ->
    peek m kernelSegment (offsetFrom first i) = cutByte (path.getD i 0)
  zero : peek m kernelSegment last = 0
  length : first.toNat + path.length = last.toNat

section Copies

variable {m : Mem} {first last : Word} {c : Byte} {path : List Byte}

theorem succ_toNat {p q : Word} {n : Nat} (h : p.toNat + (n + 1) = q.toNat) :
    (p + 1).toNat + n = q.toNat := by
  have hlt := q.isLt
  rw [BitVec.toNat_add]
  change (p.toNat + 1) % 65536 + n = q.toNat
  omega

theorem Copied.head (h : Copied m first last (c :: path)) :
    peek m kernelSegment first = c := by
  have hbyte := h.bytes 0 (Nat.succ_pos _)
  rw [offsetFrom_none] at hbyte
  exact hbyte

theorem Copied.tail (h : Copied m first last (c :: path)) :
    Copied m (first + 1) last path := by
  refine ⟨?_, h.zero, succ_toNat h.length⟩
  intro i hi
  rw [offsetFrom_next]
  exact h.bytes (i + 1) (Nat.succ_lt_succ hi)

theorem Laid.head (h : Laid m first last (c :: path)) :
    peek m kernelSegment first = cutByte c := by
  have hbyte := h.bytes 0 (Nat.succ_pos _)
  rw [offsetFrom_none] at hbyte
  exact hbyte

theorem Laid.tail (h : Laid m first last (c :: path)) :
    Laid m (first + 1) last path := by
  refine ⟨?_, h.zero, succ_toNat h.length⟩
  intro i hi
  rw [offsetFrom_next]
  exact h.bytes (i + 1) (Nat.succ_lt_succ hi)

theorem Laid.done (h : Laid m first last []) : first = last :=
  BitVec.eq_of_toNat_eq h.length

theorem Laid.le (h : Laid m first last path) : first.toNat ≤ last.toNat := by
  rw [← h.length]
  exact Nat.le_add_right ..

theorem strcpy_copied (m : Mem) {dest : Word}
    (hfits : dest.toNat + path.length < wordCount) :
    Copied (strcpy m dest path) dest (offsetFrom dest path.length) path := by
  have hat : forall i, i < path.length + 1 ->
      peek (strcpy m dest path) kernelSegment (offsetFrom dest i) =
        path.getD i 0 := by
    intro i hi
    refine writeRun_at ?_ hi
    intro i j hi hj h
    exact offsetFrom_injective (by omega) (by omega) (linear_injective h)
  refine ⟨fun i hi => hat i (Nat.lt_succ_of_lt hi), ?_, (offsetFrom_toNat hfits).symm⟩
  rw [hat _ (Nat.lt_succ_self _)]
  simp

/-- The pass over the copy, from any place in it: it writes nothing in front of
the place. -/
theorem cutPath_run {n : Nat} (h : Copied m first last path) (h0 : 0 ∉ path)
    (hn : path.length ≤ n) :
    exists m', whileLoop Stop.hang (fun x => peek x.2 kernelSegment x.1 != 0)
        (fun x => .ok (x.1 + 1,
          if peek x.2 kernelSegment x.1 = slash then
            poke x.2 kernelSegment x.1 0
          else x.2)) n (first, m) = .ok (last, m') ∧
      Laid m' first last path ∧
      forall off : Word, off.toNat < first.toNat ->
        peek m' kernelSegment off = peek m kernelSegment off := by
  induction path generalizing first m n with
  | nil =>
      have hlast : first = last := BitVec.eq_of_toNat_eq h.length
      refine ⟨m, ?_, ⟨nofun, h.zero, h.length⟩, fun _ _ => rfl⟩
      rw [← hlast]
      apply whileLoop_done
      dsimp only
      rw [hlast, h.zero]
      rfl
  | cons c path ih =>
      have hc : c ≠ 0 := fun heq => h0 (heq ▸ List.mem_cons_self)
      have hhead := h.head
      have hlength : first.toNat + (path.length + 1) = last.toNat := h.length
      have hfirst : (first + 1).toNat = first.toNat + 1 := by
        have hsucc := h.tail.length
        omega
      cases n with
      | zero => cases hn
      | succ n =>
          have hcut : exists m₁, (if peek m kernelSegment first = slash then
                poke m kernelSegment first 0 else m) = m₁ ∧
              peek m₁ kernelSegment first = cutByte c ∧
              forall off : Word, off ≠ first ->
                peek m₁ kernelSegment off = peek m kernelSegment off := by
            rw [hhead]
            unfold cutByte
            split
            · refine ⟨_, rfl, poke_at .., ?_⟩
              intro off hoff
              exact poke_other fun heq => hoff (linear_injective heq)
            · exact ⟨_, rfl, hhead, fun _ _ => rfl⟩
          rcases hcut with ⟨m₁, hm₁, hfirst₁, hother⟩
          have hbehind : Copied m₁ (first + 1) last path := by
            have htail := h.tail
            refine ⟨?_, ?_, htail.length⟩
            · intro i hi
              rw [hother, htail.bytes i hi]
              intro heq
              have hnat := congrArg BitVec.toNat heq
              have hlt := last.isLt
              rw [offsetFrom_toNat (by unfold wordCount; omega)] at hnat
              omega
            · rw [hother, h.zero]
              intro heq
              rw [heq] at hlength
              omega
          rcases ih hbehind (fun hmem => h0 (List.mem_cons_of_mem c hmem))
            (Nat.le_of_succ_le_succ hn) with ⟨m', hrun, hlaid, hbefore⟩
          refine ⟨m', ?_, ⟨?_, hlaid.zero, hlength⟩, ?_⟩
          · rw [whileLoop_turn n (t := (first + 1, m₁)) ?_ ?_]
            · exact hrun
            · dsimp only
              rw [hhead]
              exact bne_iff_ne.mpr hc
            · dsimp only
              rw [hm₁]
          · intro i hi
            cases i with
            | zero =>
                rw [offsetFrom_none, hbefore first (by omega)]
                exact hfirst₁
            | succ i =>
                rw [← offsetFrom_next]
                exact hlaid.bytes i (Nat.lt_of_succ_lt_succ hi)
          · intro off hoff
            rw [hbefore off (by omega), hother]
            intro heq
            rw [heq] at hoff
            exact Nat.lt_irrefl _ hoff

theorem cutPath_laid (h : Copied m first last path) (h0 : 0 ∉ path) :
    exists m', cutPath m first = .ok m' ∧ Laid m' first last path := by
  have hn : path.length ≤ 2 * wordCount := by
    have hlt := last.isLt
    have hlength := h.length
    unfold wordCount
    omega
  rcases cutPath_run h h0 hn with ⟨m', hrun, hlaid, _⟩
  refine ⟨m', ?_, hlaid⟩
  unfold cutPath
  rw [hrun]
  rfl

theorem skipPart_run {n : Nat} {part tail : List Byte}
    (h : Laid m first last (part ++ tail)) (hslash : slash ∉ part) (h0 : 0 ∉ part)
    (htail : tail = [] ∨ exists rest, tail = slash :: rest)
    (hn : part.length ≤ n) :
    exists r, whileLoop Stop.hang (fun p => peek m kernelSegment p != 0)
        (fun p => .ok (p + 1)) n first = .ok r ∧ Laid m r last tail := by
  induction part generalizing first n with
  | nil =>
      refine ⟨first, whileLoop_done n ?_, h⟩
      rcases htail with rfl | ⟨rest, rfl⟩
      · rw [h.done, h.zero]
        rfl
      · rw [h.head]
        rfl
  | cons c part ih =>
      have hc0 : c ≠ 0 := fun heq => h0 (heq ▸ List.mem_cons_self)
      have hcs : c ≠ slash := fun heq => hslash (heq ▸ List.mem_cons_self)
      have hhead := Laid.head h
      unfold cutByte at hhead
      rw [if_neg hcs] at hhead
      cases n with
      | zero => cases hn
      | succ n =>
          rcases ih (Laid.tail h) (fun hmem => hslash (List.mem_cons_of_mem c hmem))
            (fun hmem => h0 (List.mem_cons_of_mem c hmem))
            (Nat.le_of_succ_le_succ hn) with ⟨r, hrun, hr⟩
          refine ⟨r, ?_, hr⟩
          have hcond : (peek m kernelSegment first != 0) = true := by
            rw [hhead]
            exact bne_iff_ne.mpr hc0
          have hturn := whileLoop_turn (e := Stop.hang)
            (c := fun p => peek m kernelSegment p != 0)
            (b := fun p => .ok (p + 1)) n hcond rfl
          exact hturn.trans hrun

theorem skipPart_laid {part : List Byte} (h : Laid m first last path)
    (hpart : FirstPart part path) (h0 : 0 ∉ path) :
    exists r, skipPart m first = .ok r ∧
      (r = last ∧ path = part ∨
        r ≠ last ∧ exists rest, path = part ++ slash :: rest ∧
          Laid m (r + 1) last rest ∧ 0 ∉ rest) := by
  have hn : part.length ≤ wordCount := by
    have hlt := last.isLt
    have hlength := h.length
    rcases hpart with ⟨_, rfl | ⟨rest, rfl⟩⟩
    · unfold wordCount
      omega
    · rw [List.length_append] at hlength
      unfold wordCount
      omega
  rcases hpart with ⟨hslash, rfl | ⟨rest, rfl⟩⟩
  · rw [← List.append_nil path] at h
    rcases skipPart_run h hslash h0 (Or.inl rfl) hn with ⟨r, hrun, hr⟩
    exact ⟨r, hrun, Or.inl ⟨hr.done, rfl⟩⟩
  · have hbefore : 0 ∉ part := fun hmem => h0 (List.mem_append_left _ hmem)
    have hbehind : 0 ∉ rest := fun hmem =>
      h0 (List.mem_append_right _ (List.mem_cons_of_mem _ hmem))
    rcases skipPart_run h hslash hbefore (Or.inr ⟨rest, rfl⟩) hn with ⟨r, hrun, hr⟩
    refine ⟨r, hrun, Or.inr ⟨?_, rest, rfl, hr.tail, hbehind⟩⟩
    intro heq
    have hlength := hr.length
    rw [heq, List.length_cons] at hlength
    omega

theorem stringAt_part {part : List Byte} (h : Laid m first last path)
    (hpart : FirstPart part path) :
    (forall i, i < part.length -> stringAt m first i = part.getD i 0) ∧
      stringAt m first part.length = 0 := by
  constructor
  · intro i hi
    have hmem : part.getD i 0 ∈ part := by
      rw [List.getD_eq_getElem _ _ hi]
      exact List.getElem_mem hi
    have hcut : cutByte (part.getD i 0) = part.getD i 0 :=
      if_neg fun heq : part.getD i 0 = slash => hpart.1 (heq ▸ hmem)
    rcases hpart with ⟨_, rfl | ⟨rest, rfl⟩⟩
    · exact (h.bytes i hi).trans hcut
    · have hbyte := h.bytes i (by rw [List.length_append]; omega)
      rw [List.getD_append _ _ _ _ hi, hcut] at hbyte
      exact hbyte
  · rcases hpart with ⟨_, rfl | ⟨rest, rfl⟩⟩
    · have hlast : offsetFrom first path.length = last := by
        apply BitVec.eq_of_toNat_eq
        rw [offsetFrom_toNat, h.length]
        rw [h.length]
        exact last.isLt
      unfold stringAt
      rw [hlast]
      exact h.zero
    · have hbyte := h.bytes part.length (by simp)
      rw [List.getD_append_right _ _ _ _ (Nat.le_refl _), Nat.sub_self] at hbyte
      exact hbyte

end Copies

theorem sameString_part {name part : List Byte} {bytes : Bytes} (hname : 0 ∉ name)
    (hpart : 0 ∉ part) (hbytes : forall i, i < part.length -> bytes i = part.getD i 0)
    (hend : bytes part.length = 0) : sameString name bytes = (name == part) := by
  have hnot : forall {l : List Byte} {i : Nat}, 0 ∉ l -> i < l.length ->
      l.getD i 0 ≠ 0 := by
    intro l i hl hi hzero
    rw [List.getD_eq_getElem _ _ hi] at hzero
    exact hl (hzero ▸ List.getElem_mem hi)
  apply Bool.eq_iff_iff.mpr
  unfold sameString
  rw [Bool.and_eq_true, List.all_eq_true, beq_iff_eq, beq_iff_eq]
  simp only [List.mem_range, beq_iff_eq]
  constructor
  · intro h
    rcases h with ⟨hsame, hzero⟩
    have hlength : name.length = part.length := by
      rcases Nat.lt_trichotomy name.length part.length with hlt | heq | hgt
      · rw [hbytes _ hlt] at hzero
        exact absurd hzero (hnot hpart hlt)
      · exact heq
      · have hchar := hsame _ hgt
        rw [hend] at hchar
        exact absurd hchar (hnot hname hgt)
    apply List.ext_getElem hlength
    intro i hi hi'
    have hchar := hsame i hi
    rw [hbytes i hi', List.getD_eq_getElem _ _ hi, List.getD_eq_getElem _ _ hi']
      at hchar
    exact hchar
  · intro h
    rw [h]
    exact ⟨fun i hi => (hbytes i hi).symm, hend⟩

end Fs
end Rmmtos
