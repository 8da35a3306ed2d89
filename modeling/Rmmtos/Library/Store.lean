import Mathlib.Tactic

/-!
# Byte stores

A store maps addresses to values.  Copying and filling write a sequence of
addresses one after the other, in the order of the sequence, so that a copy
onto an overlapping range reads what it wrote before.
-/

namespace Rmmtos
namespace Library

section Store

variable {α β : Type _} [DecidableEq α]

def copyRun (dest src : Nat -> α) : Nat -> (α -> β) -> (α -> β)
  | 0, m => m
  | n + 1, m =>
      let m' := copyRun dest src n m
      Function.update m' (dest n) (m' (src n))

def fillRun (dest : Nat -> α) (v : β) : Nat -> (α -> β) -> (α -> β)
  | 0, m => m
  | n + 1, m => Function.update (fillRun dest v n m) (dest n) v

def writeRun (dest : Nat -> α) (v : Nat -> β) : Nat -> (α -> β) -> (α -> β)
  | 0, m => m
  | n + 1, m => Function.update (writeRun dest v n m) (dest n) (v n)

theorem copyRun_other {dest src : Nat -> α} {n : Nat} {m : α -> β} {a : α}
    (h : forall i, i < n -> a ≠ dest i) :
    copyRun dest src n m a = m a := by
  induction n with
  | zero => rfl
  | succ n ih =>
      have hn : a ≠ dest n := h n (by omega)
      simp only [copyRun, Function.update_of_ne hn]
      exact ih (fun i hi => h i (by omega))

theorem writeRun_other {dest : Nat -> α} {v : Nat -> β} {n : Nat} {m : α -> β}
    {a : α} (h : forall i, i < n -> a ≠ dest i) :
    writeRun dest v n m a = m a := by
  induction n with
  | zero => rfl
  | succ n ih =>
      have hn : a ≠ dest n := h n (by omega)
      simp only [writeRun, Function.update_of_ne hn]
      exact ih (fun i hi => h i (by omega))

theorem writeRun_at {dest : Nat -> α} {v : Nat -> β} {n : Nat} {m : α -> β}
    (hinj : forall i j, i < n -> j < n -> dest i = dest j -> i = j)
    {i : Nat} (hi : i < n) :
    writeRun dest v n m (dest i) = v i := by
  induction n with
  | zero => omega
  | succ n ih =>
      by_cases hin : i = n
      · subst hin
        simp [writeRun]
      · have hne : dest i ≠ dest n := fun h =>
          hin (hinj i n hi (by omega) h)
        simp only [writeRun, Function.update_of_ne hne]
        exact ih (fun i j hi hj => hinj i j (by omega) (by omega)) (by omega)

theorem writeRun_congr {dest : Nat -> α} {v w : Nat -> β} {n : Nat}
    {m : α -> β} (h : forall i, i < n -> v i = w i) :
    writeRun dest v n m = writeRun dest w n m := by
  induction n with
  | zero => rfl
  | succ n ih =>
      simp only [writeRun, h n (Nat.lt_succ_self n),
        ih fun i hi => h i (Nat.lt_succ_of_lt hi)]

theorem writeRun_agree {dest : Nat -> α} {v : Nat -> β} {n : Nat}
    {m m' : α -> β} {a : α} (h : m a = m' a) :
    writeRun dest v n m a = writeRun dest v n m' a := by
  induction n with
  | zero => exact h
  | succ n ih =>
      unfold writeRun
      by_cases ha : a = dest n
      · rw [ha, Function.update_self, Function.update_self]
      · rw [Function.update_of_ne ha, Function.update_of_ne ha, ih]

theorem writeRun_over (dest : Nat -> α) (v w : Nat -> β) (n : Nat) (m : α -> β) :
    writeRun dest v n (writeRun dest w n m) = writeRun dest v n m := by
  have hhit : forall k a (m m' : α -> β), (exists i, i < k ∧ a = dest i) ->
      writeRun dest v k m a = writeRun dest v k m' a := by
    intro k
    induction k with
    | zero =>
        rintro a m m' ⟨i, hi, _⟩
        exact absurd hi (Nat.not_lt_zero i)
    | succ k ih =>
        rintro a m m' ⟨i, hi, ha⟩
        unfold writeRun
        by_cases hak : a = dest k
        · rw [hak, Function.update_self, Function.update_self]
        · rw [Function.update_of_ne hak, Function.update_of_ne hak]
          have hik : i ≠ k := fun h => hak (h ▸ ha)
          exact ih a m m' ⟨i, by omega, ha⟩
  funext a
  by_cases ha : exists i, i < n ∧ a = dest i
  · exact hhit n a _ _ ha
  · have hout : forall i, i < n -> a ≠ dest i := fun i hi heq => ha ⟨i, hi, heq⟩
    rw [writeRun_other hout, writeRun_other hout, writeRun_other hout]

theorem writeRun_append (dest : Nat -> α) (v : Nat -> β) (n k : Nat)
    (m : α -> β) :
    writeRun (fun i => dest (n + i)) (fun i => v (n + i)) k
        (writeRun dest v n m) = writeRun dest v (n + k) m := by
  induction k with
  | zero => rfl
  | succ k ih =>
      change Function.update (writeRun (fun i => dest (n + i))
        (fun i => v (n + i)) k (writeRun dest v n m)) (dest (n + k))
          (v (n + k)) = _
      rw [ih]
      rfl

/-- A copy that has read every source before it is written is a plain write of
what the sources held. -/
theorem copyRun_eq_writeRun {dest src : Nat -> α} {n : Nat} {m : α -> β}
    (hahead : forall i j, j < i -> i < n -> src i ≠ dest j) :
    copyRun dest src n m = writeRun dest (fun i => m (src i)) n m := by
  induction n with
  | zero => rfl
  | succ n ih =>
      have hprev := ih (fun i j hj hi => hahead i j hj (Nat.lt_succ_of_lt hi))
      have hsrc : copyRun dest src n m (src n) = m (src n) :=
        copyRun_other (fun j hj => hahead n j hj (Nat.lt_succ_self n))
      simp only [copyRun, writeRun, hsrc, hprev]

theorem copyRun_at {dest src : Nat -> α} {n : Nat} {m : α -> β}
    (hinj : forall i j, i < n -> j < n -> dest i = dest j -> i = j)
    {i : Nat} (hi : i < n) (hahead : forall j, j < i -> src i ≠ dest j) :
    copyRun dest src n m (dest i) = m (src i) := by
  induction n with
  | zero => exact absurd hi (Nat.not_lt_zero i)
  | succ n ih =>
      unfold copyRun
      rcases Nat.lt_succ_iff_lt_or_eq.mp hi with hlt | rfl
      · have hne : dest i ≠ dest n := fun h =>
          Nat.ne_of_lt hlt (hinj i n hi (Nat.lt_succ_self n) h)
        rw [Function.update_of_ne hne]
        exact ih (fun j k hj hk => hinj j k (Nat.lt_succ_of_lt hj)
          (Nat.lt_succ_of_lt hk)) hlt
      · rw [Function.update_self]
        exact copyRun_other hahead

/-- A run changes nothing exactly when its values are there before it. -/
theorem writeRun_eq_self_iff {dest : Nat -> α} {v : Nat -> β} {n : Nat}
    {m : α -> β}
    (hinj : forall i j, i < n -> j < n -> dest i = dest j -> i = j) :
    writeRun dest v n m = m <-> forall i, i < n -> m (dest i) = v i := by
  constructor
  · intro h i hi
    have hat := writeRun_at (v := v) (m := m) hinj hi
    rw [h] at hat
    exact hat
  · intro h
    funext a
    by_cases ha : exists i, i < n ∧ a = dest i
    · rcases ha with ⟨i, hi, rfl⟩
      rw [writeRun_at hinj hi, h i hi]
    · exact writeRun_other fun i hi heq => ha ⟨i, hi, heq⟩

/-- A copy changes nothing exactly when each place is a copy before it, even
where the sources are among the destinations. -/
theorem copyRun_eq_self_iff {dest src : Nat -> α} {n : Nat} {m : α -> β}
    (hinj : forall i j, i < n -> j < n -> dest i = dest j -> i = j) :
    copyRun dest src n m = m <->
      forall i, i < n -> m (dest i) = m (src i) := by
  induction n with
  | zero => exact ⟨fun _ i hi => absurd hi (Nat.not_lt_zero i), fun _ => rfl⟩
  | succ n ih =>
      have hprev := ih fun i j hi hj =>
        hinj i j (Nat.lt_succ_of_lt hi) (Nat.lt_succ_of_lt hj)
      have hlast : copyRun dest src n m (dest n) = m (dest n) :=
        copyRun_other fun i hi heq => Nat.ne_of_gt hi
          (hinj n i (Nat.lt_succ_self n) (Nat.lt_succ_of_lt hi) heq)
      unfold copyRun
      dsimp only
      constructor
      · intro h
        have hsame : copyRun dest src n m = m := by
          funext a
          by_cases ha : a = dest n
          · rw [ha, hlast]
          · have hat := congrFun h a
            rwa [Function.update_of_ne ha] at hat
        have hat := congrFun h (dest n)
        rw [Function.update_self, hsame] at hat
        intro i hi
        rcases Nat.lt_succ_iff_lt_or_eq.mp hi with hless | rfl
        · exact hprev.mp hsame i hless
        · exact hat.symm
      · intro h
        rw [hprev.mpr fun i hi => h i (Nat.lt_succ_of_lt hi),
          ← h n (Nat.lt_succ_self n), Function.update_eq_self]

end Store

/-!
# Sequences that begin with another one
-/

/-- The first {lit}`n` values of one sequence, and the later ones of another. -/
def splice (data : Nat -> β) (n : Nat) (rest : Nat -> β) : Nat -> β :=
  fun i => if i < n then data i else rest i

section Splice

variable {β : Type _} {data rest : Nat -> β} {n d i : Nat}

theorem splice_before (h : i < n) : splice data n rest i = data i :=
  if_pos h

theorem splice_behind (h : n ≤ i) : splice data n rest i = rest i :=
  if_neg (Nat.not_lt.mpr h)

theorem splice_zero (data rest : Nat -> β) : splice data 0 rest = rest :=
  funext fun _ => splice_behind (Nat.zero_le _)

theorem writeRun_splice (data v rest : Nat -> β) (d n : Nat) :
    writeRun (fun i => d + i) v n (splice data d rest) =
      splice (splice data d fun i => v (i - d)) (d + n) rest := by
  funext i
  rcases Nat.lt_or_ge i d with hbefore | hbehind
  · rw [writeRun_other (fun j _ => by omega), splice_before hbefore,
      splice_before (by omega), splice_before hbefore]
  · rcases Nat.lt_or_ge i (d + n) with hin | hout
    · rw [splice_before hin, splice_behind hbehind]
      have hi : d + (i - d) = i := Nat.add_sub_cancel' hbehind
      have hinj : forall j k, j < n -> k < n -> d + j = d + k -> j = k :=
        fun j k _ _ h => Nat.add_left_cancel h
      have hat : writeRun (fun j => d + j) v n (splice data d rest) (d + (i - d)) =
          v (i - d) := writeRun_at hinj (by omega)
      rw [hi] at hat
      exact hat
    · rw [writeRun_other (fun j hj => by omega), splice_behind hbehind,
        splice_behind hout]

theorem writeRun_front (v rest : Nat -> β) (n : Nat) :
    writeRun (fun i => i) v n rest = splice v n rest := by
  have hrun := writeRun_splice v v rest 0 n
  simp only [splice_zero, Nat.zero_add, Nat.sub_zero] at hrun
  exact hrun

theorem splice_eq_writeRun (v rest : Nat -> β) (d n : Nat) :
    splice rest d (fun i => splice v n (fun j => rest (d + j)) (i - d)) =
      writeRun (fun i => d + i) v n rest := by
  have hsame : splice rest d rest = rest := funext fun i => ite_self _
  have hrun := writeRun_splice rest v rest d n
  rw [hsame] at hrun
  rw [hrun]
  funext i
  rcases Nat.lt_or_ge i d with hbefore | hbehind
  · rw [splice_before hbefore, splice_before (by omega), splice_before hbefore]
  · rw [splice_behind hbehind]
    rcases Nat.lt_or_ge (i - d) n with hin | hout
    · rw [splice_before hin, splice_before (by omega), splice_behind hbehind]
    · rw [splice_behind hout, splice_behind (by omega),
        Nat.add_sub_cancel' hbehind]

theorem splice_splice (data part rest : Nat -> β) {n d : Nat} (h : d ≤ n)
    (k : Nat) :
    splice (splice data n rest) d
        (fun i => splice part k (fun j => splice data n rest (d + j)) (i - d)) =
      splice (splice data d fun i => splice part k (fun j => data (d + j)) (i - d))
        (max n (d + k)) rest := by
  funext i
  rcases Nat.lt_or_ge i d with hbefore | hbehind
  · rw [splice_before hbefore, splice_before (by omega), splice_before (by omega),
      splice_before hbefore]
  · have hi : d + (i - d) = i := Nat.add_sub_cancel' hbehind
    rw [splice_behind hbehind]
    rcases Nat.lt_or_ge (i - d) k with hin | hout
    · rw [splice_before hin, splice_before (by omega), splice_behind hbehind,
        splice_before hin]
    · rw [splice_behind hout, hi]
      rcases Nat.lt_or_ge i n with hless | hmore
      · rw [splice_before hless, splice_before (by omega), splice_behind hbehind,
          splice_behind hout, hi]
      · rw [splice_behind hmore, splice_behind (by omega)]

end Splice

/-!
# Lists of stores
-/

section StoreAll

variable {α β : Type _} [DecidableEq α]

def storeAll (m : α -> β) (stores : List (α × β)) : α -> β :=
  stores.foldl (fun m s => Function.update m s.1 s.2) m

theorem storeAll_append (m : α -> β) (xs ys : List (α × β)) :
    storeAll m (xs ++ ys) = storeAll (storeAll m xs) ys :=
  List.foldl_append

theorem storeAll_other {m : α -> β} {stores : List (α × β)} {a : α}
    (h : forall s, s ∈ stores -> a ≠ s.1) : storeAll m stores a = m a := by
  induction stores generalizing m with
  | nil => rfl
  | cons s rest ih =>
      have hrest := ih (m := Function.update m s.1 s.2) fun s hs =>
        h s (List.mem_cons_of_mem _ hs)
      exact hrest.trans (Function.update_of_ne (h s List.mem_cons_self) ..)

/-- Stores at different addresses are all there in the end. -/
theorem storeAll_at {m : α -> β} {stores : List (α × β)} {a : α} {b : β}
    (hnodup : (stores.map Prod.fst).Nodup) (h : (a, b) ∈ stores) :
    storeAll m stores a = b := by
  induction stores generalizing m with
  | nil => cases h
  | cons s rest ih =>
      rw [List.map_cons, List.nodup_cons] at hnodup
      rcases List.mem_cons.mp h with heq | hmem
      · subst heq
        have hother : storeAll (Function.update m a b) rest a = Function.update m a b a :=
          storeAll_other fun s hs heq =>
            hnodup.1 (List.mem_map.mpr ⟨s, hs, heq.symm⟩)
        exact hother.trans (Function.update_self ..)
      · exact ih hnodup.2 hmem

/-- The stores of {lit}`writeRun`. -/
def writeStores {γ : Type _} (dest : Nat -> γ) (v : Nat -> β) (n : Nat) :
    List (γ × β) :=
  (List.range n).map fun i => (dest i, v i)

theorem storeAll_writeStores (m : α -> β) (dest : Nat -> α) (v : Nat -> β)
    (n : Nat) : storeAll m (writeStores dest v n) = writeRun dest v n m := by
  induction n with
  | zero => rfl
  | succ n ih =>
      unfold writeStores at ih ⊢
      rw [List.range_succ, List.map_append, storeAll_append, ih]
      rfl

/-- The values that {lit}`copyRun` stores, each read when its turn comes. -/
def copiedValue (dest src : Nat -> α) (m : α -> β) (i : Nat) : β :=
  copyRun dest src i m (src i)

theorem storeAll_copyStores (m : α -> β) (dest src : Nat -> α) (n : Nat) :
    storeAll m (writeStores dest (copiedValue dest src m) n) =
      copyRun dest src n m := by
  induction n with
  | zero => rfl
  | succ n ih =>
      unfold writeStores at ih ⊢
      rw [List.range_succ, List.map_append, storeAll_append, ih]
      rfl

end StoreAll

/-!
# Pieces of a range
-/

/-- Pieces, each with its place and its size, that follow each other from the
beginning of a range to its end.  None is empty. -/
def Tiles : List (Nat × Nat) -> Nat -> Nat -> Prop
  | [], start, finish => start = finish
  | piece :: rest, start, finish =>
      piece.1 = start ∧ 0 < piece.2 ∧ Tiles rest (start + piece.2) finish

end Library
end Rmmtos
