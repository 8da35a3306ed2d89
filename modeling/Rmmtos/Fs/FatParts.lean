import Rmmtos.Machine

/-!
# A file read in parts

The arithmetic of the loop in {lit}`fat_read_file`, without its state: from the
current cluster on, each turn reads the rest of a cluster, or what is asked
for, and counts what it read in twelve bits.
-/

namespace Rmmtos
namespace Fs

open Library

/-- The geometry of a read: the bytes of a cluster, the bytes of the file in
its last cluster as the loop has them, and the bytes asked for. -/
structure PartsOf where
  cluster : Nat
  endOffset : Nat
  count : Nat

/-- The bytes read of a cluster.  In the last one the size is a difference of
two words. -/
def PartsOf.size (g : PartsOf) (left o d : Nat) : Nat :=
  min (if left = 0 then (65536 + g.endOffset - o) % 65536 else g.cluster - o)
    (g.count - d)

/-- The bytes counted and the buffer, after the clusters that are left behind
the current one: {lit}`i` is its number, {lit}`o` the offset in it, and
{lit}`d` what was counted before. -/
def readParts (g : PartsOf) (data : Nat -> Nat -> Byte) :
    Nat -> Nat -> Nat -> Nat -> (Nat -> Byte) -> Nat × (Nat -> Byte)
  | 0, _, _, d, buffer => (d, buffer)
  | left + 1, i, o, d, buffer =>
      if g.count ≤ d then (d, buffer)
      else
        readParts g data left (i + 1) 0 (d + g.size left o d % 4096)
          (writeRun (fun j => d + j) (fun j => data i (o + j))
            (g.size left o d) buffer)

structure FileRead where
  clusters : Nat
  size : Nat
  position : Nat

def FileRead.wanted (f : FileRead) (g : PartsOf) : Nat :=
  min g.count (f.size - f.position)

def FileRead.part (f : FileRead) (g : PartsOf) (i : Nat) : Nat :=
  min ((i + 1) * g.cluster) (min (f.position + g.count) f.size) -
    max (i * g.cluster) f.position

/-- The clusters of a file hold it, and the last one is not empty. -/
structure FileRead.Fits (f : FileRead) (g : PartsOf) : Prop where
  cluster_pos : 0 < g.cluster
  cluster_le : g.cluster ≤ 32768
  some : 0 < f.clusters
  low : (f.clusters - 1) * g.cluster < f.size
  high : f.size ≤ f.clusters * g.cluster
  endOffset : g.endOffset = f.size % g.cluster

structure FileRead.At (f : FileRead) (g : PartsOf) (left i o d : Nat) :
    Prop where
  left_eq : i + left = f.clusters
  inside : o < g.cluster
  place : f.position + d = i * g.cluster + o
  first : o = 0 ∨ d = 0
  counted : d ≤ g.count

/-- What the position has to do with the end of the file. -/
def FileRead.Plain (f : FileRead) (g : PartsOf) : Prop :=
  (g.endOffset ≠ 0 -> f.position ≤ f.size) ∧
    (g.endOffset = 0 -> f.position + g.count ≤ f.size - g.cluster ∨
      f.size - g.cluster < f.position ∧ f.position + g.count ≤ f.size)

section Parts

variable {g : PartsOf} {f : FileRead} {data : Nat -> Nat -> Byte}
  {left i o d : Nat}

theorem FileRead.Fits.last (hf : f.Fits g) (hi : i + 1 = f.clusters) :
    i * g.cluster < f.size ∧ f.size ≤ i * g.cluster + g.cluster ∧
      (f.size = i * g.cluster + g.cluster ∧ g.endOffset = 0 ∨
        f.size = i * g.cluster + g.endOffset ∧ 0 < g.endOffset ∧
          g.endOffset < g.cluster) := by
  have hlow := hf.low
  have hhigh := hf.high
  have hpos := hf.cluster_pos
  rw [← hi, Nat.add_sub_cancel] at hlow
  rw [← hi, Nat.succ_mul] at hhigh
  refine ⟨hlow, hhigh, ?_⟩
  rcases Nat.lt_or_ge f.size (i * g.cluster + g.cluster) with hlt | hge
  · right
    have hend : f.size % g.cluster = f.size - i * g.cluster := by
      have hsplit : f.size = f.size - i * g.cluster + i * g.cluster := by omega
      rw [hsplit, Nat.add_mul_mod_self_right, Nat.mod_eq_of_lt (by omega)]
      omega
    rw [hf.endOffset, hend]
    omega
  · left
    have heq : f.size = (i + 1) * g.cluster := by
      rw [Nat.succ_mul]
      omega
    refine ⟨by omega, ?_⟩
    rw [hf.endOffset, heq, Nat.mul_mod_left]

theorem FileRead.Fits.inner (hf : f.Fits g) (hi : i + 1 < f.clusters) :
    i * g.cluster + g.cluster < f.size := by
  have hlow := hf.low
  have hle : (i + 1) * g.cluster ≤ (f.clusters - 1) * g.cluster :=
    Nat.mul_le_mul_right _ (by omega)
  rw [Nat.succ_mul] at hle
  omega

theorem size_eq_part (hf : f.Fits g) (hplain : f.Plain g)
    (hat : f.At g (left + 1) i o d) (hd : d < g.count) :
    g.size left o d = f.part g i ∧ f.part g i ≤ g.cluster - o ∧
      d + f.part g i ≤ g.count ∧ f.position + d + f.part g i ≤ f.size := by
  have hle := hf.cluster_le
  have hpos := hf.cluster_pos
  have hplace := hat.place
  have hinside := hat.inside
  have hmax : max (i * g.cluster) f.position = i * g.cluster + o := by
    rcases hat.first with hzero | hzero <;> omega
  unfold PartsOf.size FileRead.part
  rw [hmax, Nat.succ_mul]
  rcases Nat.eq_zero_or_pos left with hleft | hleft
  · have hi : i + 1 = f.clusters := by
      have hsum := hat.left_eq
      omega
    rw [if_pos hleft]
    rcases hf.last hi with ⟨hlow, hhigh, ⟨hsize, hend⟩ | ⟨hsize, hend, hlt⟩⟩
    · rw [hend]
      rcases hplain.2 hend with hbefore | ⟨hin, hfit⟩
      · omega
      · have hfirst : d = 0 := by
          rcases hat.first with hzero | hzero <;> omega
        subst hfirst
        rw [Nat.mod_eq_of_lt (by omega)]
        omega
    · have hp := hplain.1 (by omega)
      have hmod : (65536 + g.endOffset - o) % 65536 = g.endOffset - o := by
        rcases hat.first with hzero | hzero <;> omega
      rw [hmod]
      omega
  · have hinner := hf.inner (i := i) (by
      have hsum := hat.left_eq
      omega)
    rw [if_neg (by omega)]
    omega

theorem FileRead.At.next (hf : f.Fits g) (hat : f.At g (left + 2) i o d)
    (hd : d < g.count) :
    d + f.part g i = g.count ∨ f.At g (left + 1) (i + 1) 0 (d + f.part g i) := by
  have hpos := hf.cluster_pos
  have hplace := hat.place
  have hinside := hat.inside
  have hmax : max (i * g.cluster) f.position = i * g.cluster + o := by
    rcases hat.first with hzero | hzero <;> omega
  have hinner := hf.inner (i := i) (by
    have hsum := hat.left_eq
    omega)
  have hpart : f.part g i = min (g.cluster - o) (g.count - d) := by
    unfold FileRead.part
    rw [hmax, Nat.succ_mul]
    omega
  rcases Nat.le_total (g.count - d) (g.cluster - o) with hle | hle
  · left
    omega
  · right
    refine ⟨?_, hpos, ?_, Or.inl rfl, ?_⟩
    · have hsum := hat.left_eq
      omega
    · rw [Nat.succ_mul]
      omega
    · omega

def filled (file : Nat -> Byte) (f : FileRead) (buffer : Nat -> Byte)
    (d : Nat) : Nat -> Byte :=
  writeRun (fun j => j) (fun j => file (f.position + j)) d buffer

theorem filled_part {file buffer : Nat -> Byte}
    (hdata : forall i j, i < f.clusters -> j < g.cluster ->
      data i j = file (i * g.cluster + j))
    (hat : f.At g (left + 1) i o d) {n : Nat} (hn : n ≤ g.cluster - o) :
    writeRun (fun j => d + j) (fun j => data i (o + j)) n
      (filled file f buffer d) = filled file f buffer (d + n) := by
  have hplace := hat.place
  have hsum := hat.left_eq
  unfold filled
  rw [← writeRun_append (fun j => j) (fun j => file (f.position + j)) d n]
  apply writeRun_congr
  intro j hj
  rw [hdata i (o + j) (by omega) (by omega)]
  congr 1
  omega

theorem wanted_last (hf : f.Fits g) (hat : f.At g 1 i o d) (hd : d < g.count)
    (hend : f.position + d ≤ f.size) : f.wanted g = d + f.part g i := by
  have hplace := hat.place
  have hinside := hat.inside
  have hmax : max (i * g.cluster) f.position = i * g.cluster + o := by
    rcases hat.first with hzero | hzero <;> omega
  have hhigh := (hf.last hat.left_eq).2.1
  unfold FileRead.part FileRead.wanted
  rw [hmax, Nat.succ_mul]
  omega

theorem readParts_right (hf : f.Fits g) (hplain : f.Plain g)
    (hparts : forall k, f.part g k < 4096) {file buffer : Nat -> Byte}
    (hdata : forall i j, i < f.clusters -> j < g.cluster ->
      data i j = file (i * g.cluster + j))
    (hat : f.At g (left + 1) i o d) (hd : d < g.count) :
    readParts g data (left + 1) i o d (filled file f buffer d) =
      (f.wanted g, filled file f buffer (f.wanted g)) := by
  induction left generalizing i o d with
  | zero =>
      rcases size_eq_part hf hplain hat hd with ⟨hsize, hle, _, hend⟩
      have hwanted := wanted_last hf hat hd (by omega)
      unfold readParts
      rw [if_neg (by omega), hsize, filled_part hdata hat hle,
        Nat.mod_eq_of_lt (hparts i), hwanted]
      rfl
  | succ left ih =>
      rcases size_eq_part hf hplain hat hd with ⟨hsize, hle, _, hend⟩
      unfold readParts
      rw [if_neg (by omega), hsize, filled_part hdata hat hle,
        Nat.mod_eq_of_lt (hparts i)]
      rcases Nat.lt_or_ge (d + f.part g i) g.count with hmore | hdone
      · rcases hat.next hf hd with hcount | hnext
        · omega
        · exact ih hnext hmore
      · have hwanted : f.wanted g = d + f.part g i := by
          unfold FileRead.wanted
          omega
        unfold readParts
        rw [if_pos hdone, hwanted]

/-!
# What is lost

A part of 4096 bytes or more is counted short, and the count never catches up:
what is still asked for never fits into a part that is counted in full.
-/

theorem readParts_lost (hf : f.Fits g) (hlarge : 4096 ≤ g.cluster)
    {buffer : Nat -> Byte} (hleft : i + left = f.clusters) (hcount : d + 4096 ≤ g.count)
    (hcluster : f.position + d + 4096 ≤ i * g.cluster)
    (hsize : f.position + d + 4096 ≤ f.size) :
    (readParts g data left i 0 d buffer).1 < g.count ∧
      f.position + (readParts g data left i 0 d buffer).1 < f.size := by
  induction left generalizing i d buffer with
  | zero =>
      unfold readParts
      dsimp only
      omega
  | succ left ih =>
      unfold readParts
      rw [if_neg (by omega)]
      rcases Nat.eq_zero_or_pos left with hzero | hpos
      · subst hzero
        have hlast := (hf.last hleft).2.2
        have hle := hf.cluster_le
        have hbound : g.size 0 0 d ≤ g.endOffset ∧
            g.size 0 0 d ≤ g.count - d := by
          unfold PartsOf.size
          rw [if_pos rfl]
          omega
        unfold readParts
        dsimp only
        omega
      · have hinner := hf.inner (i := i) (by omega)
        have hbound : g.size left 0 d = min g.cluster (g.count - d) := by
          unfold PartsOf.size
          rw [if_neg (by omega), Nat.sub_zero]
        have hcat : d + g.size left 0 d % 4096 + 4096 ≤ g.count ∧
            g.size left 0 d % 4096 ≤ g.cluster := by
          rw [hbound]
          omega
        apply ih (by omega) hcat.1
        · rw [Nat.succ_mul]
          omega
        · omega

theorem part_beyond {k : Nat} (h : f.size ≤ k * g.cluster ∨
    f.position + g.count ≤ k * g.cluster) : f.part g k = 0 := by
  unfold FileRead.part
  omega

theorem readParts_lossy (hf : f.Fits g) (hplain : f.Plain g)
    {buffer : Nat -> Byte} (hat : f.At g (left + 1) i o d) (hd : d < g.count)
    {k : Nat} (hk : i ≤ k) (hpart : 4096 ≤ f.part g k) :
    (readParts g data (left + 1) i o d buffer).1 < g.count ∧
      f.position + (readParts g data (left + 1) i o d buffer).1 < f.size := by
  have hmore : forall j, j < k -> f.size ≤ (j + 1) * g.cluster ∨
      f.position + g.count ≤ (j + 1) * g.cluster -> False := by
    intro j hj hend
    have hle : (j + 1) * g.cluster ≤ k * g.cluster :=
      Nat.mul_le_mul_right _ hj
    have hzero : f.part g k = 0 := part_beyond (by omega)
    omega
  induction left generalizing i o d buffer with
  | zero =>
      rcases size_eq_part hf hplain hat hd with ⟨hsize, _, hcount, hend⟩
      have hki : k = i := by
        by_contra hne
        apply hmore i (by omega)
        rw [Nat.succ_mul]
        exact Or.inl (hf.last hat.left_eq).2.1
      subst hki
      unfold readParts
      rw [if_neg (by omega), hsize]
      unfold readParts
      dsimp only
      omega
  | succ left ih =>
      rcases size_eq_part hf hplain hat hd with ⟨hsize, hle, hcount, hend⟩
      have hplace := hat.place
      have hinside := hat.inside
      have hsum := hat.left_eq
      unfold readParts
      rw [if_neg (by omega), hsize]
      rcases Nat.lt_or_ge (f.part g i) 4096 with hsmall | hlarge
      · rw [Nat.mod_eq_of_lt hsmall]
        have hki : i < k := by
          rcases Nat.lt_or_eq_of_le hk with hlt | heq
          · exact hlt
          · rw [heq] at hsmall
            omega
        have hgoes : d + f.part g i < g.count := by
          by_contra hdone
          apply hmore i hki
          rw [Nat.succ_mul]
          right
          omega
        rcases hat.next hf hd with hfull | hnext
        · omega
        · exact ih hnext hgoes hki
      · apply readParts_lost hf (by omega) (by omega) (by omega)
        · rw [Nat.succ_mul]
          omega
        · omega

/-- A last cluster that is full counts as empty when it is read from its
begin. -/
theorem readParts_full (hend : g.endOffset = 0) {buffer : Nat -> Byte}
    (hleft : i + (left + 1) = f.clusters) (hinside : o ≤ g.cluster)
    (hplace : f.position + d ≤ i * g.cluster + o) (hlast : left = 0 -> o = 0) :
    f.position + (readParts g data (left + 1) i o d buffer).1 ≤
      (f.clusters - 1) * g.cluster := by
  induction left generalizing i o d buffer with
  | zero =>
      have ho := hlast rfl
      subst ho
      have hi : f.clusters - 1 = i := by omega
      have hsize : g.size 0 0 d = 0 := by
        unfold PartsOf.size
        rw [if_pos rfl, hend]
        exact Nat.zero_min _
      unfold readParts
      rw [hi, hsize]
      split
      · exact hplace
      · unfold readParts
        exact hplace
  | succ left ih =>
      have hle : (i + 1) * g.cluster ≤ (f.clusters - 1) * g.cluster :=
        Nat.mul_le_mul_right _ (by omega)
      unfold readParts
      split
      · rw [Nat.succ_mul] at hle
        dsimp only
        omega
      · have hsize : g.size (left + 1) o d ≤ g.cluster - o := by
          unfold PartsOf.size
          rw [if_neg (by omega)]
          exact Nat.min_le_left ..
        have hmod := Nat.mod_le (g.size (left + 1) o d) 4096
        apply ih (by omega) (Nat.zero_le _)
        · rw [Nat.succ_mul]
          omega
        · exact fun _ => rfl

/-- A position in the wrong place to the end of the file: too few bytes are
counted, or the last cluster gives one behind those asked for. -/
theorem parts_not_plain (hf : f.Fits g) (hat : f.At g (left + 1) i o 0)
    (hcount : 0 < g.count) (hplain : ¬ f.Plain g) :
    (forall data buffer, (readParts g data (left + 1) i o 0 buffer).1 < f.wanted g) ∨
      exists t, left = 0 ∧ f.wanted g ≤ t ∧ t < g.size left o 0 := by
  have hpos := hf.cluster_pos
  have hle := hf.cluster_le
  have hsome := hf.some
  have hsum := hat.left_eq
  have hplace := hat.place
  have hinside := hat.inside
  have hend := (hf.last (i := f.clusters - 1) (by omega)).2.2
  have hsize : left = 0 -> g.size left o 0 =
      min ((65536 + g.endOffset - o) % 65536) g.count := by
    intro hzero
    unfold PartsOf.size
    rw [if_pos hzero, Nat.sub_zero]
  have hbefore : 0 < left -> i * g.cluster + g.cluster ≤
      (f.clusters - 1) * g.cluster := by
    intro hmore
    rw [← Nat.succ_mul]
    exact Nat.mul_le_mul_right _ (by omega)
  have hfirst : left = 0 -> i = f.clusters - 1 := by omega
  unfold FileRead.wanted
  rcases hend with ⟨hfull, hzero⟩ | ⟨hpart, hpart_pos, hpart_lt⟩
  · rcases Nat.lt_or_ge (f.size - g.cluster) f.position with hlast | hinner
    · have hleft : left = 0 := by
        by_contra hne
        have hout := hbefore (Nat.pos_of_ne_zero hne)
        omega
      have hbehind : f.size < f.position + g.count := by
        by_contra hfits
        exact hplain ⟨fun hne => absurd hzero hne,
          fun _ => Or.inr ⟨hlast, by omega⟩⟩
      rw [hfirst hleft] at hplace
      refine Or.inr ⟨f.size - f.position, hleft, by omega, ?_⟩
      rw [hsize hleft, hzero]
      omega
    · have hmore : f.size - g.cluster < f.position + g.count := by
        by_contra hfits
        exact hplain ⟨fun hne => absurd hzero hne, fun _ => Or.inl (by omega)⟩
      left
      intro data buffer
      have hshort : f.position + (readParts g data (left + 1) i o 0 buffer).1 ≤
          (f.clusters - 1) * g.cluster := by
        apply readParts_full hzero hat.left_eq (Nat.le_of_lt hinside) (by omega)
        intro hleft
        rw [hfirst hleft] at hplace
        omega
      omega
  · have hbehind : f.size < f.position := by
      by_contra hin
      exact hplain ⟨fun _ => by omega, fun hzero => by omega⟩
    have hleft : left = 0 := by
      by_contra hne
      have hout := hbefore (Nat.pos_of_ne_zero hne)
      omega
    rw [hfirst hleft] at hplace
    refine Or.inr ⟨0, hleft, by omega, ?_⟩
    rw [hsize hleft]
    omega

end Parts

end Fs
end Rmmtos
