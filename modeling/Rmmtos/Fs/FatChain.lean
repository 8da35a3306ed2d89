import Rmmtos.Fs.FatParts
import Rmmtos.Fs.FatTable

/-!
# The loop along a chain

The loop of {lit}`fat_read_file` follows a chain of clusters.  It passes the
clusters before the position, and then reads part after part.
-/

namespace Rmmtos
namespace Fs

open Library Kernel

/-!
# Chains
-/

def tableEntry (image : Bytes) (root : FatGeometry) (n : Word) : Word :=
  entryOfWord n (wordAt image (root.fatBegin.toNat + 3 * n.toNat / 2))

def chain (image : Bytes) (root : FatGeometry) (start : Word) : Nat -> Word
  | 0 => start
  | i + 1 => tableEntry image root (chain image root start i)

theorem chain_congr {root laid : FatGeometry}
    (h : root.fatBegin.toNat = laid.fatBegin.toNat) (image : Bytes) :
    chain image root = chain image laid := by
  funext start i
  induction i with
  | zero => rfl
  | succ i ih =>
      unfold chain tableEntry
      rw [ih, h]

def clusterByte (image : Bytes) (root : FatGeometry) (start : Word) (i t : Nat) :
    Byte :=
  image (((clusterPosition root (chain image root start i)).toNat + t) % 2 ^ 64)

theorem nextCluster_eq {root : FatGeometry} (hroot : root.fatBegin.toNat < 2 ^ 31)
    (v : Volume) {n : Word} (hn : n.toNat < 0xff7) :
    (nextCluster root v n).1 = tableEntry v.image root n ∧
      (nextCluster root v n).2.image = v.image := by
  refine ⟨?_, rfl⟩
  have hhalf : (n / 2).toNat = n.toNat / 2 := BitVec.toNat_udiv
  have hsum : n.toNat + n.toNat / 2 = 3 * n.toNat / 2 := by omega
  have hplace : (n + n / 2).toNat = 3 * n.toNat / 2 := by
    rw [BitVec.toNat_add, hhalf, hsum]
    omega
  have hposition : (fatPosition root n).toNat =
      root.fatBegin.toNat + 3 * n.toNat / 2 := by
    unfold fatPosition
    rw [add64_toNat_of_lt hroot, Uint64.toNat_init64, hplace]
    omega
  have hword : wordAt (v.seek (fatPosition root n)).data 0 =
      wordAt v.image (root.fatBegin.toNat + 3 * n.toNat / 2) := by
    unfold wordAt Volume.data Volume.seek
    dsimp only
    rw [hposition, Nat.mod_eq_of_lt (by omega), Nat.mod_eq_of_lt (by omega)]
    rfl
  unfold tableEntry entryOfWord
  rw [← hword]
  rfl

/-!
# Counting down
-/

def Uint64.High (w : Uint64) : Prop :=
  w.i1 ≠ 0 ∨ w.i2 ≠ 0 ∨ w.i3 ≠ 0

instance (w : Uint64) : Decidable (Uint64.High w) :=
  inferInstanceAs (Decidable (_ ∨ _ ∨ _))

theorem toNat_of_not_high {w : Uint64} (hw : ¬ Uint64.High w) :
    w.toNat = w.i0.toNat := by
  unfold Uint64.High at hw
  push Not at hw
  unfold Uint64.toNat
  rw [hw.1, hw.2.1, hw.2.2]
  rfl

theorem high_of_le {w : Uint64} (hw : 65536 ≤ w.toNat) : Uint64.High w := by
  by_contra hnot
  have hlt := w.i0.isLt
  rw [toNat_of_not_high hnot] at hw
  omega

theorem not_high_of_lt {w : Uint64} (hw : w.toNat < 65536) :
    ¬ Uint64.High w := by
  have hzero : forall x : Word, x.toNat = 0 -> x = 0 :=
    fun x hx => BitVec.eq_of_toNat_eq hx
  unfold Uint64.toNat at hw
  unfold Uint64.High
  rw [hzero w.i1 (by omega), hzero w.i2 (by omega), hzero w.i3 (by omega)]
  decide

theorem borrowOf_top (x : Word) : borrowOf x 0xffff = 0 := by
  have hle : ¬ (0xffff : Word) < x := by
    rw [BitVec.lt_def]
    have hlt := x.isLt
    change ¬ 65535 < x.toNat
    omega
  exact if_neg hle

theorem borrowOf_low (x : Word) : borrowOf x (0 - 0) = if x = 0 then 0 else 1 := by
  unfold borrowOf
  split
  case isTrue hpos =>
      rw [if_neg]
      intro hzero
      rw [hzero] at hpos
      exact absurd hpos (by decide)
  case isFalse hnot =>
      rw [if_pos]
      rw [BitVec.lt_def] at hnot
      apply BitVec.eq_of_toNat_eq
      change x.toNat = 0
      change ¬ 0 < x.toNat at hnot
      omega

theorem dec64_eq (w : Uint64) :
    dec64 w =
      let c := if w.i1 = 0 then (0 : Word) else 1
      ⟨w.i0 + 0xffff, w.i1, w.i2 + (0 - c),
        w.i3 + (0 - borrowOf (w.i2 + (0 - c)) (0 - c))⟩ := by
  have hstay : w.i1 + (0 - 0) = w.i1 := BitVec.add_zero _
  unfold dec64
  dsimp only
  rw [borrowOf_top, hstay, borrowOf_low]

/-- A number that takes more than one word is never counted down to zero. -/
theorem high_dec64 {w : Uint64} (hw : Uint64.High w) :
    Uint64.High (dec64 w) := by
  rw [dec64_eq]
  unfold Uint64.High at hw ⊢
  dsimp only
  rcases Decidable.em (w.i1 = 0) with hone | hone
  · have hstay : w.i2 + (0 - 0) = w.i2 := BitVec.add_zero _
    rw [if_pos hone, hstay]
    rcases Decidable.em (w.i2 = 0) with htwo | htwo
    · rcases hw with hfirst | hsecond | hthird
      · exact absurd hone hfirst
      · exact absurd htwo hsecond
      · right
        right
        rw [htwo]
        have hlast : w.i3 + 0 = w.i3 := BitVec.add_zero _
        change w.i3 + 0 ≠ 0
        rwa [hlast]
    · exact Or.inr (Or.inl htwo)
  · exact Or.inl hone

theorem dec64_toNat {w : Uint64} (hlow : ¬ Uint64.High w) (hpos : 0 < w.toNat) :
    (dec64 w).toNat = w.toNat - 1 ∧ ¬ Uint64.High (dec64 w) := by
  have hvalue := toNat_of_not_high hlow
  have hw := hlow
  unfold Uint64.High at hw
  push Not at hw
  have hdec : dec64 w = ⟨w.i0 + 0xffff, 0, 0, 0⟩ := by
    rw [dec64_eq, hw.1, hw.2.1, hw.2.2]
    rfl
  have hnot : ¬ Uint64.High (dec64 w) := by
    rw [hdec]
    intro hhigh
    rcases hhigh with hone | htwo | hthree
    · exact hone rfl
    · exact htwo rfl
    · exact hthree rfl
  refine ⟨?_, hnot⟩
  rw [toNat_of_not_high hnot, hvalue, hdec]
  have hlt := w.i0.isLt
  change (w.i0 + 0xffff).toNat = w.i0.toNat - 1
  rw [BitVec.toNat_add]
  change (w.i0.toNat + 65535) % 65536 = w.i0.toNat - 1
  omega

/-!
# Turns of the loop
-/

def fatReadLoop (root : FatGeometry) (endOffset count : Word) (n : Nat)
    (x : FatRead) : Result FatRead :=
  whileLoop .hang
    (fun x => decide (x.completed < count ∧ x.currentCluster < 0xff7))
    (fun x => .ok (fatReadTurn root endOffset count x)) n x

section Turns

variable {root : FatGeometry} {endOffset count : Word} {x : FatRead} {n : Nat}

theorem fatReadLoop_turn (hc : x.completed < count)
    (hcluster : x.currentCluster < 0xff7) :
    fatReadLoop root endOffset count (n + 1) x =
      fatReadLoop root endOffset count n (fatReadTurn root endOffset count x) :=
  whileLoop_turn n (decide_eq_true ⟨hc, hcluster⟩) rfl

theorem fatReadLoop_done (h : count ≤ x.completed ∨ 0xff7 ≤ x.currentCluster) :
    fatReadLoop root endOffset count n x = .ok x := by
  apply whileLoop_done
  apply decide_eq_false
  intro hboth
  rcases h with hc | hcluster
  · exact absurd hboth.1 (BitVec.not_lt.mpr hc)
  · exact absurd hboth.2 (BitVec.not_lt.mpr hcluster)

theorem fatReadTurn_pass (hroot : root.fatBegin.toNat < 2 ^ 31)
    (hcluster : x.currentCluster < 0xff7) (hleft : x.wholeClustersLeft.toNat ≠ 0) :
    exists v, v.image = x.volume.image ∧ forall buffer,
      fatReadTurn root endOffset count { x with buffer := buffer } =
        { x with
          volume := v
          wholeClustersLeft := dec64 x.wholeClustersLeft
          currentCluster := tableEntry x.volume.image root x.currentCluster
          buffer := buffer } := by
  have hne : cmp64_16 x.wholeClustersLeft 0 ≠ 0 :=
    fun hzero => hleft (cmp64_16_zero_iff.mp hzero)
  have hnext := nextCluster_eq hroot x.volume hcluster
  refine ⟨_, hnext.2, ?_⟩
  intro buffer
  rw [← hnext.1]
  exact if_pos hne

structure Passed (root : FatGeometry) (start : Word) (x y : FatRead) (i : Nat) :
    Prop where
  image : y.volume.image = x.volume.image
  cluster : y.currentCluster = chain x.volume.image root start i
  offset : y.clusterOffset = x.clusterOffset
  completed : y.completed = x.completed

theorem passes (hroot : root.fatBegin.toNat < 2 ^ 31) {start : Word} {i : Nat}
    (hc : x.completed < count)
    (hcluster : x.currentCluster = chain x.volume.image root start i) {m : Nat}
    (hchain : forall j, j < m ->
      chain x.volume.image root start (i + j) < 0xff7)
    (hleft : Uint64.High x.wholeClustersLeft ∨ m ≤ x.wholeClustersLeft.toNat) :
    exists y, (forall buffer n,
        fatReadLoop root endOffset count (n + m) { x with buffer := buffer } =
          fatReadLoop root endOffset count n { y with buffer := buffer }) ∧
      Passed root start x y (i + m) ∧
      (Uint64.High x.wholeClustersLeft -> Uint64.High y.wholeClustersLeft) ∧
      (¬ Uint64.High x.wholeClustersLeft ->
        y.wholeClustersLeft.toNat = x.wholeClustersLeft.toNat - m) := by
  induction m generalizing x i with
  | zero =>
      exact ⟨x, fun _ _ => rfl, ⟨rfl, hcluster, rfl, rfl⟩, id, fun _ => rfl⟩
  | succ m ih =>
      have hlt : x.currentCluster < 0xff7 := by
        rw [hcluster]
        exact hchain 0 (Nat.zero_lt_succ m)
      have hpos : x.wholeClustersLeft.toNat ≠ 0 := by
        rcases hleft with hhigh | hle
        · intro hzero
          exact not_high_of_lt (by omega) hhigh
        · omega
      rcases @fatReadTurn_pass root endOffset count x hroot hlt hpos with
        ⟨v, himage, hturn⟩
      generalize ht : ({ x with
        volume := v
        wholeClustersLeft := dec64 x.wholeClustersLeft
        currentCluster := tableEntry x.volume.image root x.currentCluster } :
          FatRead) = t
      have hstep : forall buffer n,
          fatReadLoop root endOffset count (n + 1) { x with buffer := buffer } =
            fatReadLoop root endOffset count n { t with buffer := buffer } := by
        intro buffer n
        rw [@fatReadLoop_turn root endOffset count { x with buffer := buffer } n
          hc hlt, hturn buffer, ← ht]
      have hsame : t.volume.image = x.volume.image := by
        rw [← ht]
        exact himage
      have hnext : t.currentCluster = chain x.volume.image root start (i + 1) := by
        rw [← ht]
        change tableEntry x.volume.image root x.currentCluster = _
        rw [hcluster]
        rfl
      have hwhole : t.wholeClustersLeft = dec64 x.wholeClustersLeft := by
        rw [← ht]
      have hcount : t.completed = x.completed := by
        rw [← ht]
      have hgo : Uint64.High t.wholeClustersLeft ∨
          m ≤ t.wholeClustersLeft.toNat := by
        rw [hwhole]
        rcases Decidable.em (Uint64.High x.wholeClustersLeft) with hhigh | hlow
        · exact Or.inl (high_dec64 hhigh)
        · rw [(dec64_toNat hlow (by omega)).1]
          rcases hleft with hhigh | hle
          · exact absurd hhigh hlow
          · right
            omega
      rcases ih (x := t) (i := i + 1) (by rwa [hcount]) (by rw [hsame, hnext])
        (by
          intro j hj
          have hle := hchain (j + 1) (by omega)
          rw [hsame]
          rwa [show i + 1 + j = i + (j + 1) by omega]) hgo with
        ⟨y, hrun, hpassed, hhigh, hcounted⟩
      refine ⟨y, ?_, ?_, ?_, ?_⟩
      · intro buffer n
        rw [← hrun buffer n, ← hstep buffer (n + m)]
        rfl
      · rcases hpassed with ⟨himg, hcl, hoff, hcomp⟩
        rw [hsame] at himg hcl
        rw [show i + (m + 1) = i + 1 + m by omega]
        refine ⟨himg, hcl, ?_, ?_⟩
        · rw [hoff, ← ht]
        · rw [hcomp, ← ht]
      · intro h
        apply hhigh
        rw [hwhole]
        exact high_dec64 h
      · intro h
        have hdec := dec64_toNat h (by omega)
        rw [hcounted (by rw [hwhole]; exact hdec.2), hwhole, hdec.1]
        omega

/-!
# Reading
-/

def partsOf (root : FatGeometry) (endOffset count : Word) : PartsOf where
  cluster := 2 ^ root.clusterPot.toNat
  endOffset := endOffset.toNat
  count := count.toNat

theorem clusterPart_toNat (hpot : root.clusterPot.toNat ≤ 15)
    (hend : endOffset.toNat < 2 ^ root.clusterPot.toNat)
    (ho : x.clusterOffset.toNat < 2 ^ root.clusterPot.toNat)
    (hd : x.completed < count) {next : Word} {left : Nat}
    (hlast : 0xff8 ≤ next <-> left = 0) :
    (clusterPart root endOffset count x next).toNat =
      (partsOf root endOffset count).size left x.clusterOffset.toNat
        x.completed.toNat := by
  have hlt : 2 ^ root.clusterPot.toNat ≤ 2 ^ 15 :=
    Nat.pow_le_pow_right (by decide) hpot
  have hcluster := one_shl_toNat (k := root.clusterPot.toNat) (by omega)
  have hrest : (((1 : Word) <<< root.clusterPot.toNat) - x.clusterOffset).toNat =
      2 ^ root.clusterPot.toNat - x.clusterOffset.toNat := by
    rw [BitVec.toNat_sub, hcluster]
    omega
  have hwhole : x.clusterOffset +
      (((1 : Word) <<< root.clusterPot.toNat) - x.clusterOffset) =
        (1 : Word) <<< root.clusterPot.toNat := by
    rw [BitVec.add_comm, BitVec.sub_add_cancel]
  have hcount : (count - x.completed).toNat =
      count.toNat - x.completed.toNat := by
    rw [BitVec.lt_def] at hd
    rw [BitVec.toNat_sub]
    omega
  have hends : endOffset < ((1 : Word) <<< root.clusterPot.toNat) := by
    rw [BitVec.lt_def, hcluster]
    exact hend
  have hmin : forall a b : Word, (if a < b then a else b).toNat =
      min b.toNat a.toNat := by
    intro a b
    split
    case isTrue hlt =>
        rw [BitVec.lt_def] at hlt
        omega
    case isFalse hnot =>
        rw [BitVec.lt_def] at hnot
        omega
  unfold clusterPart partSize
  dsimp only
  rw [hmin, hcount, hwhole]
  unfold PartsOf.size partsOf
  dsimp only
  rcases Nat.eq_zero_or_pos left with hzero | hpos
  · rw [if_pos ⟨hlast.mpr hzero, hends⟩, if_pos hzero, BitVec.toNat_sub]
    congr 1
    omega
  · have hnot : ¬ (0xff8 ≤ next ∧ endOffset < ((1 : Word) <<< root.clusterPot.toNat)) := by
      intro hboth
      have hzero := hlast.mp hboth.1
      omega
    rw [if_neg hnot, if_neg (by omega), hrest]

def readTurn (x : FatRead) (next size : Word) (v : Volume) : FatRead where
  volume := v.advance size
  wholeClustersLeft := x.wholeClustersLeft
  clusterOffset := 0
  currentCluster := next
  completed := x.completed + (size &&& fileIoResultSizeMask)
  buffer := writeRun (fun i => x.completed.toNat + i) v.data size.toNat x.buffer

theorem fatReadTurn_read (hroot : root.fatBegin.toNat < 2 ^ 31)
    (hcluster : x.currentCluster < 0xff7) (hleft : x.wholeClustersLeft.toNat = 0) :
    exists v, v.image = x.volume.image ∧
      (v.data = fun j => x.volume.image
        (((clusterPosition root x.currentCluster).toNat +
          (x.clusterOffset.toNat + j)) % 2 ^ 64)) ∧
      forall buffer, fatReadTurn root endOffset count { x with buffer := buffer } =
        readTurn { x with buffer := buffer }
          (tableEntry x.volume.image root x.currentCluster)
          (clusterPart root endOffset count x
            (tableEntry x.volume.image root x.currentCluster)) v := by
  have hnext := nextCluster_eq hroot x.volume hcluster
  have hzero : ¬ cmp64_16 x.wholeClustersLeft 0 ≠ 0 :=
    fun hne => hne (cmp64_16_zero_iff.mpr hleft)
  refine ⟨(nextCluster root x.volume x.currentCluster).2.seek
    (add64_16 (clusterPosition root x.currentCluster) x.clusterOffset), rfl, ?_, ?_⟩
  · funext j
    change x.volume.image (((add64_16 (clusterPosition root x.currentCluster)
      x.clusterOffset).toNat + j) % 2 ^ 64) = _
    rw [add64_16_toNat, Nat.mod_add_mod, Nat.add_assoc]
  · intro buffer
    rw [← hnext.1]
    exact if_neg hzero

theorem counted_toNat {size : Word} (hd : x.completed < count)
    (hsize : size.toNat ≤ count.toNat - x.completed.toNat) :
    (x.completed + (size &&& fileIoResultSizeMask)).toNat =
      x.completed.toNat + size.toNat % 4096 := by
  have hmask : (size &&& fileIoResultSizeMask).toNat = size.toNat % 4096 := by
    rw [BitVec.toNat_and]
    exact Nat.and_two_pow_sub_one_eq_mod _ 12
  have hlt := count.isLt
  have hmod := Nat.mod_le size.toNat 4096
  rw [BitVec.lt_def] at hd
  rw [BitVec.toNat_add, hmask]
  omega

theorem reads (hroot : root.fatBegin.toNat < 2 ^ 31)
    (hpot : root.clusterPot.toNat ≤ 15)
    (hend : endOffset.toNat < 2 ^ root.clusterPot.toNat) {start : Word}
    {left i : Nat} (hleft : x.wholeClustersLeft.toNat = 0)
    (ho : x.clusterOffset.toNat < 2 ^ root.clusterPot.toNat)
    (hcluster : x.currentCluster = chain x.volume.image root start i)
    (hchain : forall j, j < left ->
      chain x.volume.image root start (i + j) < 0xff7)
    (hlast : 0xff8 ≤ chain x.volume.image root start (i + left)) :
    exists y, fatReadLoop root endOffset count (n + left) x = .ok y ∧
      (y.completed.toNat, y.buffer) =
        readParts (partsOf root endOffset count)
          (clusterByte x.volume.image root start) left i x.clusterOffset.toNat
          x.completed.toNat x.buffer := by
  induction left generalizing x i with
  | zero =>
      refine ⟨x, fatReadLoop_done ?_, rfl⟩
      right
      rw [hcluster]
      exact BitVec.le_trans (by decide) hlast
  | succ left ih =>
      rcases Decidable.em (x.completed < count) with hd | hd
      · have hlt : x.currentCluster < 0xff7 := by
          rw [hcluster]
          exact hchain 0 (Nat.zero_lt_succ left)
        have hnext : tableEntry x.volume.image root x.currentCluster =
            chain x.volume.image root start (i + 1) := by
          rw [hcluster]
          rfl
        have hends : 0xff8 ≤ chain x.volume.image root start (i + 1) <->
            left = 0 := by
          constructor
          · intro hle
            by_contra hne
            have hlt := hchain 1 (by omega)
            exact absurd (BitVec.le_trans (by decide) hle)
              (BitVec.not_le.mpr hlt)
          · intro hzero
            subst hzero
            exact hlast
        have hpart := clusterPart_toNat hpot hend ho hd hends
        rcases @fatReadTurn_read root endOffset count x hroot hlt hleft with
          ⟨v, himage, hdata, hturn⟩
        rw [hnext] at hturn
        have hturn := hturn x.buffer
        generalize hsize : clusterPart root endOffset count x
          (chain x.volume.image root start (i + 1)) = size at hpart hturn
        have hle : size.toNat ≤ count.toNat - x.completed.toNat := by
          rw [hpart]
          exact Nat.min_le_right _ _
        have hcounted := counted_toNat hd hle
        have hstep := @fatReadLoop_turn root endOffset count x (n + left) hd hlt
        rw [hturn] at hstep
        rcases ih (x := readTurn x (chain x.volume.image root start (i + 1)) size v)
          (i := i + 1) hleft (Nat.two_pow_pos _)
          (by change _ = chain v.image root start (i + 1); rw [himage]; rfl)
          (by
            intro j hj
            have hlt := hchain (j + 1) (by omega)
            change chain v.image root start (i + 1 + j) < 0xff7
            rw [himage]
            rwa [show i + 1 + j = i + (j + 1) by omega])
          (by
            change 0xff8 ≤ chain v.image root start (i + 1 + left)
            rw [himage]
            rwa [show i + 1 + left = i + (left + 1) by omega]) with
          ⟨y, hrun, hy⟩
        refine ⟨y, hstep.trans hrun, ?_⟩
        rw [hy]
        have hcount : ¬ (partsOf root endOffset count).count ≤
            x.completed.toNat := by
          rw [BitVec.lt_def] at hd
          exact Nat.not_le.mpr hd
        conv_rhs => unfold readParts
        rw [if_neg hcount, ← hpart, ← hcounted]
        change readParts _ (clusterByte v.image root start) left (i + 1) 0
          (x.completed + (size &&& fileIoResultSizeMask)).toNat
          (writeRun (fun j => x.completed.toNat + j) v.data size.toNat x.buffer) =
            _
        rw [himage, hdata, hcluster]
        rfl
      · have hge : count ≤ x.completed := BitVec.not_lt.mp hd
        refine ⟨x, fatReadLoop_done (Or.inl hge), ?_⟩
        unfold readParts
        rw [if_pos]
        exact hge

/-!
# Loops that do not stop
-/

/-- The first cluster of a chain that is not one of the file is among the first
65536. -/
theorem chain_first {image : Bytes} {start : Word} {i : Nat}
    (hi : 0xff7 ≤ chain image root start i) :
    exists k, k ≤ i ∧ k < 65536 ∧ 0xff7 ≤ chain image root start k ∧
      forall j, j < k -> chain image root start j < 0xff7 := by
  have hnext : forall i j, (chain image root start i).toFin =
      (chain image root start j).toFin ->
        (chain image root start (i + 1)).toFin =
          (chain image root start (j + 1)).toFin := by
    intro i j h
    have heq : chain image root start i = chain image root start j :=
      BitVec.eq_of_toFin_eq h
    unfold chain
    rw [heq]
  rcases orbit_first hnext (p := fun w : Fin (2 ^ 16) => 0xff7 ≤ w.val) hi with
    ⟨k, hk, hcard, hend, hmin⟩
  rw [Fintype.card_fin] at hcard
  refine ⟨k, hk, hcard, hend, ?_⟩
  intro j hj
  exact Nat.not_le.mp (hmin j hj)

/-- A chain without end in front of a position that the count never reaches. -/
theorem passes_forever (hroot : root.fatBegin.toNat < 2 ^ 31) {start : Word}
    (hc : x.completed < count) (hcluster : x.currentCluster = start)
    (hhigh : Uint64.High x.wholeClustersLeft)
    (hchain : forall i, chain x.volume.image root start i < 0xff7) :
    fatReadLoop root endOffset count n x = .error .hang := by
  apply whileLoop_diverges (I := fun y : FatRead =>
    y.volume.image = x.volume.image ∧ y.completed < count ∧
      Uint64.High y.wholeClustersLeft ∧
        exists i, y.currentCluster = chain x.volume.image root start i)
  · intro y hy
    rcases hy with ⟨_, hd, _, i, hi⟩
    apply decide_eq_true
    refine ⟨hd, ?_⟩
    rw [hi]
    exact hchain i
  · intro y hy
    rcases hy with ⟨himage, hd, hw, i, hi⟩
    have hlt : y.currentCluster < 0xff7 := by
      rw [hi]
      exact hchain i
    have hpos : y.wholeClustersLeft.toNat ≠ 0 :=
      fun hzero => not_high_of_lt (by omega) hw
    rcases @fatReadTurn_pass root endOffset count y hroot hlt hpos with
      ⟨v, hv, hturn⟩
    refine ⟨_, rfl, ?_⟩
    rw [hturn y.buffer]
    refine ⟨hv.trans himage, hd, high_dec64 hw, i + 1, ?_⟩
    change tableEntry y.volume.image root y.currentCluster = _
    rw [himage, hi]
    rfl
  · exact ⟨rfl, hc, hhigh, 0, hcluster⟩

/-!
# The buffer

The buffer is written only, so what two buffers agree on stays the same.
-/

/-- The same state with another buffer that agrees at {lit}`t`. -/
def AgreeAt (t : Nat) (x y : FatRead) : Prop :=
  exists buffer, y = { x with buffer := buffer } ∧ buffer t = x.buffer t

theorem AgreeAt.turn {t : Nat} {y : FatRead} (h : AgreeAt t x y) :
    AgreeAt t (fatReadTurn root endOffset count x)
      (fatReadTurn root endOffset count y) := by
  rcases h with ⟨buffer, hy, hbuffer⟩
  subst hy
  rcases Decidable.em (cmp64_16 x.wholeClustersLeft 0 ≠ 0) with hpass | hread
  · have hx : fatReadTurn root endOffset count x = _ := if_pos hpass
    have hy : fatReadTurn root endOffset count { x with buffer := buffer } = _ :=
      if_pos hpass
    rw [hx, hy]
    exact ⟨buffer, rfl, hbuffer⟩
  · have hx : fatReadTurn root endOffset count x = _ := if_neg hread
    have hy : fatReadTurn root endOffset count { x with buffer := buffer } = _ :=
      if_neg hread
    rw [hx, hy]
    exact ⟨_, rfl, writeRun_agree hbuffer⟩

theorem fatReadLoop_agree {t : Nat} {y x' : FatRead} (h : AgreeAt t x y)
    (hrun : fatReadLoop root endOffset count n x = .ok x') :
    exists y', fatReadLoop root endOffset count n y = .ok y' ∧
      AgreeAt t x' y' := by
  refine whileLoop_related (R := AgreeAt t) ?_ ?_ h hrun
  · intro x y hxy
    rcases hxy with ⟨buffer, hy, _⟩
    rw [hy]
  · intro x y x' hxy _ hbody
    refine ⟨_, rfl, ?_⟩
    rw [← Except.ok.inj hbody]
    exact hxy.turn

end Turns

end Fs
end Rmmtos
