import Rmmtos.Fs.BlockCache

/-!
# Reads of block files

A read goes through the blocks of its range one after the other.  It is right,
and the cache stays as it should be, when every block after the first one is in
the cache; the blocks that are not are taken for the one before.
-/

namespace Rmmtos
namespace Fs

open Library Kernel

/-!
# Ranges

The range of {lit}`size` bytes from {lit}`position` on, in blocks of {lit}`k`
bytes.
-/

structure Span where
  k : Nat
  position : Nat
  size : Nat

def Span.first (r : Span) : Nat :=
  r.position / r.k

def Span.last (r : Span) : Nat :=
  (r.position + r.size - 1) / r.k

def Span.done (r : Span) (b : Nat) : Nat :=
  min (max (b * r.k) r.position) (r.position + r.size) - r.position

def Span.begins (r : Span) (b : Nat) : Nat :=
  if b = r.first then r.position % r.k else 0

section Spans

variable {r : Span} {b : Nat}

theorem Span.first_le (hk : 0 < r.k) :
    r.first * r.k + r.position % r.k = r.position ∧ r.position % r.k < r.k :=
  ⟨Nat.div_add_mod' _ _, Nat.mod_lt _ hk⟩

theorem Span.last_le (hk : 0 < r.k) :
    r.last * r.k ≤ r.position + r.size - 1 ∧
      r.position + r.size - 1 < r.last * r.k + r.k := by
  have hdiv := Nat.div_add_mod' (r.position + r.size - 1) r.k
  have hmod := Nat.mod_lt (r.position + r.size - 1) hk
  unfold Span.last
  omega

theorem Span.last_le_add (hk : 0 < r.k) : r.last ≤ r.first + r.size := by
  have hfirst := r.first_le hk
  have hlast := r.last_le hk
  by_contra hmore
  have hle : (r.first + r.size + 1) * r.k ≤ r.last * r.k :=
    Nat.mul_le_mul_right _ (by omega)
  have hsize : r.size ≤ r.size * r.k := Nat.le_mul_of_pos_right _ hk
  rw [Nat.succ_mul, Nat.add_mul] at hle
  omega

theorem Span.done_first (hk : 0 < r.k) : r.done r.first = 0 := by
  have hfirst := r.first_le hk
  unfold Span.done
  omega

theorem Span.done_end (hk : 0 < r.k) (hsize : 0 < r.size) :
    r.done (r.last + 1) = r.size := by
  have hlast := r.last_le hk
  unfold Span.done
  rw [Nat.succ_mul]
  omega

theorem Span.done_lt (hk : 0 < r.k) (hsize : 0 < r.size) (hb : b ≤ r.last) :
    r.done b < r.size := by
  have hlast := r.last_le hk
  have hle : b * r.k ≤ r.last * r.k := Nat.mul_le_mul_right _ hb
  unfold Span.done
  omega

theorem Span.place (hk : 0 < r.k) (hsize : 0 < r.size) (hfirst : r.first ≤ b)
    (hlast : b ≤ r.last) :
    r.position + r.done b = b * r.k + r.begins b ∧ r.begins b < r.k := by
  have hbegin := r.first_le hk
  have hend := r.last_le hk
  have hle : b * r.k ≤ r.last * r.k := Nat.mul_le_mul_right _ hlast
  unfold Span.done Span.begins
  rcases Nat.lt_or_eq_of_le hfirst with hlt | heq
  · have hnext : (r.first + 1) * r.k ≤ b * r.k := Nat.mul_le_mul_right _ hlt
    rw [Nat.succ_mul] at hnext
    rw [if_neg (by omega)]
    omega
  · subst heq
    rw [if_pos rfl]
    omega

theorem Span.part (hk : 0 < r.k) (hsize : 0 < r.size) (hfirst : r.first ≤ b)
    (hlast : b ≤ r.last) :
    r.done b ≤ r.done (b + 1) ∧
      r.begins b + (r.done (b + 1) - r.done b) ≤ r.k ∧
      r.done (b + 1) - r.done b =
        if b = r.last then r.size - r.done b else r.k - r.begins b := by
  have hplace := r.place hk hsize hfirst hlast
  have hend := r.last_le hk
  rcases Nat.lt_or_eq_of_le hlast with hlt | heq
  · have hnext : (b + 1) * r.k ≤ r.last * r.k := Nat.mul_le_mul_right _ hlt
    have hdone : r.done (b + 1) = (b + 1) * r.k - r.position := by
      unfold Span.done
      rw [Nat.succ_mul] at *
      omega
    rw [if_neg (by omega), hdone, Nat.succ_mul]
    omega
  · have hmore := r.done_lt hk hsize hlast
    rw [heq] at hplace hmore
    rw [if_pos heq, heq, r.done_end hk hsize]
    refine ⟨by omega, by omega, rfl⟩

end Spans

/-!
# Turns
-/

def spanOf (f : BlockFile) (position : Uint64) (size : Word) : Span where
  k := 2 ^ f.blockSizeExponent.toNat
  position := position.toNat
  size := size.toNat

/-- A range that is not empty and ends inside the 64-bit positions. -/
structure Span.Inside (r : Span) : Prop where
  k_pos : 0 < r.k
  k_le : r.k ≤ 32768
  size_pos : 0 < r.size
  size_lt : r.size < 65536
  fits : r.position + r.size ≤ 2 ^ 64

theorem spanOf_inside (f : BlockFile) {position : Uint64} {size : Word}
    (hsize : 0 < size.toNat) (hfits : position.toNat + size.toNat ≤ 2 ^ 64) :
    (spanOf f position size).Inside := by
  have hsmall := f.small
  refine ⟨Nat.two_pow_pos _, ?_, hsize, size.isLt, hfits⟩
  exact Nat.pow_le_pow_right (n := 2) (by decide)
    (show f.blockSizeExponent.toNat ≤ 15 by omega)

theorem Span.Inside.last_lt {r : Span} (h : r.Inside) : r.last < 2 ^ 64 := by
  have hle := Nat.div_le_self (r.position + r.size - 1) r.k
  have hfits := h.fits
  have hpos := h.size_pos
  unfold Span.last
  omega

theorem Span.first_le_last (r : Span) : r.size = 0 ∨ r.first ≤ r.last := by
  rcases Nat.eq_zero_or_pos r.size with hzero | hpos
  · exact Or.inl hzero
  · right
    apply Nat.div_le_div_right
    omega

structure ReadAt (r : Span) (x : BlockRead) (b : Nat) : Prop where
  block : x.block.toNat = b % 2 ^ 64
  position : x.position.toNat = (r.position + r.done b) % 2 ^ 64
  done : x.done.toNat = r.done b

section Turns

variable {f : BlockFile} {read : Uint64 -> Nat -> Byte} {blockFile : Word}
  {position : Uint64} {size : Word} {x : BlockRead} {b : Nat}
  {beginBlock endBlock : Uint64}

theorem ReadAt.block_eq {r : Span} (hx : ReadAt r x b) (hin : r.Inside)
    (hlast : b ≤ r.last) : x.block.toNat = b := by
  have hlt := hin.last_lt
  rw [hx.block, Nat.mod_eq_of_lt (by omega)]

theorem cmp64_block {r : Span} (hx : ReadAt r x b) (hin : r.Inside)
    (hlast : b ≤ r.last) {c : Uint64} :
    cmp64 x.block c = 0 <-> b = c.toNat := by
  rw [cmp64_zero_iff, ← hx.block_eq hin hlast]
  exact ⟨fun h => by rw [h], Uint64.eq_of_toNat_eq⟩

theorem offset_toNat (f : BlockFile) (position : Uint64) :
    (position.i0 &&& f.offsetMask).toNat =
      position.toNat % 2 ^ f.blockSizeExponent.toNat := by
  have hsmall := f.small
  rw [f.offsetMask_and]
  unfold Uint64.toNat
  rw [mod_step _ _ (by omega)]

theorem blockPart_eq (hin : (spanOf f position size).Inside)
    (hx : ReadAt (spanOf f position size) x b)
    (hfirst : (spanOf f position size).first ≤ b)
    (hlast : b ≤ (spanOf f position size).last)
    (hbegin : beginBlock.toNat = (spanOf f position size).first)
    (hend : endBlock.toNat = (spanOf f position size).last) :
    (blockPart f beginBlock endBlock size x).1.toNat =
        (spanOf f position size).begins b ∧
      (blockPart f beginBlock endBlock size x).2.toNat =
        (spanOf f position size).done (b + 1) - (spanOf f position size).done b := by
  have hpart := (spanOf f position size).part hin.k_pos hin.size_pos hfirst hlast
  have hplace := (spanOf f position size).place hin.k_pos hin.size_pos hfirst hlast
  have hless := (spanOf f position size).done_lt hin.k_pos hin.size_pos hlast
  have hdone := hx.done
  have hbegins : (blockPart f beginBlock endBlock size x).1.toNat =
      (spanOf f position size).begins b := by
    unfold blockPart Span.begins
    dsimp only
    rcases Nat.lt_or_eq_of_le hfirst with hlt | heq
    · have hne : ¬ cmp64 x.block beginBlock = 0 := by
        rw [cmp64_block hx hin hlast, hbegin]
        omega
      rw [if_neg hne, if_neg (by omega)]
      rfl
    · have hsame : cmp64 x.block beginBlock = 0 := by
        rw [cmp64_block hx hin hlast, hbegin]
        exact heq.symm
      have hplace := hx.position
      rw [← heq, Span.done_first hin.k_pos, Nat.add_zero] at hplace
      have hposition : x.position.toNat = position.toNat :=
        hplace.trans (Nat.mod_eq_of_lt position.toNat_lt)
      rw [if_pos hsame, if_pos heq.symm, offset_toNat, hposition]
      rfl
  have hsize : (blockPart f beginBlock endBlock size x).2 =
      if cmp64 x.block endBlock = 0 then size - x.done
      else f.blockSize - (blockPart f beginBlock endBlock size x).1 := rfl
  have hk : (spanOf f position size).k = f.blockSize.toNat :=
    f.blockSize_toNat.symm
  have hn : (spanOf f position size).size = size.toNat := rfl
  refine ⟨hbegins, ?_⟩
  rw [hpart.2.2, hsize]
  rcases Nat.lt_or_eq_of_le hlast with hlt | heq
  · have hne : ¬ cmp64 x.block endBlock = 0 := by
      rw [cmp64_block hx hin hlast, hend]
      omega
    have hroom := f.blockSize.isLt
    rw [if_neg hne, if_neg (by omega), BitVec.toNat_sub, hbegins]
    omega
  · have hsame : cmp64 x.block endBlock = 0 := by
      rw [cmp64_block hx hin hlast, hend]
      exact heq
    have hroom := size.isLt
    rw [if_pos hsame, if_pos heq, BitVec.toNat_sub, hdone]
    omega

theorem ReadAt.next (hin : (spanOf f position size).Inside)
    (hx : ReadAt (spanOf f position size) x b)
    (hfirst : (spanOf f position size).first ≤ b)
    (hlast : b ≤ (spanOf f position size).last)
    (hbegin : beginBlock.toNat = (spanOf f position size).first)
    (hend : endBlock.toNat = (spanOf f position size).last) (blockFile : Word)
    (fetched : Word × Option (Fin cachedBlocks) × BlockState) :
    ReadAt (spanOf f position size) (copyPart blockFile x
      (blockPart f beginBlock endBlock size x) fetched) (b + 1) := by
  have hpart := blockPart_eq hin hx hfirst hlast hbegin hend
  have hmore := ((spanOf f position size).part hin.k_pos hin.size_pos hfirst
    hlast).1
  have hle : (spanOf f position size).done (b + 1) ≤ size.toNat := by
    unfold Span.done
    change min _ (_ + size.toNat) - _ ≤ _
    omega
  generalize blockPart f beginBlock endBlock size x = part at hpart ⊢
  refine ⟨?_, ?_, ?_⟩
  · change (inc64 x.block).toNat = _
    rw [inc64_toNat, hx.block, Nat.mod_add_mod]
  · change (add64 x.position (init64 0 0 0 part.2)).toNat = _
    have hsmall := part.2.isLt
    rw [add64_toNat_of_lt (by rw [Uint64.toNat_init64]; omega),
      Uint64.toNat_init64, hx.position, Nat.mod_add_mod, hpart.2]
    congr 1
    omega
  · change (x.done + part.2).toNat = _
    have hroom := size.isLt
    rw [BitVec.toNat_add, hx.done, hpart.2]
    omega

theorem blockReadTurn_eq {y : BlockRead}
    (hrun : blockReadTurn read f blockFile beginBlock endBlock size x = .ok y) :
    exists fetched, fetchBlock read f blockFile x.state x.block x.tmp =
        .ok fetched ∧
      y = copyPart blockFile x (blockPart f beginBlock endBlock size x) fetched := by
  rcases ok_bind_iff.mp hrun with ⟨fetched, hfetch, hy⟩
  exact ⟨fetched, hfetch, (Except.ok.inj hy).symm⟩

def blockReadGoes (endBlock : Uint64) (size : Word) (x : BlockRead) : Bool :=
  decide (cmp64 x.block endBlock ≤ 0 ∧ x.done < size)

theorem blockReadGoes_true (hin : (spanOf f position size).Inside)
    (hx : ReadAt (spanOf f position size) x b)
    (hlast : b ≤ (spanOf f position size).last)
    (hend : endBlock.toNat = (spanOf f position size).last) :
    blockReadGoes endBlock size x = true := by
  apply decide_eq_true
  constructor
  · rw [cmp64_le_iff, hx.block_eq hin hlast, hend]
    exact hlast
  · rw [BitVec.lt_def, hx.done]
    exact (spanOf f position size).done_lt hin.k_pos hin.size_pos hlast

theorem blockReadGoes_false (hin : (spanOf f position size).Inside)
    (hx : ReadAt (spanOf f position size) x ((spanOf f position size).last + 1)) :
    blockReadGoes endBlock size x = false := by
  have hdone := hx.done
  rw [Span.done_end hin.k_pos hin.size_pos] at hdone
  apply decide_eq_false
  intro hboth
  have hlt := hboth.2
  rw [BitVec.lt_def, hdone] at hlt
  exact Nat.lt_irrefl _ hlt

theorem blockLoop_run (hin : (spanOf f position size).Inside)
    (hbegin : beginBlock.toNat = (spanOf f position size).first)
    (hend : endBlock.toNat = (spanOf f position size).last)
    {L : Nat -> BlockRead -> Prop}
    (hturn : forall b x, (spanOf f position size).first ≤ b ->
      b ≤ (spanOf f position size).last -> ReadAt (spanOf f position size) x b ->
        L b x -> exists y,
          blockReadTurn read f blockFile beginBlock endBlock size x = .ok y ∧
            L (b + 1) y)
    {n : Nat} (hfirst : (spanOf f position size).first ≤ b)
    (hlast : b ≤ (spanOf f position size).last + 1)
    (hn : (spanOf f position size).last + 1 - b ≤ n)
    (hx : ReadAt (spanOf f position size) x b) (hL : L b x) :
    exists y, whileLoop .hang (blockReadGoes endBlock size)
        (blockReadTurn read f blockFile beginBlock endBlock size) n x = .ok y ∧
      ReadAt (spanOf f position size) y ((spanOf f position size).last + 1) ∧
      L ((spanOf f position size).last + 1) y := by
  rcases Nat.lt_or_eq_of_le hlast with hlt | heq
  · induction n generalizing b x with
    | zero => omega
    | succ n ih =>
        have hle := Nat.le_of_lt_succ hlt
        rcases hturn b x hfirst hle hx hL with ⟨y, hy, hLy⟩
        rcases blockReadTurn_eq hy with ⟨fetched, _, hcopy⟩
        have hnext := hx.next hin hfirst hle hbegin hend blockFile fetched
        rw [← hcopy] at hnext
        rw [whileLoop_turn n (blockReadGoes_true hin hx hle hend) hy]
        rcases Nat.lt_or_eq_of_le hle with hmore | hdone
        · exact ih (by omega) (by omega) (by omega) hnext hLy (by omega)
        · rw [hdone] at hnext hLy
          exact ⟨y, whileLoop_done n (blockReadGoes_false hin hnext), hnext, hLy⟩
  · subst heq
    exact ⟨x, whileLoop_done n (blockReadGoes_false hin hx), hx, hL⟩

theorem add64_before (hsize : 1 ≤ size.toNat)
    (hfits : position.toNat + size.toNat ≤ 2 ^ 64) :
    (add64 position (init64 0 0 0 (size - 1))).toNat =
      position.toNat + size.toNat - 1 := by
  have hlt := size.isLt
  have hback : (size - 1).toNat = size.toNat - 1 := by
    bv_omega
  rw [add64_toNat_of_lt (by rw [Uint64.toNat_init64]; omega),
    Uint64.toNat_init64, hback, Nat.mod_eq_of_lt (by omega)]
  omega

theorem readAt_start (f : BlockFile) (s : BlockState) (buffer : Nat -> Byte)
    (hin : (spanOf f position size).Inside)
    (hbegin : beginBlock.toNat = (spanOf f position size).first) :
    ReadAt (spanOf f position size)
      ⟨s, position, beginBlock, 0, 0, none, buffer⟩
      (spanOf f position size).first := by
  refine ⟨?_, ?_, ?_⟩
  · dsimp only
    rw [← hbegin, Nat.mod_eq_of_lt beginBlock.toNat_lt]
  · rw [Span.done_first hin.k_pos]
    exact (Nat.mod_eq_of_lt position.toNat_lt).symm
  · rw [Span.done_first hin.k_pos]
    rfl

theorem blockfileRead_eq (blockFile : Word) (s : BlockState)
    (buffer : Nat -> Byte) (hread : f.read = some read) {o o' : Word}
    (hbegin : shr64 position f.blockSizeExponent = .ok (o, beginBlock))
    (hend : shr64 (add64 position (init64 0 0 0 (size - 1)))
      f.blockSizeExponent = .ok (o', endBlock)) :
    blockfileRead f blockFile s position buffer size =
      whileLoop .hang (blockReadGoes endBlock size)
        (blockReadTurn read f blockFile beginBlock endBlock size) blockReadTurns
        ⟨s, position, beginBlock, 0, 0, none, buffer⟩ >>= fun y =>
          dropBlock y >>= fun s' => .ok ⟨size, s', y.position, y.buffer⟩ := by
  unfold blockfileRead
  rw [hread]
  dsimp only
  rw [hbegin, ok_bind]
  dsimp only
  rw [hend, ok_bind]
  rfl

/-- The loop is not entered by a read of nothing, or of a range that goes behind
the last position. -/
theorem blockReadGoes_nothing (s : BlockState) (buffer : Nat -> Byte)
    {o o' : Word}
    (hshift : shr64 position f.blockSizeExponent = .ok (o, beginBlock))
    (hshift' : shr64 (add64 position (init64 0 0 0 (size - 1)))
      f.blockSizeExponent = .ok (o', endBlock))
    (h : size.toNat = 0 ∨ 2 ^ 64 < position.toNat + size.toNat) :
    blockReadGoes endBlock size
      ⟨s, position, beginBlock, 0, 0, none, buffer⟩ = false := by
  have hsmall := f.small
  rcases shr64_eq position (n := f.blockSizeExponent) (by omega) with
    ⟨_, _, heq, hbegin, _⟩
  rcases shr64_eq (add64 position (init64 0 0 0 (size - 1)))
    (n := f.blockSizeExponent) (by omega) with ⟨_, _, heq', hend, _⟩
  cases hshift.symm.trans heq
  cases hshift'.symm.trans heq'
  apply decide_eq_false
  intro hboth
  rcases hboth with ⟨hle, hlt⟩
  dsimp only at hle hlt
  rw [BitVec.lt_def] at hlt
  change 0 < size.toNat at hlt
  have hwrap := h.resolve_left (Nat.ne_of_gt hlt)
  have hlow := position.toNat_lt
  have hfew := size.isLt
  have hback : (size - 1).toNat = size.toNat - 1 := by
    bv_omega
  rw [cmp64_le_iff, hbegin, hend, add64_toNat_of_lt
    (by rw [Uint64.toNat_init64]; omega), Uint64.toNat_init64, hback] at hle
  have hpow : 2 ^ f.blockSizeExponent.toNat ≤ 2 ^ 15 :=
    Nat.pow_le_pow_right (by decide) (by omega)
  have hfar : position.toNat / 2 ^ 15 ≤
      position.toNat / 2 ^ f.blockSizeExponent.toNat :=
    Nat.div_le_div_left hpow (Nat.two_pow_pos _)
  have hnear := Nat.div_le_self
    ((position.toNat + (size.toNat - 1)) % 2 ^ 64)
    (2 ^ f.blockSizeExponent.toNat)
  omega

theorem blockfileRead_nothing (blockFile : Word) (s : BlockState)
    (buffer : Nat -> Byte) (hread : f.read = some read)
    (h : size.toNat = 0 ∨ 2 ^ 64 < position.toNat + size.toNat) :
    blockfileRead f blockFile s position buffer size =
      .ok ⟨size, s, position, buffer⟩ := by
  have hsmall := f.small
  rcases shr64_eq position (n := f.blockSizeExponent) (by omega) with
    ⟨_, beginBlock, hshift, _⟩
  rcases shr64_eq (add64 position (init64 0 0 0 (size - 1)))
    (n := f.blockSizeExponent) (by omega) with ⟨_, endBlock, hshift', _⟩
  rw [blockfileRead_eq blockFile s buffer hread hshift hshift',
    whileLoop_done _ (blockReadGoes_nothing s buffer hshift hshift' h)]
  rfl

theorem blockfileRead_none (blockFile : Word) (s : BlockState)
    (buffer : Nat -> Byte) (hread : f.read = none) :
    blockfileRead f blockFile s position buffer size =
      .ok ⟨0, s, position, buffer⟩ := by
  unfold blockfileRead
  rw [hread]

theorem blockfileRead_run (blockFile : Word) (s : BlockState)
    (buffer : Nat -> Byte) (hread : f.read = some read) (hin : (spanOf f position size).Inside)
    {L : Nat -> BlockRead -> Prop}
    (hstart : forall beginBlock endBlock x,
      ReadAt (spanOf f position size) x (spanOf f position size).first ->
      x.state = s -> x.tmp = 0 -> x.buffer = buffer ->
      beginBlock.toNat = (spanOf f position size).first ->
      endBlock.toNat = (spanOf f position size).last ->
        blockReadTurn read f blockFile beginBlock endBlock size x =
            panic .outOfMem ∨
          exists y, blockReadTurn read f blockFile beginBlock endBlock size x =
            .ok y ∧ L ((spanOf f position size).first + 1) y)
    (hturn : forall beginBlock endBlock b x,
      (spanOf f position size).first < b ->
      b ≤ (spanOf f position size).last -> ReadAt (spanOf f position size) x b ->
      beginBlock.toNat = (spanOf f position size).first ->
      endBlock.toNat = (spanOf f position size).last -> L b x ->
        exists y, blockReadTurn read f blockFile beginBlock endBlock size x =
          .ok y ∧ L (b + 1) y) :
    blockfileRead f blockFile s position buffer size = panic .outOfMem ∨
      exists y, ReadAt (spanOf f position size) y
          ((spanOf f position size).last + 1) ∧
        L ((spanOf f position size).last + 1) y ∧
        blockfileRead f blockFile s position buffer size =
          dropBlock y >>= fun s' => .ok ⟨size, s', y.position, y.buffer⟩ := by
  have hsmall := f.small
  have hsize : 1 ≤ size.toNat := hin.size_pos
  have hfits : position.toNat + size.toNat ≤ 2 ^ 64 := hin.fits
  rcases shr64_eq position (n := f.blockSizeExponent) (by omega) with
    ⟨_, beginBlock, hshift, hbegin, _⟩
  rcases shr64_eq (add64 position (init64 0 0 0 (size - 1)))
    (n := f.blockSizeExponent) (by omega) with ⟨_, endBlock, hshift', hend, _⟩
  have hlast : endBlock.toNat = (spanOf f position size).last := by
    rw [hend, add64_before hsize hfits]
    rfl
  have hrun := blockfileRead_eq blockFile s buffer hread hshift hshift'
  have hat := readAt_start f s buffer hin hbegin
  have hle := ((spanOf f position size).first_le_last).resolve_left
    (Nat.ne_of_gt hin.size_pos)
  have hturns : blockReadTurns = 131071 + 1 := rfl
  have hgoes := blockReadGoes_true hin hat hle hlast
  rcases hstart beginBlock endBlock _ hat rfl rfl rfl hbegin hlast with
    hpanic | ⟨x, hx, hL⟩
  · left
    rw [hrun, hturns, whileLoop_fail _ hgoes hpanic]
    rfl
  · right
    rcases blockReadTurn_eq hx with ⟨fetched, _, hcopy⟩
    have hnext := hat.next hin (Nat.le_refl _) hle hbegin hlast blockFile fetched
    rw [← hcopy] at hnext
    have hfew := (spanOf f position size).last_le_add hin.k_pos
    have hlt := hin.size_lt
    rcases blockLoop_run hin hbegin hlast (L := fun b x =>
        (spanOf f position size).first < b ∧ L b x)
      (by
        rintro b x _ hb hx ⟨hafter, hLx⟩
        rcases hturn beginBlock endBlock b x hafter hb hx hbegin hlast hLx with
          ⟨y, hy, hLy⟩
        exact ⟨y, hy, by omega, hLy⟩)
      (n := 131071) (Nat.le_succ _) (Nat.succ_le_succ hle) (by omega) hnext
      ⟨Nat.lt_succ_self _, hL⟩ with ⟨y, hy, hend, _, hLy⟩
    refine ⟨y, hend, hLy, ?_⟩
    rw [hrun, hturns, whileLoop_turn _ hgoes hx, hy]
    rfl

end Turns

end Fs
end Rmmtos
