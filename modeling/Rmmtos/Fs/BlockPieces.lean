import Rmmtos.Fs.BlockRuns

/-!
# The pieces of a read

The loop of {lit}`blockfile_read` copies one piece of every block of its range.
The pieces fill the buffer and the range on the device without a gap, whatever
the cache and the heap are like.
-/

namespace Rmmtos
namespace Fs

open Library Kernel

/-- What a turn copies: a part of a block, and its place in the buffer. -/
structure Piece where
  block : Nat
  partBegin : Nat
  partSize : Nat
  done : Nat

def pieceOf (f : BlockFile) (beginBlock endBlock : Uint64) (size : Word)
    (x : BlockRead) : Piece where
  block := x.block.toNat
  partBegin := (blockPart f beginBlock endBlock size x).1.toNat
  partSize := (blockPart f beginBlock endBlock size x).2.toNat
  done := x.done.toNat

def Piece.inBuffer (p : Piece) : Nat × Nat :=
  (p.done, p.partSize)

def Piece.onDevice (k : Nat) (p : Piece) : Nat × Nat :=
  (p.block * k + p.partBegin, p.partSize)

/-- A turn points {lit}`tmp` to its block and writes the piece from there to the
buffer, which stays as it is everywhere else. -/
def CopiesPiece (f : BlockFile) (read : Uint64 -> Nat -> Byte) (blockFile : Word)
    (p : Piece) (x y : BlockRead) : Prop :=
  exists bufferUsed s,
    fetchBlock read f blockFile x.state x.block x.tmp = .ok (y.tmp, bufferUsed, s) ∧
    forall j, y.buffer j =
      if p.done ≤ j ∧ j < p.done + p.partSize then
        peek s.mem kernelSegment (offsetFrom y.tmp (p.partBegin + (j - p.done)))
      else x.buffer j

/-- A range of a device with blocks of {lit}`2 ^ e` bytes is split at the
borders of the blocks. -/
structure SplitAtBlocks (e position size : Nat) (pieces : List Piece) : Prop where
  count : pieces.length = (position + size - 1) >>> e - position >>> e + 1
  blocks : pieces.map Piece.block = List.range' (position >>> e) pieces.length
  inside : forall p, p ∈ pieces -> p.partBegin + p.partSize ≤ 2 ^ e
  buffer : Tiles (pieces.map Piece.inBuffer) 0 size
  device : Tiles (pieces.map (Piece.onDevice (2 ^ e))) position (position + size)

/-- The loop of a read has come to a state by turns that began in the states of
a list. -/
structure ReadLoop (f : BlockFile) (read : Uint64 -> Nat -> Byte)
    (blockFile : Word) (s : BlockState) (position : Uint64)
    (buffer : Nat -> Byte) (size : Word) (beginBlock endBlock : Uint64)
    (xs : List BlockRead) (x : BlockRead) : Prop where
  begins : exists o, shr64 position f.blockSizeExponent = .ok (o, beginBlock)
  ends : exists o, shr64 (add64 position (init64 0 0 0 (size - 1)))
    f.blockSizeExponent = .ok (o, endBlock)
  turns : Turns (blockReadGoes endBlock size)
    (blockReadTurn read f blockFile beginBlock endBlock size)
    ⟨s, position, beginBlock, 0, 0, none, buffer⟩ xs x

/-!
# The turns from a block on
-/

structure SplitFrom (r : Span) (b : Nat) (pieces : List Piece) : Prop where
  blocks : pieces.map Piece.block = List.range' b (r.last + 1 - b)
  inside : forall p, p ∈ pieces -> p.partBegin + p.partSize ≤ r.k
  buffer : Tiles (pieces.map Piece.inBuffer) (r.done b) r.size
  device : Tiles (pieces.map (Piece.onDevice r.k)) (r.position + r.done b)
    (r.position + r.size)

section Pieces

variable {f : BlockFile} {read : Uint64 -> Nat -> Byte} {blockFile : Word}
  {position : Uint64} {size : Word} {x : BlockRead} {b : Nat}
  {beginBlock endBlock : Uint64}

theorem SplitFrom.done {r : Span} (hin : r.Inside) :
    SplitFrom r (r.last + 1) [] := by
  refine ⟨?_, ?_, ?_, ?_⟩
  · rw [Nat.sub_self]
    rfl
  · intro p hp
    cases hp
  · exact r.done_end hin.k_pos hin.size_pos
  · exact congrArg (r.position + ·) (r.done_end hin.k_pos hin.size_pos)

theorem SplitFrom.piece {r : Span} {p : Piece} {pieces : List Piece}
    (hin : r.Inside) (hfirst : r.first ≤ b) (hlast : b ≤ r.last)
    (hblock : p.block = b) (hbegin : p.partBegin = r.begins b)
    (hsize : p.partSize = r.done (b + 1) - r.done b) (hdone : p.done = r.done b)
    (h : SplitFrom r (b + 1) pieces) : SplitFrom r b (p :: pieces) := by
  have hplace := r.place hin.k_pos hin.size_pos hfirst hlast
  have hpart := r.part hin.k_pos hin.size_pos hfirst hlast
  have hless := r.done_lt hin.k_pos hin.size_pos hlast
  have hnext : r.done b + p.partSize = r.done (b + 1) := by
    rw [hsize]
    exact Nat.add_sub_cancel' hpart.1
  have hsome : 0 < p.partSize := by
    rw [hsize, hpart.2.2]
    split
    · exact Nat.sub_pos_of_lt hless
    · exact Nat.sub_pos_of_lt hplace.2
  refine ⟨?_, ?_, ?_, ?_⟩
  · rw [List.map_cons, h.blocks, hblock,
      show r.last + 1 - b = (r.last + 1 - (b + 1)) + 1 by omega]
    rfl
  · intro q hq
    cases hq with
    | head =>
        rw [hbegin, hsize]
        exact hpart.2.1
    | tail _ hq => exact h.inside q hq
  · refine ⟨hdone, hsome, ?_⟩
    have hbuffer := h.buffer
    rw [← hnext] at hbuffer
    exact hbuffer
  · refine ⟨?_, hsome, ?_⟩
    · change p.block * r.k + p.partBegin = _
      rw [hblock, hbegin, hplace.1]
    · have hdevice := h.device
      rw [← hnext, ← Nat.add_assoc] at hdevice
      exact hdevice

theorem blockReadTurn_copies {y : BlockRead}
    (hrun : blockReadTurn read f blockFile beginBlock endBlock size x = .ok y) :
    CopiesPiece f read blockFile (pieceOf f beginBlock endBlock size x) x y := by
  rcases blockReadTurn_eq hrun with ⟨⟨tmp, bufferUsed, s⟩, hfetch, hcopy⟩
  refine ⟨bufferUsed, s, ?_, ?_⟩
  · rw [hcopy]
    exact hfetch
  · intro j
    rw [hcopy]
    change writeRun _ _ _ x.buffer j = _
    split
    · rename_i hin
      rcases Nat.exists_eq_add_of_le hin.1 with ⟨i, hj⟩
      subst hj
      have hi : i < (blockPart f beginBlock endBlock size x).2.toNat :=
        Nat.lt_of_add_lt_add_left hin.2
      refine (writeRun_at (fun i j _ _ h => Nat.add_left_cancel h) hi).trans ?_
      change peek s.mem kernelSegment (offsetFrom (tmp + _) i) = _
      rw [Nat.add_sub_cancel_left, ← offsetFrom_offsetFrom]
      unfold pieceOf
      unfold offsetFrom
      rw [BitVec.ofNat_toNat, BitVec.setWidth_eq]
      rfl
    · rename_i hout
      refine writeRun_other (fun i hi h => hout ?_)
      subst h
      exact ⟨Nat.le_add_right _ i, Nat.add_lt_add_left hi _⟩

theorem blockReadTurn_error {e : Stop}
    (hrun : blockReadTurn read f blockFile beginBlock endBlock size x =
      .error e) : malloc x.state.heap f.blockSize = .error e := by
  rcases error_bind_iff.mp hrun with hfetch | ⟨fetched, _, hcopy⟩
  · unfold fetchBlock at hfetch
    dsimp only at hfetch
    split at hfetch
    all_goals
      split at hfetch
      · rcases error_bind_iff.mp hfetch with hmalloc | ⟨r, _, hr⟩
        · exact hmalloc
        · cases hr
      · cases hfetch
  · cases hcopy

/-- From a block of the range on, the loop copies the pieces of the rest, or it
comes to a block that there is no memory for. -/
theorem turns_from (read : Uint64 -> Nat -> Byte) (blockFile : Word)
    (hin : (spanOf f position size).Inside)
    (hbegin : beginBlock.toNat = (spanOf f position size).first)
    (hend : endBlock.toNat = (spanOf f position size).last) {n : Nat}
    (hn : n = (spanOf f position size).last + 1 - b)
    (hfirst : (spanOf f position size).first ≤ b)
    (hlast : b ≤ (spanOf f position size).last + 1)
    (hx : ReadAt (spanOf f position size) x b) :
    exists xs y, Turns (blockReadGoes endBlock size)
        (blockReadTurn read f blockFile beginBlock endBlock size) x xs y ∧
      xs.length ≤ n ∧
      ((xs.length < n ∧ blockReadGoes endBlock size y = true ∧ exists e,
          malloc y.state.heap f.blockSize = .error e ∧
          blockReadTurn read f blockFile beginBlock endBlock size y = .error e) ∨
        ReadAt (spanOf f position size) y ((spanOf f position size).last + 1) ∧
          SplitFrom (spanOf f position size) b
            (xs.map (pieceOf f beginBlock endBlock size))) := by
  induction n generalizing b x with
  | zero =>
      have hb : b = (spanOf f position size).last + 1 := by omega
      subst hb
      exact ⟨[], x, Turns.none x, Nat.le_refl 0,
        Or.inr ⟨hx, SplitFrom.done hin⟩⟩
  | succ n ih =>
      have hle : b ≤ (spanOf f position size).last := by omega
      have hgoes := blockReadGoes_true hin hx hle hend
      cases hturn : blockReadTurn read f blockFile beginBlock endBlock size x with
      | error e =>
          exact ⟨[], x, Turns.none x, Nat.zero_le _,
            Or.inl ⟨Nat.succ_pos n, hgoes, e, blockReadTurn_error hturn, hturn⟩⟩
      | ok y =>
          rcases blockReadTurn_eq hturn with ⟨fetched, _, hcopy⟩
          have hnext := hx.next hin hfirst hle hbegin hend blockFile fetched
          rw [← hcopy] at hnext
          rcases ih (by omega) (by omega) (by omega) hnext with
            ⟨xs, z, hturns, hlength, hz⟩
          refine ⟨x :: xs, z, Turns.turn hgoes hturn hturns,
            Nat.succ_le_succ hlength, ?_⟩
          rcases hz with ⟨hless, hfail⟩ | ⟨hz, hsplit⟩
          · exact Or.inl ⟨Nat.succ_lt_succ hless, hfail⟩
          · right
            have hpart := blockPart_eq hin hx hfirst hle hbegin hend
            exact ⟨hz, hsplit.piece hin hfirst hle (hx.block_eq hin hle) hpart.1
              hpart.2 hx.done⟩

theorem SplitFrom.atBlocks {pieces : List Piece}
    (hin : (spanOf f position size).Inside)
    (h : SplitFrom (spanOf f position size) (spanOf f position size).first pieces) :
    SplitAtBlocks f.blockSizeExponent.toNat position.toNat size.toNat pieces := by
  have hle := (spanOf f position size).first_le_last.resolve_left
    (Nat.ne_of_gt hin.size_pos)
  have hfirst : position.toNat >>> f.blockSizeExponent.toNat =
      (spanOf f position size).first := Nat.shiftRight_eq_div_pow _ _
  have hlast : (position.toNat + size.toNat - 1) >>> f.blockSizeExponent.toNat =
      (spanOf f position size).last := Nat.shiftRight_eq_div_pow _ _
  have hlength := congrArg List.length h.blocks
  rw [List.length_map, List.length_range'] at hlength
  have hbuffer := h.buffer
  have hdevice := h.device
  rw [Span.done_first hin.k_pos] at hbuffer hdevice
  refine ⟨?_, ?_, h.inside, hbuffer, hdevice⟩
  · rw [hlength, hfirst, hlast]
    omega
  · rw [h.blocks, hlength, hfirst]

/-- The loop of a read takes one turn for every block of its range, unless a
turn finds no memory for its block.  Every turn copies one piece, and the pieces
fill the range. -/
theorem read_splits_at_blocks (blockFile : Word) (s : BlockState)
    (buffer : Nat -> Byte) (hread : f.read = some read)
    (hexponent : f.blockSizeExponent.toNat ≤ 12) (hsize : 1 ≤ size.toNat)
    (hfits : position.toNat + size.toNat ≤ 2 ^ 64) :
    exists beginBlock endBlock xs x,
      ReadLoop f read blockFile s position buffer size beginBlock endBlock xs x ∧
      (xs ++ [x]).IsChain (fun y z => CopiesPiece f read blockFile
        (pieceOf f beginBlock endBlock size y) y z) ∧
      ((blockReadGoes endBlock size x = true ∧ exists e,
          malloc x.state.heap f.blockSize = .error e ∧
          blockfileRead f blockFile s position buffer size = .error e) ∨
        blockReadGoes endBlock size x = false ∧
          SplitAtBlocks f.blockSizeExponent.toNat position.toNat size.toNat
            (xs.map (pieceOf f beginBlock endBlock size)) ∧
          x.position.toNat = (position.toNat + size.toNat) % 2 ^ 64 ∧
          blockfileRead f blockFile s position buffer size =
            dropBlock x >>= fun s' => .ok ⟨size, s', x.position, x.buffer⟩) := by
  have hin := spanOf_inside f hsize hfits
  rcases shr64_eq position (n := f.blockSizeExponent) (by omega) with
    ⟨o, beginBlock, hshift, hbegin, _⟩
  rcases shr64_eq (add64 position (init64 0 0 0 (size - 1)))
    (n := f.blockSizeExponent) (by omega) with ⟨o', endBlock, hshift', hend, _⟩
  have hlast : endBlock.toNat = (spanOf f position size).last := by
    rw [hend, add64_before hsize hfits]
    rfl
  have hle := (spanOf f position size).first_le_last.resolve_left
    (Nat.ne_of_gt hin.size_pos)
  have hfew := (spanOf f position size).last_le_add hin.k_pos
  have hlt := hin.size_lt
  have hat := readAt_start f s buffer hin hbegin
  rcases turns_from read blockFile hin hbegin hlast rfl (Nat.le_refl _)
    (Nat.le_succ_of_le hle) hat with ⟨xs, x, hturns, hlength, hx⟩
  have hfuel : blockReadTurns = xs.length + (blockReadTurns - xs.length) := by
    unfold blockReadTurns wordCount
    omega
  have hrun := blockfileRead_eq blockFile s buffer hread hshift hshift'
  rw [hfuel, hturns.whileLoop] at hrun
  refine ⟨beginBlock, endBlock, xs, x, ⟨⟨o, hshift⟩, ⟨o', hshift'⟩, hturns⟩,
    hturns.chain fun y z _ => blockReadTurn_copies, ?_⟩
  rcases hx with ⟨hless, hgoes, e, hmalloc, hturn⟩ | ⟨hx, hsplit⟩
  · left
    refine ⟨hgoes, e, hmalloc, ?_⟩
    have hmore : blockReadTurns - xs.length =
        blockReadTurns - xs.length - 1 + 1 := by
      unfold blockReadTurns wordCount
      omega
    rw [hrun, hmore, whileLoop_fail _ hgoes hturn]
    rfl
  · right
    have hstop : blockReadGoes endBlock size x = false :=
      blockReadGoes_false hin hx
    refine ⟨hstop, hsplit.atBlocks hin, ?_, ?_⟩
    · rw [hx.position, Span.done_end hin.k_pos hin.size_pos]
      rfl
    · rw [hrun, whileLoop_done _ hstop]
      rfl

end Pieces

/-- A read across the border of two blocks of the small device. -/
theorem read_splits_at_blocks_small : exists beginBlock endBlock xs x,
    ReadLoop countingFile (fun block _ => block.i0.setWidth 8) 8 coldState
        (init64 0 0 0 500) (fun _ => 0) 100 beginBlock endBlock xs x ∧
      (xs ++ [x]).IsChain (fun y z =>
        CopiesPiece countingFile (fun block _ => block.i0.setWidth 8) 8
          (pieceOf countingFile beginBlock endBlock 100 y) y z) ∧
      ((blockReadGoes endBlock 100 x = true ∧ exists e,
          malloc x.state.heap countingFile.blockSize = .error e ∧
          blockfileRead countingFile 8 coldState (init64 0 0 0 500) (fun _ => 0)
            100 = .error e) ∨
        blockReadGoes endBlock 100 x = false ∧
          SplitAtBlocks countingFile.blockSizeExponent.toNat
            (init64 0 0 0 500).toNat (100 : Word).toNat
            (xs.map (pieceOf countingFile beginBlock endBlock 100)) ∧
          x.position.toNat =
            ((init64 0 0 0 500).toNat + (100 : Word).toNat) % 2 ^ 64 ∧
          blockfileRead countingFile 8 coldState (init64 0 0 0 500) (fun _ => 0)
            100 = dropBlock x >>= fun s' => .ok ⟨100, s', x.position, x.buffer⟩) :=
  read_splits_at_blocks 8 coldState (fun _ => 0) rfl (by decide) (by decide)
    (by decide)

end Fs
end Rmmtos
