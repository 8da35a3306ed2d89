import Rmmtos.Fs.BlockReads
import Rmmtos.Kernel.System

/-!
# Runs of reads

What the cache keeps over every run of reads, and what a read in a state of
such a run copies.
-/

namespace Rmmtos
namespace Fs

open Library Kernel

def deviceByte (f : BlockFile) (read : Uint64 -> Nat -> Byte) (q : Nat) : Byte :=
  read (Uint64.ofNat (q / 2 ^ f.blockSizeExponent.toNat))
    (q % 2 ^ f.blockSizeExponent.toNat)

def copiedBytes (f : BlockFile) (read : Uint64 -> Nat -> Byte) (position : Uint64)
    (buffer : Nat -> Byte) (d : Nat) : Nat -> Byte :=
  writeRun (fun j => j) (fun j => deviceByte f read (position.toNat + j)) d buffer

section Outcomes

variable {files : Word -> BlockFile} {s : BlockState}
  {label : Word -> Option BlockUser} {blockFile : Word} {x y : BlockRead}
  {read : Uint64 -> Nat -> Byte} {position : Uint64} {size : Word} {b : Nat}
  {beginBlock endBlock : Uint64} {buffer : Nat -> Byte}

/-- What the first turn leaves: the block was in the cache, or it was put into a
free slot, or no slot is free. -/
inductive FirstTurn (files : Word -> BlockFile) (s : BlockState)
    (blockFile : Word) (b : Nat) (y : BlockRead)
    (label : Word -> Option BlockUser) : Prop where
  | hit : Cached s blockFile b -> y.state = s -> y.bufferUsed ≠ none ->
      FirstTurn files s blockFile b y label
  | put (i : Fin cachedBlocks) (c : CachedBlock) : ¬ Cached s blockFile b ->
      (s.cachedBlock i).buffer = 0 -> c.buffer ≠ 0 ->
      y.state.cachedBlock = Function.update s.cachedBlock i c ->
      y.bufferUsed ≠ none -> FirstTurn files s blockFile b y label
  | kept : ¬ Cached s blockFile b -> Full s ->
      y.state.cachedBlock = s.cachedBlock ->
      label y.tmp = some (none,
        2 ^ (files blockFile).blockSizeExponent.toNat) ->
      FirstTurn files s blockFile b y label

/-- A turn points {lit}`tmp` to the bytes of its block. -/
def Points (f : BlockFile) (blockFile : Word) (part : Word × Word)
    (x y : BlockRead) : Prop :=
  exists fetched, y = copyPart blockFile x part fetched ∧
    Holds f fetched.2.2.mem fetched.1 x.block

theorem turn_hit (read : Uint64 -> Nat -> Byte) (beginBlock endBlock : Uint64)
    (size : Word) (hs : CacheInv files s label) (hfile : blockFile ≠ 0)
    (hx : x.state = s) (hcached : Cached s blockFile x.block.toNat) :
    exists y, blockReadTurn read (files blockFile) blockFile beginBlock endBlock
        size x = .ok y ∧
      y.state = s ∧ y.tmp ≠ 0 ∧ y.bufferUsed ≠ none ∧
      Points (files blockFile) blockFile
        (blockPart (files blockFile) beginBlock endBlock size x) x y := by
  have hsome : exists i, usedSlot s blockFile x.block = some i := by
    cases hslot : usedSlot s blockFile x.block with
    | none => exact absurd hcached (usedSlot_none.mp hslot)
    | some i => exact ⟨i, rfl⟩
  rcases hsome with ⟨i, hslot⟩
  rcases fetchBlock_hit read x.tmp hs hfile hslot with
    ⟨hfetch, hne, hholds⟩
  unfold blockReadTurn
  rw [hx, hfetch, ok_bind]
  exact ⟨_, rfl, rfl, hne, Option.some_ne_none i, _, rfl, hholds⟩

theorem turn_stale (files : Word -> BlockFile) (read : Uint64 -> Nat -> Byte)
    (beginBlock endBlock : Uint64) (size : Word) (hx : x.state = s) (htmp : x.tmp ≠ 0) (hfull : Full s)
    (hcached : ¬ Cached s blockFile x.block.toNat) :
    exists y, blockReadTurn read (files blockFile) blockFile beginBlock endBlock
        size x = .ok y ∧
      y.state = s ∧ y.tmp = x.tmp := by
  unfold blockReadTurn
  rw [hx, fetchBlock_stale (usedSlot_none.mpr hcached) htmp, ok_bind]
  refine ⟨_, rfl, ?_, rfl⟩
  unfold copyPart
  dsimp only
  rw [putBlock_none hfull]

theorem turn_first (beginBlock endBlock : Uint64) (size : Word)
    (hs : CacheInv files s label) (hfile : blockFile ≠ 0)
    (hread : (files blockFile).read = some read) (hx : x.state = s)
    (htmp : x.tmp = 0) :
    blockReadTurn read (files blockFile) blockFile beginBlock endBlock size x =
        panic .outOfMem ∨
      exists y label', blockReadTurn read (files blockFile) blockFile beginBlock
          endBlock size x = .ok y ∧
        CacheInv files y.state label' ∧ y.tmp ≠ 0 ∧
        FirstTurn files s blockFile x.block.toNat y label' ∧
        Points (files blockFile) blockFile
          (blockPart (files blockFile) beginBlock endBlock size x) x y := by
  by_cases hcached : Cached s blockFile x.block.toNat
  · right
    rcases turn_hit read beginBlock endBlock size hs hfile hx hcached with
      ⟨y, hy, hstate, hne, hused, hpoints⟩
    refine ⟨y, label, hy, ?_, hne, .hit hcached hstate hused, hpoints⟩
    rw [hstate]
    exact hs
  · rcases fetchBlock_new hs hread (usedSlot_none.mpr hcached) with
      hpanic | ⟨p, s', hfetch, hne, hsame, _, hinv, hholds⟩
    · left
      unfold blockReadTurn
      rw [hx, htmp, hpanic]
      rfl
    · right
      have hlabel : Function.update label p (some (none,
          2 ^ (files blockFile).blockSizeExponent.toNat)) p = _ :=
        Function.update_self ..
      have hturn : blockReadTurn read (files blockFile) blockFile beginBlock
          endBlock size x = .ok (copyPart blockFile x
            (blockPart (files blockFile) beginBlock endBlock size x)
              (p, none, s')) := by
        unfold blockReadTurn
        rw [hx, htmp, hfetch]
        rfl
      generalize blockPart (files blockFile) beginBlock endBlock size x = part at *
      have hstate : (copyPart blockFile x part (p, none, s')).state =
          (putBlock blockFile x.block (p, none, s')).2 := rfl
      have hused : (copyPart blockFile x part (p, none, s')).bufferUsed =
          (putBlock blockFile x.block (p, none, s')).1 := rfl
      rcases putBlock_new x.block hinv hne hlabel hholds with
        ⟨hput, hfull⟩ | ⟨i, s'', hput, hzero, hcache, hinv'⟩
      · rw [hput] at hstate hused
        dsimp only at hstate hused
        refine ⟨_, Function.update label p (some (none,
          2 ^ (files blockFile).blockSizeExponent.toNat)), hturn, ?_, hne, ?_,
          _, rfl, hholds⟩
        · rw [hstate]
          exact hinv
        · unfold Full at hfull
          rw [hsame] at hfull
          exact .kept hcached hfull (by rw [hstate, hsame]) hlabel
      · rw [hput] at hstate hused
        dsimp only at hstate hused
        rw [hsame] at hzero hcache
        rw [← hstate] at hinv'
        refine ⟨_, _, hturn, hinv', hne, ?_, _, rfl, hholds⟩
        refine .put i ⟨x.block, blockFile, p⟩ hcached hzero hne ?_ ?_
        · rw [hstate, hcache]
        · rw [hused]
          exact Option.some_ne_none i

theorem deviceByte_eq {f : BlockFile} {j : Nat} {block : Uint64}
    (hb : block.toNat = b) (hj : j < 2 ^ f.blockSizeExponent.toNat) :
    deviceByte f read (b * 2 ^ f.blockSizeExponent.toNat + j) = read block j := by
  have hpos := Nat.two_pow_pos f.blockSizeExponent.toNat
  have hblock : Uint64.ofNat b = block := by
    apply Uint64.eq_of_toNat_eq
    rw [Uint64.toNat_ofNat, ← hb]
    exact Nat.mod_eq_of_lt block.toNat_lt
  unfold deviceByte
  rw [Nat.mul_comm, Nat.mul_add_div hpos, Nat.mul_add_mod, Nat.div_eq_of_lt hj,
    Nat.mod_eq_of_lt hj, Nat.add_zero, hblock]

theorem Points.copied {f : BlockFile} (hread : f.read = some read)
    (hin : (spanOf f position size).Inside)
    (hx : ReadAt (spanOf f position size) x b)
    (hfirst : (spanOf f position size).first ≤ b)
    (hlast : b ≤ (spanOf f position size).last)
    (hbegin : beginBlock.toNat = (spanOf f position size).first)
    (hend : endBlock.toNat = (spanOf f position size).last)
    (hpoints : Points f blockFile (blockPart f beginBlock endBlock size x) x y)
    (hbuffer : x.buffer =
      copiedBytes f read position buffer ((spanOf f position size).done b)) :
    y.buffer = copiedBytes f read position buffer
      ((spanOf f position size).done (b + 1)) := by
  rcases hpoints with ⟨fetched, hy, content, hcontent, hbytes⟩
  rw [hread] at hcontent
  cases hcontent
  have hpart := blockPart_eq hin hx hfirst hlast hbegin hend
  have hspan := (spanOf f position size).part hin.k_pos hin.size_pos hfirst hlast
  have hplace := (spanOf f position size).place hin.k_pos hin.size_pos hfirst hlast
  have hblock := hx.block_eq hin hlast
  generalize blockPart f beginBlock endBlock size x = part at *
  have hsum : (spanOf f position size).done (b + 1) =
      (spanOf f position size).done b + part.2.toNat := by omega
  have hcopy : y.buffer = writeRun (fun i => x.done.toNat + i)
      (fun i => peek fetched.2.2.mem kernelSegment
        (offsetFrom (fetched.1 + part.1) i)) part.2.toNat x.buffer := by
    rw [hy]
    rfl
  rw [hcopy, hx.done, hbuffer, hsum]
  unfold copiedBytes
  rw [← writeRun_append (fun j => j)]
  apply writeRun_congr
  intro i hi
  have hoffset : offsetFrom (fetched.1 + part.1) i =
      offsetFrom fetched.1 (part.1.toNat + i) := by
    rw [offsetFrom_add]
    unfold offsetFrom
    rw [BitVec.ofNat_toNat, BitVec.setWidth_eq]
  have hinside : part.1.toNat + i < 2 ^ f.blockSizeExponent.toNat := by
    have hk : (spanOf f position size).k = 2 ^ f.blockSizeExponent.toNat := rfl
    omega
  have hposition : position.toNat + ((spanOf f position size).done b + i) =
      b * 2 ^ f.blockSizeExponent.toNat + (part.1.toNat + i) := by
    have hp : (spanOf f position size).position = position.toNat := rfl
    have hk : (spanOf f position size).k = 2 ^ f.blockSizeExponent.toNat := rfl
    rw [hp, hk] at hplace
    omega
  rw [hoffset, hbytes _ hinside, hposition, deviceByte_eq hblock hinside]

theorem FirstTurn.cached {label' : Word -> Option BlockUser}
    (h : FirstTurn files s blockFile b y label') (hs : CacheInv files s label)
    (hfile : blockFile ≠ 0) {c : Nat} (hc : Cached s blockFile c) :
    Cached y.state blockFile c := by
  cases h with
  | hit _ hstate _ =>
      rw [hstate]
      exact hc
  | put i _ _ hzero _ hcache _ =>
      rcases hc with ⟨j, hsame, hblock⟩
      have hne : j ≠ i := by
        intro hji
        rw [hji] at hsame
        exact hs.found hfile hsame hzero
      refine ⟨j, ?_, ?_⟩
      · rw [hcache, Function.update_of_ne hne]
        exact hsame
      · rw [hcache, Function.update_of_ne hne]
        exact hblock
  | kept _ _ hcache _ =>
      unfold Cached
      rw [hcache]
      exact hc

theorem FirstTurn.drop {label' : Word -> Option BlockUser}
    (h : FirstTurn files s blockFile b y label') (hnone : y.bufferUsed = none) :
    exists n, label' y.tmp = some (none, n) := by
  cases h with
  | hit _ _ hused => exact absurd hnone hused
  | put _ _ _ _ _ _ hused => exact absurd hnone hused
  | kept _ _ _ hlabel => exact ⟨_, hlabel⟩

/-- A read whose later blocks are all in the cache is right, and it keeps the
cache. -/
theorem blockfileRead_cached (hs : CacheInv files s label) (hfile : blockFile ≠ 0)
    (hread : (files blockFile).read = some read)
    (hin : (spanOf (files blockFile) position size).Inside)
    (hlater : forall c, (spanOf (files blockFile) position size).first < c ->
      c ≤ (spanOf (files blockFile) position size).last -> Cached s blockFile c) :
    blockfileRead (files blockFile) blockFile s position buffer size =
        panic .outOfMem ∨
      exists r label', blockfileRead (files blockFile) blockFile s position buffer
          size = .ok r ∧
        CacheInv files r.state label' ∧ r.size = size ∧
        r.buffer = copiedBytes (files blockFile) read position buffer size.toNat ∧
        r.position.toNat = (position.toNat + size.toNat) % 2 ^ 64 := by
  have hle := ((spanOf (files blockFile) position size).first_le_last).resolve_left
    (Nat.ne_of_gt hin.size_pos)
  rcases blockfileRead_run blockFile s buffer hread hin (L := fun b x => exists label',
      CacheInv files x.state label' ∧
      (forall c, (spanOf (files blockFile) position size).first < c ->
        c ≤ (spanOf (files blockFile) position size).last ->
          Cached x.state blockFile c) ∧
      (x.bufferUsed = none -> exists n, label' x.tmp = some (none, n)) ∧
      x.buffer = copiedBytes (files blockFile) read position buffer
        ((spanOf (files blockFile) position size).done b)) (by
        intro beginBlock endBlock x hx hstate htmp hbuffer hbegin hend
        rcases turn_first beginBlock endBlock size hs hfile hread hstate
          htmp with
          hpanic | ⟨y, label', hy, hinv, _, hfirst, hpoints⟩
        · exact Or.inl hpanic
        · right
          refine ⟨y, hy, label', hinv, ?_, hfirst.drop, ?_⟩
          · exact fun c hc hc' => hfirst.cached hs hfile (hlater c hc hc')
          · apply hpoints.copied hread hin hx (Nat.le_refl _) hle hbegin hend
            rw [hbuffer, Span.done_first hin.k_pos]
            rfl) (by
        rintro beginBlock endBlock b x hb hb' hx hbegin hend
          ⟨label', hinv, hcached, _, hbuffer⟩
        have hblock := hx.block_eq hin hb'
        have hhit := hcached b hb hb'
        rw [← hblock] at hhit
        rcases turn_hit read beginBlock endBlock size hinv hfile rfl hhit with
          ⟨y, hy, hstate, _, hused, hpoints⟩
        refine ⟨y, hy, label', ?_, ?_, ?_, ?_⟩
        · rw [hstate]
          exact hinv
        · rw [hstate]
          exact hcached
        · exact fun hnone => absurd hnone hused
        · exact hpoints.copied hread hin hx (Nat.le_of_lt hb) hb' hbegin hend
            hbuffer) with
    hpanic | ⟨y, hy, ⟨label', hinv, _, hdrop, hbuffer⟩, hrun⟩
  · exact Or.inl hpanic
  · right
    rcases dropBlock_keeps hinv hdrop with ⟨s', label'', hs', hinv', _⟩
    refine ⟨⟨size, s', y.position, y.buffer⟩, label'', ?_, hinv', rfl, ?_, ?_⟩
    · rw [hrun, hs']
      rfl
    · rw [Span.done_end hin.k_pos hin.size_pos] at hbuffer
      exact hbuffer
    · have hposition := hy.position
      rw [Span.done_end hin.k_pos hin.size_pos] at hposition
      exact hposition

/-- No slot is free once a block is in the cache. -/
def FullWith (s : BlockState) (blockFile : Word) (b : Nat) : Prop :=
  Full s ∨ ¬ Cached s blockFile b ∧
    exists i, forall j, j ≠ i -> (s.cachedBlock j).buffer ≠ 0

theorem FirstTurn.full {label' : Word -> Option BlockUser}
    (h : FirstTurn files s blockFile b y label')
    (hfull : FullWith s blockFile b) : Full y.state := by
  cases h with
  | hit hcached hstate _ =>
      rw [hstate]
      rcases hfull with hfull | ⟨hnot, _⟩
      · exact hfull
      · exact absurd hcached hnot
  | put i c _ hzero hc hcache _ =>
      intro j
      rw [hcache]
      rcases hfull with hfull | ⟨_, k, hk⟩
      · exact absurd hzero (hfull i)
      · by_cases hji : j = i
        · rw [hji, Function.update_self]
          exact hc
        · rw [Function.update_of_ne hji]
          have hik : i = k := by
            by_contra hne
            exact hk i hne hzero
          exact hk j (by rwa [← hik])
  | kept _ hfull hcache _ =>
      intro j
      rw [hcache]
      exact hfull j

/-- A full cache loses nothing when the read ends with a block of it. -/
theorem blockfileRead_full (hs : CacheInv files s label) (hfile : blockFile ≠ 0)
    (hread : (files blockFile).read = some read)
    (hin : (spanOf (files blockFile) position size).Inside)
    (hfull : FullWith s blockFile (spanOf (files blockFile) position size).first)
    (hlast : Cached s blockFile (spanOf (files blockFile) position size).last) :
    blockfileRead (files blockFile) blockFile s position buffer size =
        panic .outOfMem ∨
      exists r label', blockfileRead (files blockFile) blockFile s position buffer
          size = .ok r ∧ CacheInv files r.state label' := by
  have hle := ((spanOf (files blockFile) position size).first_le_last).resolve_left
    (Nat.ne_of_gt hin.size_pos)
  rcases blockfileRead_run blockFile s buffer hread hin (L := fun b x => exists label',
      CacheInv files x.state label' ∧ x.tmp ≠ 0 ∧ Full x.state ∧
      Cached x.state blockFile (spanOf (files blockFile) position size).last ∧
      (b ≤ (spanOf (files blockFile) position size).last ∨ x.bufferUsed ≠ none))
      (by
        intro beginBlock endBlock x hx hstate htmp _ _ _
        rcases turn_first beginBlock endBlock size hs hfile hread hstate
          htmp with
          hpanic | ⟨y, label', hy, hinv, hne, hfirst, _⟩
        · exact Or.inl hpanic
        · right
          rw [hx.block_eq hin hle] at hfirst
          refine ⟨y, hy, label', hinv, hne, hfirst.full hfull,
            hfirst.cached hs hfile hlast, ?_⟩
          rcases Nat.lt_or_eq_of_le hle with hlt | heq
          · exact Or.inl hlt
          · right
            rw [← heq] at hlast
            cases hfirst with
            | hit _ _ hused => exact hused
            | put _ _ hnot _ _ _ _ => exact absurd hlast hnot
            | kept hnot _ _ _ => exact absurd hlast hnot) (by
        rintro beginBlock endBlock b x hb hb' hx _ _
          ⟨label', hinv, htmp, hfull, hlast, _⟩
        have hblock := hx.block_eq hin hb'
        by_cases hcached : Cached x.state blockFile x.block.toNat
        · rcases turn_hit read beginBlock endBlock size hinv hfile rfl
            hcached with
            ⟨y, hy, hstate, hne, hused, _⟩
          refine ⟨y, hy, label', ?_, hne, ?_, ?_, Or.inr hused⟩
          · rw [hstate]
            exact hinv
          · rw [hstate]
            exact hfull
          · rw [hstate]
            exact hlast
        · rcases turn_stale files read beginBlock endBlock size rfl htmp hfull
            hcached with ⟨y, hy, hstate, hsame⟩
          refine ⟨y, hy, label', ?_, ?_, ?_, ?_, ?_⟩
          · rw [hstate]
            exact hinv
          · rw [hsame]
            exact htmp
          · rw [hstate]
            exact hfull
          · rw [hstate]
            exact hlast
          · left
            rw [hblock] at hcached
            by_contra hend
            have heq : b = (spanOf (files blockFile) position size).last := by
              omega
            rw [heq] at hcached
            exact hcached hlast) with
    hpanic | ⟨y, hy, ⟨label', hinv, _, _, _, hend⟩, hrun⟩
  · exact Or.inl hpanic
  · right
    have hused := hend.resolve_left (Nat.not_succ_le_self _)
    rcases dropBlock_keeps hinv (fun hnone => absurd hnone hused) with
      ⟨s', label'', hs', hinv', _⟩
    refine ⟨⟨size, s', y.position, y.buffer⟩, label'', ?_, hinv'⟩
    rw [hrun, hs']
    rfl

theorem blockfileRead_apart (hs : CacheInv files s label) (hfile : blockFile ≠ 0)
    (hread : (files blockFile).read = some read)
    (hin : (spanOf (files blockFile) position size).Inside) (hfull : Full s)
    (hapart : forall c, (spanOf (files blockFile) position size).first ≤ c ->
      c ≤ (spanOf (files blockFile) position size).last ->
        ¬ Cached s blockFile c) :
    blockfileRead (files blockFile) blockFile s position buffer size =
        panic .outOfMem ∨
      exists r label', blockfileRead (files blockFile) blockFile s position buffer
          size = .ok r ∧ CacheInv files r.state label' := by
  have hle := ((spanOf (files blockFile) position size).first_le_last).resolve_left
    (Nat.ne_of_gt hin.size_pos)
  rcases blockfileRead_run blockFile s buffer hread hin (L := fun _ x =>
      exists label', CacheInv files x.state label' ∧ x.tmp ≠ 0 ∧
        x.state.cachedBlock = s.cachedBlock ∧
        exists n, label' x.tmp = some (none, n)) (by
        intro beginBlock endBlock x hx hstate htmp _ _ _
        rcases turn_first beginBlock endBlock size hs hfile hread hstate htmp with
          hpanic | ⟨y, label', hy, hinv, hne, hfirst, _⟩
        · exact Or.inl hpanic
        · right
          rw [hx.block_eq hin hle] at hfirst
          cases hfirst with
          | hit hcached _ _ =>
              exact absurd hcached (hapart _ (Nat.le_refl _) hle)
          | put i _ _ hzero _ _ _ => exact absurd hzero (hfull i)
          | kept _ _ hcache hlabel =>
              exact ⟨y, hy, label', hinv, hne, hcache, _, hlabel⟩) (by
        rintro beginBlock endBlock b x hb hb' hx _ _
          ⟨label', hinv, htmp, hcache, hlabel⟩
        have hfull' : Full x.state := by
          intro i
          rw [hcache]
          exact hfull i
        have hnot : ¬ Cached x.state blockFile x.block.toNat := by
          unfold Cached
          rw [hx.block_eq hin hb', hcache]
          exact hapart b (Nat.le_of_lt hb) hb'
        rcases turn_stale files read beginBlock endBlock size rfl htmp hfull' hnot
          with ⟨y, hy, hstate, hsame⟩
        refine ⟨y, hy, label', ?_, ?_, ?_, ?_⟩
        · rw [hstate]
          exact hinv
        · rw [hsame]
          exact htmp
        · rw [hstate]
          exact hcache
        · rw [hsame]
          exact hlabel) with
    hpanic | ⟨y, hy, ⟨label', hinv, _, _, hlabel⟩, hrun⟩
  · exact Or.inl hpanic
  · right
    rcases dropBlock_keeps hinv (fun _ => hlabel) with ⟨s', label'', hs', hinv', _⟩
    refine ⟨⟨size, s', y.position, y.buffer⟩, label'', ?_, hinv'⟩
    rw [hrun, hs']
    rfl

end Outcomes

/-!
# Runs
-/

/-- A cache as it should be: a slot that is used has an allocated block of its
own, with the bytes of the device. -/
structure CacheValid (files : Word -> BlockFile) (s : BlockState) : Prop where
  taken : forall i, (s.cachedBlock i).buffer ≠ 0 -> exists b,
    s.heap.taken b = true ∧ s.heap.address b = (s.cachedBlock i).buffer
  distinct : forall i j, (s.cachedBlock i).buffer ≠ 0 ->
    (s.cachedBlock i).buffer = (s.cachedBlock j).buffer -> i = j
  holds : forall i, (s.cachedBlock i).buffer ≠ 0 ->
    Holds (files (s.cachedBlock i).blockFile) s.mem (s.cachedBlock i).buffer
      (s.cachedBlock i).block

theorem CacheInv.valid {files : Word -> BlockFile} {s : BlockState}
    {label : Word -> Option BlockUser} (hs : CacheInv files s label) :
    CacheValid files s := by
  refine ⟨?_, ?_, fun i hi => (hs.used i hi).holds⟩
  · intro i hi
    rcases hs.owned.taken _ _ (hs.used i hi).owned with ⟨b, hb, haddress, _⟩
    exact ⟨b, hb, haddress⟩
  · intro i j hi hij
    have hj : (s.cachedBlock j).buffer ≠ 0 := by
      rw [← hij]
      exact hi
    have hlabel := (hs.used j hj).owned
    rw [← hij, (hs.used i hi).owned] at hlabel
    exact Option.some.inj (Prod.mk.inj (Option.some.inj hlabel)).1

structure BeforeReads (s : BlockState) : Prop where
  heap : HeapInv s.heap
  pool_pos : 0 < s.heap.poolStart.toNat
  cache : s.cachedBlock = emptyCache

/-- A read of some file, of any size and at any position. -/
def ReadStep (files : Word -> BlockFile)
    (allowed : BlockState -> Word -> Uint64 -> Word -> Prop)
    (s s' : BlockState) : Prop :=
  exists blockFile position buffer size r, blockFile ≠ 0 ∧
    allowed s blockFile position size ∧
    blockfileRead (files blockFile) blockFile s position buffer size = .ok r ∧
    s' = r.state

/-- Every block after the first one is in the cache. -/
def LaterCached (files : Word -> BlockFile) (s : BlockState) (blockFile : Word)
    (position : Uint64) (size : Word) : Prop :=
  forall c, (spanOf (files blockFile) position size).first < c ->
    c ≤ (spanOf (files blockFile) position size).last -> Cached s blockFile c

/-- The reads that keep the cache as it should be: those of a file that cannot be
read, those of nothing, those whose later blocks are all in the cache, and those
with a full cache that end with a block of it or have none of their blocks in
it. -/
def ReadKeeps (files : Word -> BlockFile) (s : BlockState) (blockFile : Word)
    (position : Uint64) (size : Word) : Prop :=
  (files blockFile).read = none ∨
    size.toNat = 0 ∨ 2 ^ 64 < position.toNat + size.toNat ∨
    LaterCached files s blockFile position size ∨
    FullWith s blockFile (spanOf (files blockFile) position size).first ∧
      Cached s blockFile (spanOf (files blockFile) position size).last ∨
    Full s ∧ forall c, (spanOf (files blockFile) position size).first ≤ c ->
      c ≤ (spanOf (files blockFile) position size).last -> ¬ Cached s blockFile c

section Runs

variable {files : Word -> BlockFile} {s s' : BlockState}

theorem BeforeReads.inv (hs : BeforeReads s) :
    CacheInv files s (fun _ => none) := by
  refine ⟨⟨hs.heap, fun p o hp => by cases hp⟩, hs.pool_pos, ?_, ?_⟩
  · intro i _
    rw [hs.cache]
    rfl
  · intro i hi
    rw [hs.cache] at hi
    exact absurd rfl hi

theorem ReadStep.inv (hs : exists label, CacheInv files s label)
    (hstep : ReadStep files (ReadKeeps files) s s') :
    exists label, CacheInv files s' label := by
  rcases hs with ⟨label, hs⟩
  rcases hstep with ⟨blockFile, position, buffer, size, r, hfile, hkeeps, hrun, hr⟩
  rw [hr]
  cases hread : (files blockFile).read with
  | none =>
      rw [blockfileRead_none blockFile s buffer hread] at hrun
      rw [← Except.ok.inj hrun]
      exact ⟨label, hs⟩
  | some read =>
      by_cases hnothing : size.toNat = 0 ∨ 2 ^ 64 < position.toNat + size.toNat
      · rw [blockfileRead_nothing blockFile s buffer hread hnothing] at hrun
        rw [← Except.ok.inj hrun]
        exact ⟨label, hs⟩
      · push Not at hnothing
        have hin := spanOf_inside (files blockFile)
          (Nat.pos_of_ne_zero hnothing.1) hnothing.2
        have hkept : blockfileRead (files blockFile) blockFile s position buffer
              size = panic .outOfMem ∨
            exists r label', blockfileRead (files blockFile) blockFile s position
              buffer size = .ok r ∧ CacheInv files r.state label' := by
          rcases hkeeps with hnone | hzero | hwrap | hlater | ⟨hfull, hlast⟩ |
            ⟨hfull, hapart⟩
          · rw [hread] at hnone
            cases hnone
          · exact absurd hzero hnothing.1
          · exact absurd hnothing.2 (Nat.not_le.mpr hwrap)
          · rcases blockfileRead_cached hs hfile hread hin hlater with
              hpanic | ⟨r, label', hok, hinv, _⟩
            · exact Or.inl hpanic
            · exact Or.inr ⟨r, label', hok, hinv⟩
          · exact blockfileRead_full hs hfile hread hin hfull hlast
          · exact blockfileRead_apart hs hfile hread hin hfull hapart
        rw [hrun] at hkept
        rcases hkept with hpanic | ⟨r', label', hok, hinv⟩
        · cases hpanic
        · rw [Except.ok.inj hok]
          exact ⟨label', hinv⟩

/-- In every state that such reads reach, the cache is as it should be. -/
theorem cache_valid_of_reads
    (hs : Reachable BeforeReads (ReadStep files (ReadKeeps files)) s) :
    CacheValid files s := by
  have hinv := hs.invariant (I := fun s => exists label, CacheInv files s label)
    (fun s hs => ⟨_, hs.inv⟩) (fun s s' hs hstep => hstep.inv hs)
  rcases hinv with ⟨label, hinv⟩
  exact hinv.valid

/-- In every such state a read whose later blocks are in the cache copies the
bytes of the device, unless there is no memory for a block. -/
theorem read_copies_device
    (hs : Reachable BeforeReads (ReadStep files (ReadKeeps files)) s)
    {blockFile : Word} (hfile : blockFile ≠ 0) {read : Uint64 -> Nat -> Byte}
    (hread : (files blockFile).read = some read) {position : Uint64} {size : Word}
    (hsize : 1 ≤ size.toNat) (hfits : position.toNat + size.toNat ≤ 2 ^ 64)
    (hlater : LaterCached files s blockFile position size)
    (buffer : Nat -> Byte) :
    blockfileRead (files blockFile) blockFile s position buffer size =
        panic .outOfMem ∨
      exists r, blockfileRead (files blockFile) blockFile s position buffer size =
          .ok r ∧ r.size = size ∧
        r.buffer = copiedBytes (files blockFile) read position buffer size.toNat := by
  have hinv := hs.invariant (I := fun s => exists label, CacheInv files s label)
    (fun s hs => ⟨_, hs.inv⟩) (fun s s' hs hstep => hstep.inv hs)
  rcases hinv with ⟨label, hinv⟩
  have hin := spanOf_inside (files blockFile) hsize hfits
  rcases blockfileRead_cached hinv hfile hread hin hlater with
    hpanic | ⟨r, _, hr, _, hresult, hbuffer, _⟩
  · exact Or.inl hpanic
  · exact Or.inr ⟨r, hr, hresult, hbuffer⟩

end Runs

/-!
# A small device
-/

/-- A device with blocks of 512 bytes that hold their number. -/
def countingFile : BlockFile where
  blockSizeExponent := 9
  read := some fun block _ => block.i0.setWidth 8
  small := by decide

def coldState : BlockState where
  heap := smallHeap
  mem := fun _ => 0
  cachedBlock := emptyCache

theorem coldState_before : BeforeReads coldState :=
  ⟨smallBoot_boot.heap, by decide, rfl⟩

def firstRead (position : Uint64) (size : Word) : BlockReadResult :=
  (blockfileRead countingFile 8 coldState position (fun _ => 0) size
    ).toOption.getD ⟨0, coldState, position, fun _ => 0⟩

/-- The second block of the device is in the cache. -/
def warmState : BlockState :=
  (firstRead (init64 0 0 0 512) 512).state

theorem warmState_reachable : Reachable BeforeReads
    (ReadStep (fun _ => countingFile) (ReadKeeps fun _ => countingFile))
    warmState := by
  refine .step (.start coldState_before) ⟨8, init64 0 0 0 512, fun _ => 0, 512,
    firstRead (init64 0 0 0 512) 512, by decide, ?_, rfl, rfl⟩
  refine Or.inr (Or.inr (Or.inr (Or.inl ?_)))
  intro c hc hc'
  exact absurd (Nat.lt_of_lt_of_le hc hc') (Nat.lt_irrefl _)

theorem cache_valid_of_reads_warm : CacheValid (fun _ => countingFile) warmState :=
  cache_valid_of_reads warmState_reachable

theorem read_copies_device_warm :
    blockfileRead countingFile 8 warmState (init64 0 0 0 0) (fun _ => 0) 1024 =
        panic .outOfMem ∨
      exists r, blockfileRead countingFile 8 warmState (init64 0 0 0 0)
          (fun _ => 0) 1024 = .ok r ∧ r.size = 1024 ∧
        r.buffer = copiedBytes countingFile (fun block _ => block.i0.setWidth 8)
          (init64 0 0 0 0) (fun _ => 0) (1024 : Word).toNat :=
  read_copies_device warmState_reachable (by decide) rfl (by decide) (by decide)
    (by
      intro c hc hc'
      have hone : c = 1 := Nat.le_antisymm hc' hc
      subst hone
      exact ⟨⟨0, by decide⟩, rfl, rfl⟩) _

/-- Two blocks of a cold cache share one buffer. -/
theorem cache_shares_buffer : exists s,
    Reachable BeforeReads (ReadStep (fun _ => countingFile) fun _ _ _ _ => True) s ∧
      ¬ CacheValid (fun _ => countingFile) s := by
  refine ⟨(firstRead (init64 0 0 0 0) 1024).state, ?_, ?_⟩
  · exact .step (.start coldState_before) ⟨8, init64 0 0 0 0, fun _ => 0, 1024,
      firstRead (init64 0 0 0 0) 1024, by decide, trivial, rfl, rfl⟩
  · intro hvalid
    exact absurd (hvalid.distinct ⟨0, by decide⟩ ⟨1, by decide⟩ (by decide) rfl)
      (by decide)

/-- The second block of a cold cache is copied from the first one. -/
theorem read_repeats_first_block :
    BeforeReads coldState ∧ exists r,
      blockfileRead countingFile 8 coldState (init64 0 0 0 0) (fun _ => 0) 1024 =
          .ok r ∧
        r.buffer ≠ copiedBytes countingFile (fun block _ => block.i0.setWidth 8)
          (init64 0 0 0 0) (fun _ => 0) (1024 : Word).toNat := by
  refine ⟨coldState_before, firstRead (init64 0 0 0 0) 1024, rfl, ?_⟩
  intro hbuffer
  have hbyte := congrFun hbuffer 512
  have hdevice : copiedBytes countingFile (fun block _ => block.i0.setWidth 8)
      (init64 0 0 0 0) (fun _ => 0) (1024 : Word).toNat 512 =
        deviceByte countingFile (fun block _ => block.i0.setWidth 8) 512 :=
    writeRun_at (i := 512) (fun _ _ _ _ h => h) (by decide)
  rw [hdevice] at hbyte
  revert hbyte
  decide +kernel

end Fs
end Rmmtos
