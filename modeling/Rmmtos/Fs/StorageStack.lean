import Rmmtos.Fs.BlockRuns
import Rmmtos.Fs.DriverRuns
import Rmmtos.Fs.FileFrames

/-!
# Files on a block device

The handle of a volume is read through {lit}`blockfile_read` and its cache.  As
long as no read of the driver crosses the border of a block, the driver finds
the bytes of the device, whatever has been read before.
-/

namespace Rmmtos
namespace Fs

open Library Kernel

/-!
# Reads of one block
-/

/-- A read that does not cross the border of a block. -/
def OneBlock (f : BlockFile) (position : Uint64) (size : Word) : Prop :=
  position.toNat % 2 ^ f.blockSizeExponent.toNat + size.toNat ≤
    2 ^ f.blockSizeExponent.toNat

instance (f : BlockFile) (position : Uint64) (size : Word) :
    Decidable (OneBlock f position size) :=
  inferInstanceAs (Decidable (_ ≤ _))

section OneBlock

variable {f : BlockFile} {position : Uint64} {size : Word}

theorem OneBlock.fits (h : OneBlock f position size) :
    position.toNat + size.toNat ≤ 2 ^ 64 := by
  unfold OneBlock at h
  have hsmall := f.small
  have hlt := position.toNat_lt
  have hdiv := Nat.div_add_mod position.toNat (2 ^ f.blockSizeExponent.toNat)
  have hdvd : 2 ^ f.blockSizeExponent.toNat *
      2 ^ (64 - f.blockSizeExponent.toNat) = 2 ^ 64 := by
    rw [← Nat.pow_add]
    congr 1
    omega
  have hblock : position.toNat / 2 ^ f.blockSizeExponent.toNat <
      2 ^ (64 - f.blockSizeExponent.toNat) := by
    apply Nat.div_lt_of_lt_mul
    rw [hdvd]
    exact hlt
  have hnext := Nat.mul_le_mul_left (2 ^ f.blockSizeExponent.toNat) hblock
  rw [hdvd, Nat.mul_succ] at hnext
  omega

theorem OneBlock.last_le (h : OneBlock f position size) (hsize : 0 < size.toNat) :
    (spanOf f position size).last ≤ (spanOf f position size).first := by
  unfold OneBlock at h
  have hdiv := Nat.div_add_mod position.toNat (2 ^ f.blockSizeExponent.toNat)
  unfold Span.last Span.first spanOf
  apply Nat.le_of_lt_succ
  apply (Nat.div_lt_iff_lt_mul (Nat.two_pow_pos _)).mpr
  rw [Nat.succ_mul, Nat.mul_comm]
  dsimp only
  omega

end OneBlock

theorem moved_toNat (position : Uint64) (size : Word) :
    (add64 position (init64 0 0 0 size)).toNat =
      (position.toNat + size.toNat) % 2 ^ 64 := by
  have hzero : (0 : Word) ≠ 0xffff := by decide
  rw [add64_toNat position hzero hzero hzero, Uint64.toNat_init64]

/-!
# Blocks of others

A read of one block takes a block of the heap at most, and gives back none but
that.
-/

/-- The users of the blocks of one map are those of another one too. -/
def UsersStay (label label' : Word -> Option BlockUser) : Prop :=
  forall p o, label p = some o -> label' p = some o

section Users

variable {files : Word -> BlockFile} {s : BlockState}
  {label label' : Word -> Option BlockUser} {blockFile p : Word}
  {read : Uint64 -> Nat -> Byte} {x : BlockRead} {size : Word}
  {beginBlock endBlock position : Uint64}

theorem UsersStay.refl (label : Word -> Option BlockUser) : UsersStay label label :=
  fun _ _ h => h

theorem UsersStay.trans {label'' : Word -> Option BlockUser}
    (h : UsersStay label label') (h' : UsersStay label' label'') :
    UsersStay label label'' :=
  fun p o hp => h' p o (h p o hp)

theorem UsersStay.update (h : UsersStay label label') (hnone : label p = none)
    (o : Option BlockUser) : UsersStay label (Function.update label' p o) := by
  intro q o' hq
  have hne : q ≠ p := by
    intro hsame
    rw [hsame, hnone] at hq
    cases hq
  rw [Function.update_of_ne hne]
  exact h q o' hq

theorem fetchBlock_fresh {r : Option (Fin cachedBlocks) × BlockState}
    {block : Uint64} (hs : CacheInv files s label)
    (hslot : usedSlot s blockFile block = none)
    (hrun : fetchBlock read (files blockFile) blockFile s block 0 = .ok (p, r)) :
    label p = none := by
  unfold fetchBlock at hrun
  rw [hslot] at hrun
  change malloc s.heap (files blockFile).blockSize >>= _ = _ at hrun
  rcases ok_bind_iff.mp hrun with ⟨⟨q, heap⟩, hmalloc, hr⟩
  cases hr
  exact (hs.owned.malloc hmalloc (o := (none, 0)) (Nat.zero_le _)).1

theorem turn_users (beginBlock endBlock : Uint64) (size : Word)
    (hs : CacheInv files s label) (hfile : blockFile ≠ 0)
    (hread : (files blockFile).read = some read) (hx : x.state = s)
    (htmp : x.tmp = 0) :
    blockReadTurn read (files blockFile) blockFile beginBlock endBlock size x =
        panic .outOfMem ∨
      exists y label', blockReadTurn read (files blockFile) blockFile beginBlock
          endBlock size x = .ok y ∧
        CacheInv files y.state label' ∧ UsersStay label label' ∧
        (y.bufferUsed = none -> label y.tmp = none ∧
          exists n, label' y.tmp = some (none, n)) ∧
        Points (files blockFile) blockFile
          (blockPart (files blockFile) beginBlock endBlock size x) x y := by
  by_cases hcached : Cached s blockFile x.block.toNat
  · right
    rcases turn_hit read beginBlock endBlock size hs hfile hx hcached with
      ⟨y, hy, hstate, _, hused, hpoints⟩
    refine ⟨y, label, hy, ?_, UsersStay.refl label, fun hnone => absurd hnone hused,
      hpoints⟩
    rw [hstate]
    exact hs
  · have hslot := usedSlot_none.mpr hcached
    rcases fetchBlock_new hs hread hslot with
      hpanic | ⟨p, s', hfetch, hne, _, _, hinv, hholds⟩
    · left
      unfold blockReadTurn
      rw [hx, htmp, hpanic]
      rfl
    · right
      have hfresh := fetchBlock_fresh hs hslot hfetch
      have hlabel : Function.update label p (some (none,
          2 ^ (files blockFile).blockSizeExponent.toNat)) p = _ :=
        Function.update_self ..
      have hstay := (UsersStay.refl label).update hfresh
        (some (none, 2 ^ (files blockFile).blockSizeExponent.toNat))
      have hturn : blockReadTurn read (files blockFile) blockFile beginBlock
          endBlock size x = .ok (copyPart blockFile x
            (blockPart (files blockFile) beginBlock endBlock size x)
              (p, none, s')) := by
        unfold blockReadTurn
        rw [hx, htmp, hfetch]
        rfl
      rcases putBlock_new x.block hinv hne hlabel hholds with
        ⟨hput, _⟩ | ⟨i, s'', hput, _, _, hinv'⟩
      · refine ⟨_, _, hturn, ?_, hstay, fun _ => ⟨hfresh, _, hlabel⟩, _, rfl, hholds⟩
        unfold copyPart
        rw [hput]
        exact hinv
      · have hput' := hstay.update hfresh
          (some (some i, 2 ^ (files blockFile).blockSizeExponent.toNat))
        refine ⟨_, _, hturn, ?_, hput', fun hnone => ?_, _, rfl, hholds⟩
        · unfold copyPart
          rw [hput]
          exact hinv'
        · unfold copyPart at hnone
          rw [hput] at hnone
          cases hnone

theorem dropBlock_users (hs : CacheInv files x.state label')
    (hstay : UsersStay label label')
    (hdrop : x.bufferUsed = none -> label x.tmp = none ∧
      exists n, label' x.tmp = some (none, n)) :
    exists s' label'', dropBlock x = .ok s' ∧ CacheInv files s' label'' ∧
      UsersStay label label'' := by
  unfold dropBlock
  by_cases h : x.tmp ≠ 0 ∧ x.bufferUsed = none
  · rw [if_pos h]
    rcases hdrop h.2 with ⟨hnone, n, hlabel⟩
    rcases hs.owned.free hlabel with ⟨heap, hfree, howned⟩
    have hstart := free_poolStart hfree
    refine ⟨{ x.state with heap := heap }, _, by rw [hfree]; rfl,
      ⟨howned, ?_, hs.unused, ?_⟩, hstay.update hnone none⟩
    · dsimp only
      rw [hstart]
      exact hs.pool_pos
    · intro i hi
      have hslot := hs.used i hi
      have hne : (x.state.cachedBlock i).buffer ≠ x.tmp := by
        intro hsame
        have howner := hslot.owned
        rw [hsame, hlabel] at howner
        cases howner
      refine ⟨?_, hslot.holds⟩
      dsimp only
      rw [Function.update_of_ne hne]
      exact hslot.owned
  · rw [if_neg h]
    exact ⟨x.state, label', rfl, hs, hstay⟩

/-- A read of one block is right in every cache that is as it should be. -/
theorem blockfileRead_one (hs : CacheInv files s label) (hfile : blockFile ≠ 0)
    (hread : (files blockFile).read = some read)
    (hone : OneBlock (files blockFile) position size) (buffer : Bytes) :
    blockfileRead (files blockFile) blockFile s position buffer size =
        panic .outOfMem ∨
      exists r label', blockfileRead (files blockFile) blockFile s position buffer
          size = .ok r ∧
        CacheInv files r.state label' ∧ UsersStay label label' ∧ r.size = size ∧
        r.buffer = splice (Volume.data ⟨deviceByte (files blockFile) read, position⟩)
          size.toNat buffer ∧
        r.position = add64 position (init64 0 0 0 size) := by
  rcases Nat.eq_zero_or_pos size.toNat with hnone | hsome
  · right
    refine ⟨_, label, blockfileRead_nothing blockFile s buffer hread (Or.inl hnone), hs,
      UsersStay.refl label, rfl, ?_, ?_⟩
    · rw [hnone, splice_zero]
    · apply Uint64.eq_of_toNat_eq
      rw [moved_toNat, hnone, Nat.add_zero, Nat.mod_eq_of_lt position.toNat_lt]
  · have hfits := hone.fits
    have hlast := hone.last_le hsome
    have hin := spanOf_inside (files blockFile) hsome hfits
    have hle := ((spanOf (files blockFile) position size).first_le_last).resolve_left
      (Nat.ne_of_gt hin.size_pos)
    rcases blockfileRead_run blockFile s buffer hread hin (L := fun b y =>
        exists label', CacheInv files y.state label' ∧ UsersStay label label' ∧
          (y.bufferUsed = none -> label y.tmp = none ∧
            exists n, label' y.tmp = some (none, n)) ∧
          y.buffer = copiedBytes (files blockFile) read position buffer
            ((spanOf (files blockFile) position size).done b)) (by
          intro beginBlock endBlock x hx hstate htmp hbuffer hbegin hend
          rcases turn_users beginBlock endBlock size hs hfile hread hstate htmp with
            hpanic | ⟨y, label', hy, hinv, hstay, hdrop, hpoints⟩
          · exact Or.inl hpanic
          · refine Or.inr ⟨y, hy, label', hinv, hstay, hdrop, ?_⟩
            apply hpoints.copied hread hin hx (Nat.le_refl _) hle hbegin hend
            rw [hbuffer, Span.done_first hin.k_pos]
            rfl)
        (fun _ _ b _ hb hb' => absurd (Nat.lt_of_lt_of_le hb hb')
          (Nat.not_lt.mpr hlast)) with
      hpanic | ⟨y, hy, ⟨label', hinv, hstay, hdrop, hbuffer⟩, hrun⟩
    · exact Or.inl hpanic
    · right
      rcases dropBlock_users hinv hstay hdrop with ⟨s', label'', hs', hinv', hstay'⟩
      have hposition := hy.position
      rw [Span.done_end hin.k_pos hin.size_pos] at hbuffer hposition
      refine ⟨⟨size, s', y.position, y.buffer⟩, label'', ?_, hinv', hstay', rfl, ?_, ?_⟩
      · rw [hrun, hs']
        rfl
      · change y.buffer = copiedBytes (files blockFile) read position buffer size.toNat
          at hbuffer
        dsimp only
        rw [hbuffer]
        unfold copiedBytes
        rw [writeRun_front]
        funext j
        rcases Nat.lt_or_ge j size.toNat with hj | hj
        · rw [splice_before hj, splice_before hj]
          unfold Volume.data
          dsimp only
          rw [Nat.mod_eq_of_lt (by omega)]
        · rw [splice_behind hj, splice_behind hj]
      · apply Uint64.eq_of_toNat_eq
        rw [moved_toNat]
        exact hposition

end Users

namespace DeviceState

/-- The cache is as it should be, and blocks that are used stay so. -/
def CacheSound (label : Word -> Option BlockUser) (s : DeviceState) : Prop :=
  exists label', CacheInv s.blockFile s.blockState label' ∧ UsersStay label label'

/-!
# The handle of a volume
-/

structure Stands (label : Word -> Option BlockUser) (s₀ : DeviceState)
    (handle : Word) (image : Bytes) (s : DeviceState) (v : Volume) : Prop where
  cache : CacheSound label s
  blockFile : s.blockFile = s₀.blockFile
  kept : FileKept s₀ s
  others : forall p, p ≠ handle ->
    (s.fs.handle p).position = (s₀.fs.handle p).position
  position : (s.fs.handle handle).position = v.position
  image : v.image = image

section Volumes

variable {label : Word -> Option BlockUser} {s₀ s : DeviceState}
  {handle p device : Word} {position : Uint64} {image : Bytes} {v : Volume}
  {read : Uint64 -> Nat -> Byte}

@[simp] theorem setPosition_self (s : DeviceState) (handle : Word)
    (position : Uint64) :
    ((s.setPosition handle position).fs.handle handle).position = position := by
  change (Function.update s.fs.handle handle _ handle).position = _
  rw [Function.update_self]

theorem setPosition_other (s : DeviceState) (position : Uint64) (h : p ≠ handle) :
    (s.setPosition handle position).fs.handle p = s.fs.handle p :=
  Function.update_of_ne h ..

theorem fileRead_block (turns depth : Nat) {buffer : Bytes} {size : Word}
    (h : s.fileOps (s.fs.handle handle).node = .block) :
    fileRead turns depth handle buffer size s = blockfileRead handle buffer size s := by
  cases depth <;>
    unfold fileRead <;> rw [fileReadBy_eq, h]

theorem Stands.seek (h : Stands label s₀ handle image s v) (position : Uint64) :
    Stands label s₀ handle image (s.setPosition handle position) (v.seek position) where
  cache := h.cache
  blockFile := h.blockFile
  kept := h.kept.trans (setPosition_kept s handle position)
  others p hp := by
    rw [setPosition_other s position hp]
    exact h.others p hp
  position := setPosition_self s handle position
  image := h.image

theorem volumeCalls_follow (turns depth : Nat)
    (hnode : (s₀.fs.handle handle).node = device)
    (hops : s₀.fileOps device = .block) (hdevice : device ≠ 0)
    (hread : (s₀.blockFile device).read = some read) :
    Follows (volumeCalls (fileRead turns depth) handle)
      (Stands label s₀ handle (deviceByte (s₀.blockFile device) read))
      (OneBlock (s₀.blockFile device)) where
  seek := fun s v position h => h.seek position
  leftover := fun s v h => {
    cache := h.cache
    blockFile := h.blockFile
    kept := h.kept.trans (fileKept_frame.lookup s)
    others := h.others
    position := h.position
    image := h.image }
  read := by
    intro s v buffer size h hone
    have hnode' : (s.fs.handle handle).node = device :=
      (h.kept.target handle).trans hnode
    have hops' : s.fileOps (s.fs.handle handle).node = .block := by
      rw [hnode', h.kept.fileOps]
      exact hops
    have hcall : (volumeCalls (fileRead turns depth) handle).read buffer size s =
        blockfileRead handle buffer size s :=
      fileRead_block turns depth hops'
    rcases h.cache with ⟨users, hcache, hstay⟩
    rw [hcall]
    rw [h.blockFile] at hcache
    have hposition := h.position
    have hrun := blockfileRead_one hcache hdevice hread hone buffer
    unfold blockfileRead
    dsimp only
    rw [hnode', hposition, h.blockFile]
    rcases hrun with hpanic | ⟨r, users', hr, hinv, hstay', hsize, hbuffer, hmoved⟩
    · left
      rw [hpanic]
      rfl
    · right
      rw [hr, ok_bind, hsize, hbuffer]
      refine ⟨(s.setBlockState r.state).setPosition handle r.position, ?_, ?_⟩
      · unfold Volume.data
        rw [h.image]
      · have hkept : FileKept s₀ (s.setBlockState r.state) :=
          h.kept.trans ⟨rfl, fun _ => rfl, fun _ => rfl, rfl, rfl, rfl, rfl, rfl, rfl,
            rfl, rfl⟩
        refine ⟨⟨users', ?_, hstay.trans hstay'⟩, h.blockFile, hkept.trans (setPosition_kept ..), ?_, ?_,
          h.image⟩
        · change CacheInv s.blockFile r.state users'
          rw [h.blockFile]
          exact hinv
        · intro p hp
          rw [setPosition_other _ _ hp]
          exact h.others p hp
        · rw [setPosition_self, hmoved]
          rfl

end Volumes

end DeviceState

/-!
# Files in blocks
-/

/-- A file with small clusters, the last of which is not full. -/
structure PlainFile (image : Bytes) (root : FatGeometry) (cluster : Nat)
    (entry : DirectoryEntry) : Prop where
  clustered : Clustered root cluster
  file : ChainedFile image root cluster entry
  partly : entry.size.toNat % cluster ≠ 0
  small : cluster < 4096

/-- What the driver reads of a volume for a file lies in blocks: its entry, the
clusters of its chain, and what the allocation table has for them. -/
structure InBlocks (f : BlockFile) (image : Bytes) (root : FatGeometry)
    (cluster : Nat) (entryPosition : Uint64) : Prop where
  block : 32 ≤ 2 ^ f.blockSizeExponent.toNat
  entry : 32 ∣ entryPosition.toNat
  cluster_le : cluster ≤ 2 ^ f.blockSizeExponent.toNat
  data : cluster ∣ root.rootEnd.toNat
  table : forall i, i < clustersOf cluster (fileEntry image entryPosition).size.toNat ->
    OneBlock f (fatPosition root
      (chain image root (fileEntry image entryPosition).clusterLo i)) 2

/-- A part of something that lies in blocks. -/
theorem part_in_block {place part block o n : Nat} (hplace : part ∣ place)
    (hblock : part ∣ block) (hpos : 0 < block) (h : o + n ≤ part) :
    (place + o) % block + n ≤ block := by
  have hlt := Nat.mod_lt (place + o) hpos
  rcases Nat.eq_zero_or_pos n with hnone | hsome
  · omega
  · have hinside := Nat.mod_lt place hpos
    have hroom : place % block + part ≤ block := by
      rcases (Nat.dvd_mod_iff hblock).mpr hplace with ⟨m, hm⟩
      rcases hblock with ⟨l, hl⟩
      rw [hm, hl] at hinside ⊢
      have hnext := Nat.mul_le_mul_left part (Nat.lt_of_mul_lt_mul_left hinside)
      rw [Nat.mul_succ] at hnext
      exact hnext
    rw [Nat.add_mod, Nat.mod_eq_of_lt (a := o) (by omega), Nat.mod_eq_of_lt (by omega)]
    omega

section Files

variable {f : BlockFile} {image : Bytes} {root : FatGeometry} {cluster : Nat}
  {entry : DirectoryEntry} {entryPosition position : Uint64}

theorem PlainFile.filled (h : PlainFile image root cluster entry) :
    0 < entry.size.toNat := by
  apply Nat.pos_of_ne_zero
  intro hzero
  apply h.partly
  rw [hzero, Nat.zero_mod]

theorem PlainFile.right (h : PlainFile image root cluster entry)
    (hposition : position.toNat ≤ entry.size.toNat) (count : Word) :
    RightRead image root cluster entry position count := by
  have hpos := h.clustered.pos.1
  have hfits := fits h.clustered.pos h.filled position count
  refine ⟨h.clustered, h.file, h.filled, ?_, ⟨fun _ => hposition, ?_⟩, ?_⟩
  · apply Nat.lt_of_le_of_lt hposition
    apply Nat.lt_of_le_of_ne hfits.high
    intro heq
    apply h.partly
    have hmul : entry.size.toNat = clustersOf cluster entry.size.toNat * cluster := heq
    rw [hmul]
    exact Nat.mul_mod_left _ _
  · exact fun hzero => absurd hzero h.partly
  · intro i
    have hsmall := h.small
    have hnext : (i + 1) * cluster = i * cluster + cluster := Nat.succ_mul i cluster
    unfold FileRead.part
    change min ((i + 1) * cluster) _ - max (i * cluster) _ < 4096
    rw [hnext]
    omega

theorem InBlocks.oneEntry (h : InBlocks f image root cluster entryPosition) :
    OneBlock f entryPosition directoryEntrySize := by
  have hle : 5 ≤ f.blockSizeExponent.toNat :=
    (Nat.pow_le_pow_iff_right (a := 2) (by decide)).mp h.block
  have hblock : 32 ∣ 2 ^ f.blockSizeExponent.toNat := Nat.pow_dvd_pow 2 hle
  exact part_in_block (o := 0) (n := 32) h.entry hblock (Nat.two_pow_pos _)
    (Nat.le_refl _)

theorem InBlocks.allows (h : InBlocks f image root cluster entryPosition)
    (hfile : PlainFile image root cluster (fileEntry image entryPosition)) :
    AllowsFile (OneBlock f) image root cluster (fileEntry image entryPosition) := by
  refine ⟨h.table, ?_⟩
  intro i offset size hi hsize
  have hcluster := hfile.clustered.position (hfile.file.inside i hi).1
  have hblock : cluster ∣ 2 ^ f.blockSizeExponent.toNat := by
    have hle := h.cluster_le
    rw [hfile.clustered.cluster_eq] at hle ⊢
    exact Nat.pow_dvd_pow 2 ((Nat.pow_le_pow_iff_right (by decide)).mp hle)
  have hdata := hfile.clustered.data
  have hprod : ((chain image root (fileEntry image entryPosition).clusterLo i).toNat -
      2) * cluster ≤ 65536 * 32768 :=
    Nat.mul_le_mul (Nat.le_trans (Nat.sub_le _ _) (Nat.le_of_lt (BitVec.isLt _)))
      hfile.clustered.pos.2
  have hoffset := offset.isLt
  unfold OneBlock
  rw [add64_16_toNat, hcluster, Nat.mod_eq_of_lt (b := 2 ^ 64) (by omega)]
  exact part_in_block (Nat.dvd_add h.data (Nat.dvd_mul_left cluster _)) hblock
    (Nat.two_pow_pos _) hsize

end Files

namespace DeviceState

/-!
# Open files
-/

def rootOf (s : DeviceState) (node : Word) : FatRootDirectory :=
  s.fatRoot (s.fatFile node).root

def deviceOf (s : DeviceState) (node : Word) : Word :=
  (s.fs.handle (s.rootOf node).handle).node

def imageOf (s : DeviceState) (node : Word) : Bytes :=
  match (s.blockFile (s.deviceOf node)).read with
  | some read => deviceByte (s.blockFile (s.deviceOf node)) read
  | none => fun _ => 0

def clusterOf (s : DeviceState) (node : Word) : Nat :=
  2 ^ (s.rootOf node).geometry.clusterPot.toNat

def entryPositionOf (s : DeviceState) (node : Word) : Uint64 :=
  (s.fatFile node).entryPosition

def entryOf (s : DeviceState) (node : Word) : DirectoryEntry :=
  fileEntry (s.imageOf node) (s.entryPositionOf node)

def byteOf (s : DeviceState) (node : Word) : Nat -> Byte :=
  fileByte (s.imageOf node) (s.rootOf node).geometry (s.clusterOf node)
    (s.entryOf node)

/-- A file of a volume on a block device.  The driver has the parts of the volume
where the first sector says that they are. -/
structure OnDevice (s : DeviceState) (node : Word) : Prop where
  fat : s.fileOps node = .fat
  block : s.fileOps (s.deviceOf node) = .block
  device : s.deviceOf node ≠ 0
  reads : (s.blockFile (s.deviceOf node)).read.isSome
  laid : (s.rootOf node).geometry = (parametersOf (s.imageOf node)).layout
  file : PlainFile (s.imageOf node) (s.rootOf node).geometry (s.clusterOf node)
    (s.entryOf node)
  inBlocks : InBlocks (s.blockFile (s.deviceOf node)) (s.imageOf node)
    (s.rootOf node).geometry (s.clusterOf node) (s.entryPositionOf node)

/-- What a read changes, but for the cache: the position of its handle, and that
of the handle of the volume. -/
structure ReadMoves (label : Word -> Option BlockUser) (s s' : DeviceState)
    (handle : Word) (word : Word) : Prop where
  cache : CacheSound label s'
  blockFile : s'.blockFile = s.blockFile
  kept : FileKept s s'
  position : (s'.fs.handle handle).position.toNat =
    (s.fs.handle handle).position.toNat + word.toNat
  others : forall p, p ≠ handle -> p ≠ (s.rootOf (s.fs.handle handle).node).handle ->
    (s'.fs.handle p).position = (s.fs.handle p).position

/-- A read through the cache, from any place up to the end of the file. -/
theorem fileRead_onDevice {label : Word -> Option BlockUser} {turns : Nat}
    (depth : Nat) {s : DeviceState} {handle node : Word} (hcache : CacheSound label s)
    (hnode : (s.fs.handle handle).node = node) (h : s.OnDevice node)
    (hapart : handle ≠ (s.rootOf node).handle)
    (hposition : (s.fs.handle handle).position.toNat ≤ (s.entryOf node).size.toNat)
    (hturns : wordCount ≤ turns) (buffer : Bytes) (count : Word) :
    fileRead turns (depth + 1) handle buffer count s = panic .outOfMem ∨
      exists word s', fileRead turns (depth + 1) handle buffer count s =
          .ok (word, splice
            (fun j => s.byteOf node ((s.fs.handle handle).position.toNat + j))
            word.toNat buffer, s') ∧
        word.toNat = min count.toNat
          ((s.entryOf node).size.toNat - (s.fs.handle handle).position.toNat) ∧
        ReadMoves label s s' handle word := by
  rcases Option.isSome_iff_exists.mp h.reads with ⟨read, hread⟩
  have himage : s.imageOf node =
      deviceByte (s.blockFile (s.deviceOf node)) read := by
    unfold imageOf
    rw [hread]
  have hfollows : Follows (volumeCalls (fileRead turns depth) (s.rootOf node).handle)
      (Stands label s (s.rootOf node).handle (s.imageOf node))
      (OneBlock (s.blockFile (s.deviceOf node))) := by
    rw [himage]
    exact volumeCalls_follow turns depth rfl h.block h.device hread
  have hstart : Stands label s (s.rootOf node).handle (s.imageOf node) s
      ⟨s.imageOf node, (s.fs.handle (s.rootOf node).handle).position⟩ :=
    ⟨hcache, rfl, FileKept.refl s, fun _ _ => rfl, rfl, rfl⟩
  have hfew : clustersOf (s.clusterOf node) (s.entryOf node).size.toNat ≤ turns := by
    have hlt := h.file.file.clusters_lt (v := ⟨s.imageOf node, init64 0 0 0 0⟩)
      h.file.filled
    unfold wordCount at hturns
    omega
  have hrun := fatReadFileOn_follows hfollows hstart (h.file.right hposition count)
    h.inBlocks.oneEntry (h.inBlocks.allows h.file) hfew buffer
  have hcall : fileRead turns (depth + 1) handle buffer count s =
      fatReadFile turns (fileRead turns depth) handle buffer count s := by
    change fileReadBy (fatReadFile turns (fileRead turns depth)) handle buffer count s = _
    rw [fileReadBy_eq, hnode, h.fat]
  rw [hcall]
  unfold fatReadFile
  dsimp only
  rw [hnode]
  change fatReadFileOn turns (volumeCalls (fileRead turns depth) (s.rootOf node).handle)
      (s.rootOf node).geometry (s.entryPositionOf node)
      (s.fs.handle handle).position buffer count s >>= _ = _ ∨ exists word s',
    fatReadFileOn turns (volumeCalls (fileRead turns depth) (s.rootOf node).handle)
      (s.rootOf node).geometry (s.entryPositionOf node)
      (s.fs.handle handle).position buffer count s >>= _ = _ ∧ _
  rcases hrun with hpanic | ⟨x, v, hx, hstands, _, hcompleted, hbuffer⟩
  · left
    rw [hpanic]
    rfl
  · right
    rw [hx, ok_bind]
    refine ⟨x.completed, x.state.setPosition handle
      (add64_16 (x.state.fs.handle handle).position x.completed), ?_, hcompleted, ?_⟩
    · rw [hbuffer, ← hcompleted, writeRun_front]
      rfl
    · refine ⟨hstands.cache, hstands.blockFile,
        hstands.kept.trans (setPosition_kept ..), ?_, ?_⟩
      · have hlt := (s.fs.handle handle).position.toNat_lt
        have hsize := (s.entryOf node).size.isLt
        rw [setPosition_self, hstands.others handle hapart, add64_16_toNat, hcompleted]
        apply Nat.mod_eq_of_lt
        change _ + min count.toNat ((s.entryOf node).size.toNat - _) < _
        omega
      · intro p hp hvolume
        rw [hnode] at hvolume
        rw [setPosition_other _ _ hp]
        exact hstands.others p hvolume

end DeviceState

end Fs
end Rmmtos
