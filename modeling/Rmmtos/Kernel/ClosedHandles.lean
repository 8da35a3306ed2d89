import Rmmtos.Kernel.System
import Rmmtos.Fs.OpenHandles

/-!
# What the end of a task gives back

The handles in the table of a task that exits are closed one by one, then the
table and the kernel stack are freed.
-/

namespace Rmmtos
namespace Kernel

open Library Fs

/-!
# Closing the entries
-/

/-- A handle of one of the two kinds that {lit}`task_exit` closes. -/
def Closable (s : KernelState) (h : Word) : Prop :=
  asks (s.fs.handle h).flags directoryFlag = true ∨
    asks (s.fs.handle h).flags fileFlag = true

def entryOn (s : KernelState) (p node access : Word) (i : Nat) : Bool :=
  s.entry p i != 0 && onNode s.fs node access (s.entry p i)

def entryCount (s : KernelState) (p node access : Word) (n : Nat) : Nat :=
  (List.range n).countP (entryOn s p node access)

structure EntriesClosed (s u : KernelState) (p : Word) (n : Nat) : Prop where
  tasks : SameTasks s u
  mem : u.mem = s.mem
  owned : exists label, KernelOwned u label
  entries : forall q, q ∈ s.taskList -> s.Live q -> forall i,
    u.entry q i = if q = p ∧ i < n then 0 else s.entry q i
  handle : u.fs.handle = s.fs.handle
  readers : forall node, (u.fs.node node).readers =
    (s.fs.node node).readers - BitVec.ofNat 16 (entryCount s p node handleRead n)
  writers : forall node, (u.fs.node node).writers =
    (s.fs.node node).writers - BitVec.ofNat 16 (entryCount s p node handleWrite n)
  zones : u.fs.heap.zones = s.fs.heap.zones
  poolStart : u.fs.heap.poolStart = s.fs.heap.poolStart
  blocks : forall b, u.fs.heap.taken b = true <-> s.fs.heap.taken b = true ∧
    forall i, i < n -> s.entry p i ≠ 0 -> s.fs.heap.address b ≠ s.entry p i

section Entries

variable {s u : KernelState} {label : Word -> Option Owner} {p q : Word} {n : Nat}

theorem address_congr {h h' : Heap} (hzones : h'.zones = h.zones)
    (hpool : h'.poolStart = h.poolStart) (b : Nat) : h'.address b = h.address b := by
  unfold Heap.address Heap.layout
  rw [hzones, hpool]

theorem entryCount_succ (s : KernelState) (p node access : Word) (n : Nat) :
    entryCount s p node access (n + 1) =
      entryCount s p node access n + if entryOn s p node access n then 1 else 0 := by
  unfold entryCount
  rw [List.range_succ, List.countP_append, List.countP_singleton]

theorem KernelOwned.table_ne (hs : KernelOwned s label) (hp : p ∈ s.taskList)
    (hlive : s.Live p) (hq : q ∈ s.taskList) (hliveq : s.Live q) (hqp : q ≠ p)
    (hp0 : (s.task p).handles ≠ 0) : (s.task q).handles ≠ (s.task p).handles := by
  intro heq
  have hlabelp := hs.uses _ _ (Uses.table hp hlive hp0)
  have hlabelq := hs.uses _ _ (Uses.table hq hliveq (heq ▸ hp0))
  rw [heq, hlabelp] at hlabelq
  injection hlabelq with howner
  injection howner with hpq
  exact hqp hpq.symm

theorem closeHandle_of_free {fs : FsState} {h : Word} {heap : Heap}
    (hfree : Kernel.free fs.heap h = .ok heap) :
    closeHandle fs h = .ok { uncountHandle fs h with heap := heap } := by
  refine ok_bind_iff.mpr ⟨heap, hfree, ?_⟩
  rfl

theorem closeEntry_closes {i : Nat} {table : Word} {fs : FsState}
    (hne : s.handleTable table i ≠ 0) (hkind : Closable s (s.handleTable table i))
    (hclose : closeHandle s.fs (s.handleTable table i) = .ok fs) :
    closeEntry table s i = .ok ({ s with fs := fs }.setEntry table i 0) := by
  unfold closeEntry
  dsimp only
  rw [if_neg hne]
  by_cases hdirectory :
      asks (s.fs.handle (s.handleTable table i)).flags directoryFlag = true
  · rw [if_pos hdirectory]
    exact ok_bind_iff.mpr ⟨fs, hclose, rfl⟩
  · rw [if_neg hdirectory, if_pos (hkind.resolve_left hdirectory)]
    exact ok_bind_iff.mpr ⟨fs, hclose, rfl⟩

theorem sub_succ_word (w : Word) (n : Nat) :
    w - BitVec.ofNat 16 n - 1 = w - BitVec.ofNat 16 (n + 1) := by
  rw [BitVec.ofNat_add]
  generalize BitVec.ofNat 16 n = v
  bv_omega

theorem EntriesClosed.start (hs : KernelOwned s label) : EntriesClosed s s p 0 where
  tasks := SameTasks.refl s
  mem := rfl
  owned := ⟨label, hs⟩
  entries _ _ _ i := (if_neg fun h => Nat.not_lt_zero i h.2).symm
  handle := rfl
  readers _ := (BitVec.sub_zero _).symm
  writers _ := (BitVec.sub_zero _).symm
  zones := rfl
  poolStart := rfl
  blocks _ := ⟨fun h => ⟨h, fun i hi => absurd hi (Nat.not_lt_zero i)⟩, fun h => h.1⟩

theorem EntriesClosed.pass (hu : EntriesClosed s u p n) (hzero : s.entry p n = 0) :
    EntriesClosed s u p (n + 1) := by
  have hnone : forall node access, entryCount s p node access (n + 1) =
      entryCount s p node access n := by
    intro node access
    rw [entryCount_succ, if_neg]
    · rfl
    · unfold entryOn
      rw [hzero]
      exact Bool.false_ne_true
  have hcases : forall i, i < n + 1 -> s.entry p i ≠ 0 -> i < n := by
    intro i hi hne
    rcases Nat.lt_succ_iff_lt_or_eq.mp hi with hlt | rfl
    · exact hlt
    · exact absurd hzero hne
  refine ⟨hu.tasks, hu.mem, hu.owned, ?_, hu.handle, ?_, ?_, hu.zones,
    hu.poolStart, ?_⟩
  · intro q hq hlive i
    rw [hu.entries q hq hlive]
    by_cases hqi : q = p ∧ i < n
    · rw [if_pos hqi, if_pos ⟨hqi.1, Nat.lt_succ_of_lt hqi.2⟩]
    · rw [if_neg hqi]
      split
      · next hlast =>
          by_contra hne
          rw [hlast.1] at hne
          exact hqi ⟨hlast.1, hcases i hlast.2 hne⟩
      · rfl
  · intro node
    rw [hnone]
    exact hu.readers node
  · intro node
    rw [hnone]
    exact hu.writers node
  · intro b
    rw [hu.blocks]
    refine and_congr_right fun _ => ?_
    constructor
    · exact fun h i hi hne => h i (hcases i hi hne) hne
    · exact fun h i hi hne => h i (Nat.lt_succ_of_lt hi) hne

theorem EntriesClosed.close (hu : EntriesClosed s u p n) (hp : p ∈ s.taskList)
    (hlive : s.Live p) (hn : n < (s.task p).handleCount.toNat)
    (hne : s.entry p n ≠ 0) (hkind : Closable s (s.entry p n)) :
    exists u', closeEntry (s.task p).handles u n = .ok u' ∧
      EntriesClosed s u' p (n + 1) := by
  rcases hu.owned with ⟨label, howned⟩
  have hentry : u.entry p n = s.entry p n := by
    rw [hu.entries p hp hlive, if_neg fun h => Nat.lt_irrefl n h.2]
  have htask : forall q, u.task q = s.task q := fun q => congrFun hu.tasks.task q
  have hpu : p ∈ u.taskList := hu.tasks.taskList ▸ hp
  have hliveu : forall q, s.Live q -> u.Live q := fun q hq => hu.tasks.live hq
  have hnu : n < (u.task p).handleCount.toNat := by
    rw [htask]
    exact hn
  have hneu : u.entry p n ≠ 0 := by
    rw [hentry]
    exact hne
  have hlabel := howned.uses _ _ (Uses.handle hpu (hliveu p hlive) hnu hneu)
  rcases howned.owned.free hlabel with ⟨heap, hfree, _⟩
  have hclose := closeHandle_of_free hfree
  have htable : (u.task p).handles = (s.task p).handles := by
    rw [htask]
  have hkindu : Closable u (u.entry p n) := by
    unfold Closable
    rw [hu.handle, hentry]
    exact hkind
  have hrun := closeEntry_closes (s := u) hneu hkindu hclose
  rcases howned.closeHandle hpu (hliveu p hlive) hnu hneu hclose with
    ⟨label', howned'⟩
  rcases howned.owned.free_taken hlabel hfree with ⟨hzones, hpool, htaken⟩
  have hp0 := howned.handles_ne_zero hpu (hliveu p hlive) hnu
  rw [htable] at hrun
  refine ⟨_, hrun, hu.tasks.trans ⟨rfl, rfl, rfl, rfl, rfl, rfl⟩, hu.mem,
    ⟨label', htable ▸ howned'⟩, ?_, hu.handle, ?_, ?_, hzones.trans hu.zones,
    hpool.trans hu.poolStart, ?_⟩
  · intro q hq hliveq i
    rw [setEntry_entry]
    change (if (u.task q).handles = (s.task p).handles ∧ i = n then 0
      else u.entry q i) = _
    rw [← htable]
    by_cases hqp : q = p
    · subst hqp
      rw [hu.entries q hq hliveq]
      by_cases hi : i = n
      · rw [if_pos ⟨rfl, hi⟩, if_pos ⟨rfl, Nat.lt_succ_of_le (Nat.le_of_eq hi)⟩]
      · rw [if_neg fun h => hi h.2]
        simp only [true_and, Nat.lt_succ_iff_lt_or_eq, hi, or_false]
    · have hother := howned.table_ne hpu (hliveu p hlive) (hu.tasks.taskList ▸ hq)
        (hliveu q hliveq) hqp hp0
      rw [if_neg fun h => hother h.1, if_neg fun h => hqp h.1,
        hu.entries q hq hliveq, if_neg fun h => hqp h.1]
  · intro node
    change ((uncountHandle u.fs (u.entry p n)).node node).readers = _
    rw [uncountHandle_readers, hentry, hu.readers, entryCount_succ]
    unfold entryOn onNode
    rw [hu.handle, bne_iff_ne.mpr hne, Bool.true_and]
    split
    · exact sub_succ_word _ _
    · rfl
  · intro node
    change ((uncountHandle u.fs (u.entry p n)).node node).writers = _
    rw [uncountHandle_writers, hentry, hu.writers, entryCount_succ]
    unfold entryOn onNode
    rw [hu.handle, bne_iff_ne.mpr hne, Bool.true_and]
    split
    · exact sub_succ_word _ _
    · rfl
  · intro b
    change heap.taken b = true <-> _
    rw [htaken, hu.blocks, address_congr hu.zones hu.poolStart, hentry, and_assoc]
    refine and_congr_right fun _ => ?_
    constructor
    · rintro ⟨hbefore, hlast⟩ i hi hnei
      rcases Nat.lt_succ_iff_lt_or_eq.mp hi with hlt | rfl
      · exact hbefore i hlt hnei
      · exact hlast
    · intro hall
      exact ⟨fun i hi hnei => hall i (Nat.lt_succ_of_lt hi) hnei,
        hall n (Nat.lt_succ_self n) hne⟩

theorem closeEntries_succ (table : Word) (s : KernelState) (n : Nat) :
    closeEntries table s (n + 1) =
      closeEntries table s n >>= fun u => closeEntry table u n := by
  unfold closeEntries
  rw [List.range_succ, List.foldlM_append]
  congr 1
  funext u
  simp only [List.foldlM_cons, List.foldlM_nil]
  exact bind_pure _

/-- All the handles below a length of the table are closed. -/
theorem closeEntries_closed (hs : KernelOwned s label) (hp : p ∈ s.taskList)
    (hlive : s.Live p) (hkinds : forall i, i < (s.task p).handleCount.toNat ->
      s.entry p i ≠ 0 -> Closable s (s.entry p i))
    (hn : n ≤ (s.task p).handleCount.toNat) :
    exists u, closeEntries (s.task p).handles s n = .ok u ∧
      EntriesClosed s u p n := by
  induction n with
  | zero => exact ⟨s, rfl, .start hs⟩
  | succ n ih =>
      rcases ih (Nat.le_of_succ_le hn) with ⟨u, hrun, hu⟩
      rw [closeEntries_succ, hrun, ok_bind]
      by_cases hzero : s.entry p n = 0
      · refine ⟨u, ?_, hu.pass hzero⟩
        have hentry : u.handleTable (s.task p).handles n = 0 := by
          have hsame := hu.entries p hp hlive n
          rw [if_neg fun h => Nat.lt_irrefl n h.2, hzero] at hsame
          unfold KernelState.entry at hsame
          rw [hu.tasks.task] at hsame
          exact hsame
        unfold closeEntry
        dsimp only
        rw [if_pos hentry]
      · exact hu.close hp hlive hn hzero (hkinds n hn hzero)

/-!
# The table and the stack
-/

/-- A block that a task gives back when it exits. -/
inductive GivesBack (s : KernelState) (p : Word) : Word -> Prop where
  | handle {i : Nat} : i < (s.task p).handleCount.toNat -> s.entry p i ≠ 0 ->
      GivesBack s p (s.entry p i)
  | table : GivesBack s p (s.task p).handles
  | stack : GivesBack s p (s.task p).stack

structure Released (s u : KernelState) (p : Word) : Prop where
  tasks : SameTasks (afterExit s p) u
  mem : u.mem = s.mem
  owned : exists label, KernelOwned u label
  entries : forall q, q ∈ s.taskList -> s.Live q -> forall i, u.entry q i =
    if q = p ∧ i < (s.task p).handleCount.toNat then 0 else s.entry q i
  handle : u.fs.handle = s.fs.handle
  readers : forall node, (u.fs.node node).readers =
    (s.fs.node node).readers - BitVec.ofNat 16
      (entryCount s p node handleRead (s.task p).handleCount.toNat)
  writers : forall node, (u.fs.node node).writers =
    (s.fs.node node).writers - BitVec.ofNat 16
      (entryCount s p node handleWrite (s.task p).handleCount.toNat)
  blocks : forall b, u.fs.heap.taken b = true <->
    s.fs.heap.taken b = true ∧ ¬ GivesBack s p (s.fs.heap.address b)
  address : forall b, u.fs.heap.address b = s.fs.heap.address b

theorem not_givesBack_iff {x : Word} : ¬ GivesBack s p x <->
    ((forall i, i < (s.task p).handleCount.toNat -> s.entry p i ≠ 0 ->
      x ≠ s.entry p i) ∧ x ≠ (s.task p).handles) ∧ x ≠ (s.task p).stack := by
  constructor
  · intro hnot
    refine ⟨⟨fun i hi hne heq => ?_, fun heq => ?_⟩, fun heq => ?_⟩
    · exact hnot (heq ▸ .handle hi hne)
    · exact hnot (heq ▸ .table)
    · exact hnot (heq ▸ .stack)
  · rintro ⟨⟨hhandles, htable⟩, hstack⟩ hgives
    cases hgives with
    | handle hi hne => exact hhandles _ hi hne rfl
    | table => exact htable rfl
    | stack => exact hstack rfl

theorem KernelOwned.setBitmap (hs : KernelOwned s label) (bitmap : Byte) :
    KernelOwned { s with segmentBitmap := bitmap } label :=
  hs.same ⟨rfl, rfl, fun _ h => h, fun _ => rfl, fun _ => rfl, fun _ => rfl, rfl,
    rfl, rfl⟩

theorem releaseTask_released (hs : KernelOwned s label) (hp : p ∈ s.taskList)
    (hlive : s.Live p) (hp0 : (s.task p).handles ≠ 0)
    (hkinds : forall i, i < (s.task p).handleCount.toNat ->
      s.entry p i ≠ 0 -> Closable s (s.entry p i)) :
    exists u, releaseTask s p = .ok u ∧ Released s u p := by
  rcases closeEntries_closed (hs.setBitmap (freeSegment s.segmentBitmap
    (s.task p).segment)) hp hlive hkinds (Nat.le_refl _) with ⟨u, hclose, hu⟩
  rcases hu.owned with ⟨label₁, hs₁⟩
  have htask : u.task = s.task := hu.tasks.task
  have hpu : p ∈ u.taskList := hu.tasks.taskList ▸ hp
  have hliveu : u.Live p := hu.tasks.live hlive
  have htable : label₁ (s.task p).handles = some (.table p) := by
    have huse := hs₁.uses _ _ (Uses.table hpu hliveu (by rw [htask]; exact hp0))
    rw [htask] at huse
    exact huse
  have hstack : label₁ (s.task p).stack = some (.stack p) := by
    have huse := hs₁.uses _ _ (Uses.stack hpu hliveu)
    rw [htask] at huse
    exact huse
  rcases hs₁.owned.free htable with ⟨heap₁, hfree₁, howned₁⟩
  have hne : (s.task p).stack ≠ (s.task p).handles := by
    intro heq
    rw [heq, htable] at hstack
    cases hstack
  have hstack₁ := (Function.update_of_ne hne none label₁).trans hstack
  rcases howned₁.free hstack₁ with ⟨heap₂, hfree₂, _⟩
  rcases hs₁.owned.free_taken htable hfree₁ with ⟨hzones₁, hpool₁, htaken₁⟩
  rcases howned₁.free_taken hstack₁ hfree₂ with ⟨hzones₂, hpool₂, htaken₂⟩
  have haddress : forall b, heap₂.address b = s.fs.heap.address b := fun b =>
    address_congr (hzones₂.trans (hzones₁.trans hu.zones))
      (hpool₂.trans (hpool₁.trans hu.poolStart)) b
  have hrun : releaseTask s p = .ok (({ u with
      fs := { u.fs with heap := heap₂ } } : KernelState).setTask p
        (exitedTask (s.task p))) := by
    have hfree : u.free (u.task p).handles =
        .ok { u with fs := { u.fs with heap := heap₁ } } := by
      rw [congrArg Task.handles (congrFun htask p)]
      exact kernel_free_of_heap hfree₁
    refine ok_bind_iff.mpr ⟨u, hclose, ok_bind_iff.mpr ⟨_, hfree, ?_⟩⟩
    refine ok_bind_iff.mpr ⟨_, kernel_free_of_heap (h := heap₂) ?_, ?_⟩
    · rw [setTask_self, htask]
      exact hfree₂
    · unfold KernelState.setTask
      simp only [Function.update_self, Function.update_idem, htask]
      rfl
  rcases hs.releaseTask hp hlive hrun with ⟨hsame, howned⟩
  refine ⟨_, hrun, hsame, hu.mem, howned, ?_, hu.handle, hu.readers, hu.writers,
    fun b => ?_, haddress⟩
  · intro q hq hliveq i
    refine Eq.trans ?_ (hu.entries q hq hliveq i)
    unfold KernelState.entry
    rw [hsame.task, htask]
    unfold afterExit
    by_cases hqp : q = p
    · subst hqp
      rw [setTask_self]
      rfl
    · rw [setTask_other _ _ _ hqp]
      rfl
  · change heap₂.taken b = true <-> _
    rw [htaken₂, htaken₁, hu.blocks, address_congr hzones₁ hpool₁,
      address_congr hu.zones hu.poolStart, and_assoc, and_assoc, ← and_assoc,
      ← and_assoc, and_assoc, not_givesBack_iff]
    simp only [and_assoc]
    exact Iff.rfl

/-!
# Null pointers
-/

/-- The pool is the same and cut in the same way. -/
def SamePool (h h' : Heap) : Prop :=
  h'.zones = h.zones ∧ h'.poolStart = h.poolStart

theorem SamePool.refl (h : Heap) : SamePool h h := ⟨rfl, rfl⟩

theorem SamePool.trans {h₁ h₂ h₃ : Heap} (h₁₂ : SamePool h₁ h₂)
    (h₂₃ : SamePool h₂ h₃) : SamePool h₁ h₃ :=
  ⟨h₂₃.1.trans h₁₂.1, h₂₃.2.trans h₁₂.2⟩

theorem free_samePool {h h' : Heap} {x : Word} (hrun : Kernel.free h x = .ok h') :
    SamePool h h' := by
  unfold Kernel.free at hrun
  split at hrun
  · cases hrun
  · cases hrun
    exact ⟨rfl, rfl⟩

/-- Whatever has been freed before, the null pointer cannot be freed. -/
theorem SamePool.free_ne_zero {h h₁ h₂ : Heap} (hsame : SamePool h h₁)
    (hinv : HeapInv h) (hpos : 0 < h.poolStart.toNat) {x : Word}
    (hrun : Kernel.free h₁ x = .ok h₂) : x ≠ 0 := by
  rintro rfl
  have hnull := free_null hinv hpos
  unfold Kernel.free at hnull hrun
  rw [hsame.1, hsame.2] at hrun
  split at hnull
  · next hzone =>
      rw [hzone] at hrun
      cases hrun
  · cases hnull

theorem closeEntry_samePool {table : Word} {i : Nat}
    (hrun : closeEntry table s i = .ok u) :
    u.task = s.task ∧ SamePool s.fs.heap u.fs.heap := by
  have hclosed : forall {fs : FsState} {h : Word}, closeHandle s.fs h = .ok fs ->
      SamePool s.fs.heap fs.heap := fun hclose => free_samePool (closeHandle_heap hclose)
  unfold closeEntry at hrun
  dsimp only at hrun
  split at hrun
  · cases hrun
    exact ⟨rfl, SamePool.refl _⟩
  · split at hrun
    · rcases ok_bind_iff.mp hrun with ⟨fs, hclose, hr⟩
      cases hr
      exact ⟨rfl, hclosed hclose⟩
    · split at hrun
      · rcases ok_bind_iff.mp hrun with ⟨fs, hclose, hr⟩
        cases hr
        exact ⟨rfl, hclosed hclose⟩
      · cases hrun
        exact ⟨rfl, SamePool.refl _⟩

theorem releaseTask_pointers (hinv : HeapInv s.fs.heap)
    (hpos : 0 < s.fs.heap.poolStart.toNat) (hrun : releaseTask s p = .ok u) :
    (s.task p).handles ≠ 0 ∧ (s.task p).stack ≠ 0 := by
  rcases ok_bind_iff.mp hrun with ⟨s₁, hclose, hrun⟩
  rcases ok_bind_iff.mp hrun with ⟨s₂, htable, hrun⟩
  rcases ok_bind_iff.mp hrun with ⟨s₃, hstack, _⟩
  have hclosed : s₁.task = s.task ∧ SamePool s.fs.heap s₁.fs.heap := by
    refine foldlM_invariant
      (I := fun t => t.task = s.task ∧ SamePool s.fs.heap t.fs.heap) ?_
      hclose ⟨rfl, SamePool.refl _⟩
    rintro i _ t t' ⟨htask, hsame⟩ hturn
    rcases closeEntry_samePool hturn with ⟨htask', hsame'⟩
    exact ⟨htask'.trans htask, hsame.trans hsame'⟩
  rcases kernel_free_eq htable with ⟨h₁, hfree₁, rfl⟩
  rcases kernel_free_eq hstack with ⟨h₂, hfree₂, _⟩
  have hsame₁ := hclosed.2.trans (free_samePool hfree₁)
  have htask : s₁.task p = s.task p := congrFun hclosed.1 p
  constructor
  · rw [← htask]
    exact hclosed.2.free_ne_zero hinv hpos hfree₁
  · have hne := hsame₁.free_ne_zero hinv hpos hfree₂
    rw [setTask_self] at hne
    rw [← htask]
    exact hne

end Entries

end Kernel
end Rmmtos
