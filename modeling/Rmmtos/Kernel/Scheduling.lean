import Rmmtos.Kernel.System

/-!
# The scheduler's choice

{lit}`task_schedule` looks the tasks through, from the one behind the current
task round the list to the current task itself, until one of them is to run.
-/

namespace Rmmtos
namespace Kernel

open Library

/-!
# The scan
-/

/-- How a call of {lit}`task_schedule` comes to its end. -/
inductive Choice where
  | switchTo (newTask : Word)
  | stay
deriving DecidableEq, Repr

def Choice.resume (s : KernelState) : Choice -> KernelState
  | .switchTo newTask => { s with currentTask := newTask }
  | .stay => s

/-- A turn of the loop, with {lit}`hlt` as a wait that changes no state.  What an
overflow of {lit}`looped` changes is only whether the processor is halted. -/
def scanTurn (s : KernelState) (x : Search) : Search :=
  let newTask := x.rest.headD (s.taskList.headD 0)
  { searchTurn s x with
    found :=
      if (s.task newTask).state = .running then some (.switchTo newTask)
      else none }

def scanStart (s : KernelState) : Search :=
  ⟨tasksBehind s s.currentTask, false, 0, none⟩

def scanGoesOn (x : Search) : Bool :=
  x.found.isNone && (x.seenNonEnded || decide (x.looped < 2))

def scanLoop (turn : Search -> Search) (n : Nat) (x : Search) : Result Search :=
  whileLoop .hang scanGoesOn (fun x => .ok (turn x)) n x

/-- The scan, given up after {lit}`n` turns. -/
def scanTasks (s : KernelState) (n : Nat) : Result Choice :=
  scanLoop (scanTurn s) n (scanStart s) >>= fun x =>
    match x.found with
    | some (.switchTo newTask) =>
        if newTask ≠ s.currentTask then .ok (.switchTo newTask) else .ok .stay
    | _ => panic .noTasksToRun

/-!
# The cyclic order
-/

/-- The tasks in the order in which they are looked at. -/
def cyclicOrder (s : KernelState) : List Word :=
  tasksBehind s s.currentTask ++
    s.taskList.takeWhile (fun q => q != s.currentTask) ++ [s.currentTask]

def isRunning (s : KernelState) (p : Word) : Bool :=
  decide ((s.task p).state = .running)

def isEnded (s : KernelState) (p : Word) : Bool :=
  decide ((s.task p).state = .exited)

def FirstRunning (s : KernelState) (p : Word) : Prop :=
  exists before behind, cyclicOrder s = before ++ p :: behind ∧
    (s.task p).state = .running ∧
    forall q, q ∈ before -> (s.task q).state ≠ .running

def OnlyRunning (s : KernelState) (p : Word) : Prop :=
  (s.task p).state = .running ∧
    forall q, q ∈ s.taskList -> (s.task q).state = .running -> q = p

section Orders

variable {s : KernelState}

theorem firstRunning_iff {p : Word} :
    FirstRunning s p <-> (cyclicOrder s).find? (isRunning s) = some p := by
  rw [List.find?_eq_some_iff_append]
  unfold FirstRunning isRunning
  simp only [decide_eq_true_eq, Bool.not_eq_true', decide_eq_false_iff_not]
  constructor
  · rintro ⟨before, behind, horder, hrunning, hbefore⟩
    exact ⟨hrunning, before, behind, horder, hbefore⟩
  · rintro ⟨hrunning, before, behind, horder, hbefore⟩
    exact ⟨before, behind, horder, hrunning, hbefore⟩

theorem cyclicOrder_eq {before behind : List Word}
    (hlist : s.taskList = before ++ s.currentTask :: behind)
    (hbefore : s.currentTask ∉ before) :
    tasksBehind s s.currentTask = behind ∧
      cyclicOrder s = behind ++ before ++ [s.currentTask] := by
  have hother : forall q, q ∈ before -> (q != s.currentTask) = true :=
    fun q hq => bne_iff_ne.mpr fun heq => hbefore (heq ▸ hq)
  have hbehind : tasksBehind s s.currentTask = behind := by
    unfold tasksBehind
    rw [hlist, List.dropWhile_append_of_pos hother, List.dropWhile_cons_of_neg]
    · rfl
    · rw [bne_self_eq_false]
      exact Bool.false_ne_true
  refine ⟨hbehind, ?_⟩
  unfold cyclicOrder
  rw [hbehind, hlist, List.takeWhile_append_of_pos hother, List.takeWhile_cons_of_neg]
  · rw [List.append_nil]
  · rw [bne_self_eq_false]
    exact Bool.false_ne_true

theorem mem_cyclicOrder (hcurrent : s.currentTask ∈ s.taskList) (p : Word) :
    p ∈ cyclicOrder s <-> p ∈ s.taskList := by
  rcases List.eq_append_cons_of_mem hcurrent with ⟨before, behind, hlist, hbefore⟩
  rw [(cyclicOrder_eq hlist hbefore).2, hlist]
  simp only [List.mem_append, List.mem_cons, List.not_mem_nil, or_false]
  tauto

end Orders

/-!
# The turns of the scan
-/

def toVisit (s : KernelState) (x : Search) : List Word :=
  if x.looped = 0 then x.rest ++ s.taskList else x.rest

/-- A turn that does as the scan does, until the third pass begins. -/
def TurnsLike (s : KernelState) (turn : Search -> Search) : Prop :=
  forall x, x.looped ≤ 1 -> turn x = scanTurn s x

section Turns

variable {s : KernelState} {turn : Search -> Search} {x : Search} {p : Word}
  {rest : List Word}

theorem turnsLike_scanTurn : TurnsLike s (scanTurn s) :=
  fun _ _ => rfl

theorem turnsLike_searchTurn : TurnsLike s (searchTurn s) := by
  intro x hx
  unfold scanTurn searchTurn
  dsimp only
  have hlooped : ¬ 2 < if x.rest.isEmpty then x.looped + 1 else x.looped := by
    split <;> omega
  rw [decide_eq_false hlooped, Bool.and_false, if_neg Bool.false_ne_true]

theorem scanTurn_at (hx : x.looped ≤ 1) (hvisit : toVisit s x = p :: rest) :
    x.rest.headD (s.taskList.headD 0) = p ∧ toVisit s (scanTurn s x) = rest ∧
      (scanTurn s x).looped ≤ 1 := by
  rcases x with ⟨tasks, seen, looped, found⟩
  dsimp only at hx
  unfold toVisit at hvisit ⊢
  unfold scanTurn searchTurn
  dsimp only at hvisit ⊢
  cases tasks with
  | nil =>
      split at hvisit
      · next hfirst =>
          subst hfirst
          rw [List.nil_append] at hvisit
          rw [hvisit]
          exact ⟨rfl, rfl, Nat.le_refl 1⟩
      · cases hvisit
  | cons q tasks =>
      split at hvisit
      · next hfirst =>
          subst hfirst
          rw [List.cons_append] at hvisit
          cases hvisit
          exact ⟨rfl, rfl, Nat.zero_le 1⟩
      · next hlater =>
          cases hvisit
          exact ⟨rfl, if_neg hlater, hx⟩

theorem scanTurn_visits (hx : x.looped ≤ 1) (hvisit : toVisit s x = p :: rest) :
    (scanTurn s x).seenNonEnded = (x.seenNonEnded || !isEnded s p) ∧
      (scanTurn s x).found =
        if isRunning s p then some (.switchTo p) else none := by
  rcases scanTurn_at hx hvisit with ⟨hat, _⟩
  unfold scanTurn searchTurn isEnded isRunning
  dsimp only
  rw [hat]
  simp only [ne_eq, decide_not, decide_eq_true_eq, and_self]

theorem scanLoop_turn (n : Nat) (h : scanGoesOn x = true) :
    scanLoop turn (n + 1) x = scanLoop turn n (turn x) :=
  whileLoop_turn n h rfl

theorem scanLoop_done (n : Nat) (h : scanGoesOn x = false) :
    scanLoop turn n x = .ok x :=
  whileLoop_done n h

theorem scanGoesOn_none (hx : x.looped ≤ 1) (hfound : x.found = none) :
    scanGoesOn x = true := by
  unfold scanGoesOn
  rw [hfound, decide_eq_true (Nat.lt_succ_of_le hx), Bool.or_true]
  rfl

theorem scan_found (hturn : TurnsLike s turn) {w : List Word} (hx : x.looped ≤ 1)
    (hfound : x.found = none) (hvisit : toVisit s x = w)
    (hfind : w.find? (isRunning s) = some p) {n : Nat} (hn : w.length ≤ n) :
    exists y, scanLoop turn n x = .ok y ∧ y.found = some (.switchTo p) := by
  induction w generalizing x n with
  | nil => cases hfind
  | cons q w ih =>
      cases n with
      | zero => cases hn
      | succ n =>
          have hnext := scanTurn_at hx hvisit
          have hlooks := (scanTurn_visits hx hvisit).2
          rw [scanLoop_turn n (scanGoesOn_none hx hfound), hturn x hx]
          cases hq : isRunning s q with
          | true =>
              rw [List.find?_cons_of_pos hq] at hfind
              cases hfind
              rw [hq, if_pos rfl] at hlooks
              refine ⟨scanTurn s x, scanLoop_done n ?_, hlooks⟩
              unfold scanGoesOn
              rw [hlooks]
              rfl
          | false =>
              have hskip : ¬ isRunning s q = true := by
                rw [hq]
                exact Bool.false_ne_true
              rw [List.find?_cons_of_neg hskip] at hfind
              rw [if_neg hskip] at hlooks
              exact ih hnext.2.2 hlooks hnext.2.1 hfind (Nat.le_of_succ_le_succ hn)

theorem scan_round (hturn : TurnsLike s turn) {w : List Word} (hx : x.looped ≤ 1)
    (hfound : x.found = none) (hvisit : toVisit s x = w)
    (hnone : forall q, q ∈ w -> isRunning s q = false) :
    exists y, (forall n, scanLoop turn (w.length + n) x = scanLoop turn n y) ∧
      toVisit s y = [] ∧ y.looped ≤ 1 ∧ y.found = none ∧
      y.seenNonEnded = (x.seenNonEnded || w.any fun q => !isEnded s q) := by
  induction w generalizing x with
  | nil =>
      refine ⟨x, fun n => ?_, hvisit, hx, hfound, ?_⟩
      · rw [List.length_nil, Nat.zero_add]
      · rw [List.any_nil, Bool.or_false]
  | cons q w ih =>
      rcases scanTurn_at hx hvisit with ⟨_, hvisit', hx'⟩
      rcases scanTurn_visits hx hvisit with ⟨hseen, hlooks⟩
      have hskip : ¬ isRunning s q = true := by
        rw [hnone q List.mem_cons_self]
        exact Bool.false_ne_true
      rw [if_neg hskip] at hlooks
      rcases ih hx' hlooks hvisit' fun p hp => hnone p (List.mem_cons_of_mem q hp) with
        ⟨y, hrun, hend, hlooped, hnot, hsaw⟩
      refine ⟨y, fun n => ?_, hend, hlooped, hnot, ?_⟩
      · rw [List.length_cons, Nat.add_right_comm,
          scanLoop_turn _ (scanGoesOn_none hx hfound), hturn x hx, hrun n]
      · rw [hsaw, hseen, List.any_cons, Bool.or_assoc]

structure Fruitless (s : KernelState) (x : Search) : Prop where
  idle : forall q, q ∈ s.taskList -> isRunning s q = false
  nonempty : s.taskList ≠ []
  seen : x.seenNonEnded = true
  rest : forall q, q ∈ x.rest -> q ∈ s.taskList

theorem Fruitless.next (hx : Fruitless s x) : Fruitless s (scanTurn s x) where
  idle := hx.idle
  nonempty := hx.nonempty
  seen := by
    unfold scanTurn searchTurn
    dsimp only
    rw [hx.seen, Bool.true_or]
  rest := (searchTurn_tasks hx.nonempty hx.rest).1

theorem Fruitless.not_running (hx : Fruitless s x) :
    (s.task (x.rest.headD (s.taskList.headD 0))).state ≠ .running :=
  of_decide_eq_false (hx.idle _ (nextTask_mem hx.nonempty hx.rest))

theorem Fruitless.goes_on (hx : Fruitless s x) (hfound : x.found = none) (n : Nat) :
    scanLoop (scanTurn s) n x = .error .hang := by
  refine whileLoop_diverges (I := fun x => Fruitless s x ∧ x.found = none) ?_ ?_ n
    ⟨hx, hfound⟩
  · intro y hy
    unfold scanGoesOn
    rw [hy.1.seen, hy.2, Bool.true_or]
    rfl
  · intro y hy
    exact ⟨_, rfl, hy.1.next, if_neg hy.1.not_running⟩

theorem Fruitless.halts (hx : Fruitless s x) (hfound : x.found = none)
    (hlooped : x.looped ≤ 2) {n : Nat}
    (hn : (2 - x.looped) * s.taskList.length + x.rest.length < n) :
    exists y, scanLoop (searchTurn s) n x = .ok y ∧ y.found = some .halt := by
  induction n generalizing x with
  | zero => omega
  | succ n ih =>
      have hgo : scanGoesOn x = true := by
        unfold scanGoesOn
        rw [hfound, hx.seen, Bool.true_or]
        rfl
      have hnext : Fruitless s (searchTurn s x) :=
        ⟨hx.idle, hx.nonempty, hx.next.seen, hx.next.rest⟩
      have hhalts : (searchTurn s x).found =
          if 2 < (searchTurn s x).looped then some .halt else none := by
        unfold searchTurn
        dsimp only
        rw [if_neg hx.not_running, hx.seen, Bool.true_or, Bool.true_and]
        simp only [decide_eq_true_eq]
      have hlength := List.length_pos_of_ne_nil hx.nonempty
      rw [scanLoop_turn n hgo]
      by_cases hthird : 2 < (searchTurn s x).looped
      · rw [if_pos hthird] at hhalts
        refine ⟨_, scanLoop_done n ?_, hhalts⟩
        unfold scanGoesOn
        rw [hhalts]
        rfl
      · rw [if_neg hthird] at hhalts
        refine ih hnext hhalts (Nat.le_of_not_lt hthird) ?_
        unfold searchTurn at hthird ⊢
        dsimp only at hthird ⊢
        cases hrest : x.rest with
        | nil =>
            rw [hrest] at hthird hn
            simp only [List.isEmpty_nil, if_true, List.length_tail,
              List.length_nil] at hthird hn ⊢
            have hround : (2 - x.looped) * s.taskList.length =
                (2 - (x.looped + 1)) * s.taskList.length + s.taskList.length := by
              rw [← Nat.succ_mul]
              congr 1
              omega
            omega
        | cons q rest =>
            rw [hrest] at hn
            simp only [List.isEmpty_cons, Bool.false_eq_true, if_false,
              List.tail_cons, List.length_cons] at hn ⊢
            omega

end Turns

/-!
# The choice
-/

def chosen (s : KernelState) : Result Choice :=
  match (cyclicOrder s).find? (isRunning s) with
  | some p => if p ≠ s.currentTask then .ok (.switchTo p) else .ok .stay
  | none =>
      if s.taskList.all (isEnded s) then panic .noTasksToRun else .error .hang

section Choices

variable {s : KernelState} {p : Word}

theorem toVisit_start (hcurrent : s.currentTask ∈ s.taskList) :
    toVisit s (scanStart s) = cyclicOrder s ++ tasksBehind s s.currentTask := by
  rcases List.eq_append_cons_of_mem hcurrent with ⟨before, behind, hlist, hbefore⟩
  rcases cyclicOrder_eq hlist hbefore with ⟨hbehind, horder⟩
  change tasksBehind s s.currentTask ++ s.taskList = _
  rw [horder, hbehind, hlist]
  simp only [List.append_assoc, List.cons_append, List.nil_append]

theorem idle_of_none (hcurrent : s.currentTask ∈ s.taskList)
    (hnone : (cyclicOrder s).find? (isRunning s) = none) :
    forall q, q ∈ s.taskList -> isRunning s q = false := by
  intro q hq
  have hskip := List.find?_eq_none.mp hnone q ((mem_cyclicOrder hcurrent q).mpr hq)
  exact Bool.eq_false_iff.mpr hskip

theorem fruitless_of_end (hcurrent : s.currentTask ∈ s.taskList)
    (hnone : (cyclicOrder s).find? (isRunning s) = none) {y : Search}
    (hrest : y.rest = s.taskList.tail) (hseen : y.seenNonEnded = true) :
    Fruitless s y where
  idle := idle_of_none hcurrent hnone
  nonempty := List.ne_nil_of_mem hcurrent
  seen := hseen
  rest := by
    rw [hrest]
    exact fun q hq => List.mem_of_mem_tail hq

theorem scan_end {turn : Search -> Search} (hturn : TurnsLike s turn)
    (hcurrent : s.currentTask ∈ s.taskList)
    (hnone : (cyclicOrder s).find? (isRunning s) = none) :
    exists y, (forall n, scanLoop turn ((toVisit s (scanStart s)).length + 1 + n)
        (scanStart s) = scanLoop turn n y) ∧
      y.found = none ∧ y.looped = 2 ∧ y.rest = s.taskList.tail ∧
      y.seenNonEnded = !s.taskList.all (isEnded s) := by
  have hlist := idle_of_none hcurrent hnone
  have hvisited : forall q, q ∈ toVisit s (scanStart s) <-> q ∈ s.taskList := by
    intro q
    rw [toVisit_start hcurrent, List.mem_append, mem_cyclicOrder hcurrent]
    constructor
    · rintro (hq | hq)
      · exact hq
      · exact List.dropWhile_subset _ (List.mem_of_mem_tail hq)
    · exact Or.inl
  rcases scan_round hturn (Nat.zero_le 1) rfl rfl
    fun q hq => hlist q ((hvisited q).mp hq) with
    ⟨y, hrun, hend, hlooped, hfound, hseen⟩
  have hne := List.ne_nil_of_mem hcurrent
  have hfirst : y.looped = 1 ∧ y.rest = [] := by
    unfold toVisit at hend
    split at hend
    · exact absurd (List.append_eq_nil_iff.mp hend).2 hne
    · exact ⟨by omega, hend⟩
  rcases hfirst with ⟨hlooped, hrest⟩
  have hhead : y.rest.headD (s.taskList.headD 0) ∈ s.taskList := by
    apply nextTask_mem hne
    rw [hrest]
    exact nofun
  refine ⟨scanTurn s y, fun n => ?_, ?_, ?_, ?_, ?_⟩
  · rw [Nat.add_right_comm, Nat.add_assoc, hrun (n + 1),
      scanLoop_turn n (scanGoesOn_none (Nat.le_of_eq hlooped) hfound),
      hturn y (Nat.le_of_eq hlooped)]
  · exact if_neg (of_decide_eq_false (hlist _ hhead))
  · unfold scanTurn searchTurn
    rw [hrest, hlooped]
    rfl
  · unfold scanTurn searchTurn
    rw [hrest]
    rfl
  · have hall : y.seenNonEnded = s.taskList.any fun q => !isEnded s q := by
      rw [hseen, Bool.eq_iff_iff]
      change (false || _) = true <-> _
      rw [Bool.false_or, List.any_eq_true, List.any_eq_true]
      simp only [hvisited]
    unfold scanTurn searchTurn
    dsimp only
    rw [hall, List.not_all_eq_any_not, Bool.or_eq_left_iff_imp, decide_eq_true_eq]
    intro hlive
    refine List.any_eq_true.mpr ⟨_, hhead, ?_⟩
    unfold isEnded
    rw [decide_eq_false hlive]
    rfl

/-- The scan as the choice. -/
theorem scanTasks_chosen (hcurrent : s.currentTask ∈ s.taskList) {n : Nat}
    (hn : (toVisit s (scanStart s)).length + 1 ≤ n) : scanTasks s n = chosen s := by
  unfold scanTasks chosen
  cases hfind : (cyclicOrder s).find? (isRunning s) with
  | some p =>
      have hvisit : (toVisit s (scanStart s)).find? (isRunning s) = some p := by
        rw [toVisit_start hcurrent, List.find?_append, hfind]
        rfl
      rcases scan_found turnsLike_scanTurn (Nat.zero_le 1) rfl rfl hvisit
        (Nat.le_of_succ_le hn) with ⟨y, hrun, hfound⟩
      rw [hrun, ok_bind, hfound]
  | none =>
      rcases Nat.exists_eq_add_of_le hn with ⟨m, rfl⟩
      rcases scan_end turnsLike_scanTurn hcurrent hfind with
        ⟨y, hrun, hfound, hlooped, hrest, hseen⟩
      rw [hrun m]
      dsimp only
      cases hall : s.taskList.all (isEnded s) with
      | true =>
          have hends : scanGoesOn y = false := by
            unfold scanGoesOn
            rw [hseen, hall, hlooped]
            exact Bool.and_false _
          rw [scanLoop_done m hends, ok_bind, hfound]
          rfl
      | false =>
          have hy := fruitless_of_end hcurrent hfind hrest (by rw [hseen, hall]; rfl)
          rw [hy.goes_on hfound m]
          rfl

theorem scanTasks_mono {r : Result Choice} {n m : Nat} (hrun : scanTasks s n = r)
    (hr : r ≠ .error .hang) (hle : n ≤ m) : scanTasks s m = r := by
  unfold scanTasks at hrun ⊢
  have hscan : scanLoop (scanTurn s) n (scanStart s) ≠ .error .hang := by
    intro hhang
    rw [hhang] at hrun
    exact hr hrun.symm
  have hmore : scanLoop (scanTurn s) m (scanStart s) =
      scanLoop (scanTurn s) n (scanStart s) :=
    whileLoop_fuel_mono rfl hscan hle
  rw [hmore]
  exact hrun

theorem scan_ends_iff (hcurrent : s.currentTask ∈ s.taskList) {r : Result Choice}
    (hr : r ≠ .error .hang) : (exists n, scanTasks s n = r) <-> chosen s = r := by
  constructor
  · rintro ⟨n, hrun⟩
    rw [← scanTasks_chosen hcurrent (Nat.le_max_right n _)]
    exact scanTasks_mono hrun hr (Nat.le_max_left n _)
  · intro h
    exact ⟨_, (scanTasks_chosen hcurrent (Nat.le_refl _)).trans h⟩

theorem scan_goes_on_iff (hcurrent : s.currentTask ∈ s.taskList) :
    (forall n, scanTasks s n = .error .hang) <-> chosen s = .error .hang := by
  constructor
  · intro h
    rw [← scanTasks_chosen hcurrent (Nat.le_refl _)]
    exact h _
  · intro h n
    by_contra hrun
    have hends := (scan_ends_iff hcurrent hrun).mp ⟨n, rfl⟩
    exact hrun (hends.symm.trans h)

theorem searchTask_eq (s : KernelState) : searchTask s =
    scanLoop (searchTurn s) (4 * (s.taskList.length + 1) + 1) (scanStart s) :=
  (scanLoop_turn _ rfl).symm

theorem toVisit_length (hcurrent : s.currentTask ∈ s.taskList) :
    (toVisit s (scanStart s)).length + 1 ≤ 2 * s.taskList.length := by
  rcases List.eq_append_cons_of_mem hcurrent with ⟨before, behind, hlist, hbefore⟩
  rcases cyclicOrder_eq hlist hbefore with ⟨hbehind, horder⟩
  rw [toVisit_start hcurrent, horder, hbehind, hlist]
  simp only [List.length_append, List.length_cons, List.length_nil]
  omega

/-- The scheduler's search as the choice: it halts where the scan goes on. -/
theorem taskSchedule_chosen (hcurrent : s.currentTask ∈ s.taskList) :
    taskSchedule s =
      match chosen s with
      | .ok choice => .ok (choice.resume s)
      | .error .hang => .ok s
      | .error e => .error e := by
  have hlength := toVisit_length hcurrent
  unfold taskSchedule chosen
  rw [searchTask_eq]
  cases hfind : (cyclicOrder s).find? (isRunning s) with
  | some p =>
      have hvisit : (toVisit s (scanStart s)).find? (isRunning s) = some p := by
        rw [toVisit_start hcurrent, List.find?_append, hfind]
        rfl
      rcases scan_found (n := 4 * (s.taskList.length + 1) + 1) turnsLike_searchTurn
        (Nat.zero_le 1) rfl rfl hvisit (by omega) with ⟨y, hrun, hfound⟩
      rw [hrun, ok_bind, hfound]
      dsimp only
      by_cases hp : p = s.currentTask
      · rw [if_neg fun h => h hp, hp]
        rfl
      · rw [if_pos hp]
        rfl
  | none =>
      have hfuel : (toVisit s (scanStart s)).length + 1 ≤
          4 * (s.taskList.length + 1) + 1 := by
        omega
      rcases Nat.exists_eq_add_of_le hfuel with ⟨m, hm⟩
      rcases scan_end turnsLike_searchTurn hcurrent hfind with
        ⟨y, hrun, hfound, hlooped, hrest, hseen⟩
      rw [hm, hrun m]
      dsimp only
      cases hall : s.taskList.all (isEnded s) with
      | true =>
          have hends : scanGoesOn y = false := by
            unfold scanGoesOn
            rw [hseen, hall, hlooped]
            exact Bool.and_false _
          rw [scanLoop_done m hends, ok_bind, hfound]
          rfl
      | false =>
          have hy := fruitless_of_end hcurrent hfind hrest (by rw [hseen, hall]; rfl)
          have hroom : (2 - y.looped) * s.taskList.length + y.rest.length < m := by
            rw [hlooped, hrest, List.length_tail]
            omega
          rcases hy.halts hfound (Nat.le_of_eq hlooped) hroom with ⟨z, hz, hhalts⟩
          rw [hz, ok_bind, hhalts]
          rfl

theorem exists_cyclicOrder (hcurrent : s.currentTask ∈ s.taskList)
    (hnodup : s.taskList.Nodup) : exists others,
      cyclicOrder s = others ++ [s.currentTask] ∧ s.currentTask ∉ others ∧
        (cyclicOrder s).Nodup := by
  rcases List.eq_append_cons_of_mem hcurrent with ⟨before, behind, hlist, hbefore⟩
  rcases cyclicOrder_eq hlist hbefore with ⟨_, horder⟩
  have hperm : (behind ++ before ++ [s.currentTask]).Perm s.taskList := by
    rw [hlist, List.append_assoc]
    refine List.perm_append_comm.trans ?_
    rw [List.append_assoc]
    exact List.Perm.refl _
  have horder' := hperm.nodup_iff.mpr hnodup
  refine ⟨behind ++ before, horder, ?_, ?_⟩
  · intro hmem
    exact (List.nodup_append.mp horder').2.2 _ hmem _ (List.mem_singleton.mpr rfl) rfl
  · rw [horder]
    exact horder'

theorem firstRunning_current_iff (hcurrent : s.currentTask ∈ s.taskList)
    (hnodup : s.taskList.Nodup) :
    FirstRunning s s.currentTask <-> OnlyRunning s s.currentTask := by
  rcases exists_cyclicOrder hcurrent hnodup with ⟨others, horder, hothers, horders⟩
  constructor
  · intro hfirst
    have hrunning : (s.task s.currentTask).state = .running := by
      rcases hfirst with ⟨_, _, _, hrunning, _⟩
      exact hrunning
    refine ⟨hrunning, fun q hq hrun => ?_⟩
    rw [firstRunning_iff, horder, List.find?_append] at hfirst
    rw [← mem_cyclicOrder hcurrent, horder, List.mem_append, List.mem_singleton] at hq
    rcases hq with hq | hq
    · cases hfind : others.find? (isRunning s) with
      | none =>
          exact absurd (decide_eq_true hrun) (List.find?_eq_none.mp hfind q hq)
      | some r =>
          rw [hfind, Option.some_or, Option.some_inj] at hfirst
          exact absurd (hfirst ▸ List.mem_of_find?_eq_some hfind) hothers
    · exact hq
  · rintro ⟨hrunning, honly⟩
    refine ⟨others, [], horder, hrunning, fun q hq hrun => ?_⟩
    have hlisted : q ∈ s.taskList := by
      rw [← mem_cyclicOrder hcurrent, horder]
      exact List.mem_append_left _ hq
    exact hothers (honly q hlisted hrun ▸ hq)

theorem chosen_switchTo_iff : chosen s = .ok (.switchTo p) <->
    FirstRunning s p ∧ p ≠ s.currentTask := by
  rw [firstRunning_iff]
  unfold chosen
  cases (cyclicOrder s).find? (isRunning s) with
  | none =>
      refine iff_of_false ?_ nofun
      dsimp only
      split <;> exact nofun
  | some q =>
      dsimp only
      by_cases hq : q = s.currentTask
      · rw [if_neg fun h => h hq]
        refine iff_of_false nofun ?_
        rintro ⟨hsome, hne⟩
        cases hsome
        exact hne hq
      · rw [if_pos hq]
        constructor
        · intro h
          cases h
          exact ⟨rfl, hq⟩
        · rintro ⟨hsome, _⟩
          cases hsome
          rfl

theorem chosen_stay_iff : chosen s = .ok .stay <-> FirstRunning s s.currentTask := by
  rw [firstRunning_iff]
  unfold chosen
  cases (cyclicOrder s).find? (isRunning s) with
  | none =>
      refine iff_of_false ?_ nofun
      dsimp only
      split <;> exact nofun
  | some q =>
      dsimp only
      by_cases hq : q = s.currentTask
      · rw [if_neg fun h => h hq, hq]
        exact iff_of_true rfl rfl
      · rw [if_pos hq]
        refine iff_of_false nofun ?_
        intro hsome
        cases hsome
        exact hq rfl

theorem find_none_iff (hcurrent : s.currentTask ∈ s.taskList) :
    (cyclicOrder s).find? (isRunning s) = none <->
      forall q, q ∈ s.taskList -> (s.task q).state ≠ .running := by
  rw [List.find?_eq_none]
  simp only [mem_cyclicOrder hcurrent, isRunning, decide_eq_true_eq, ne_eq]

theorem all_ended_iff : s.taskList.all (isEnded s) = true <->
    forall q, q ∈ s.taskList -> (s.task q).state = .exited := by
  rw [List.all_eq_true]
  simp only [isEnded, decide_eq_true_eq]

theorem chosen_panic_iff (hcurrent : s.currentTask ∈ s.taskList) :
    chosen s = panic .noTasksToRun <->
      forall q, q ∈ s.taskList -> (s.task q).state = .exited := by
  rw [← all_ended_iff]
  unfold chosen
  cases hfind : (cyclicOrder s).find? (isRunning s) with
  | none =>
      dsimp only
      split
      · next hall => exact iff_of_true rfl hall
      · next hlive => exact iff_of_false nofun hlive
  | some q =>
      refine iff_of_false ?_ ?_
      · dsimp only
        split <;> exact nofun
      · intro hall
        have hended := all_ended_iff.mp hall q ((mem_cyclicOrder hcurrent q).mp
          (List.mem_of_find?_eq_some hfind))
        have hfound : isRunning s q = true := List.find?_some hfind
        have hrunning := of_decide_eq_true hfound
        rw [hended] at hrunning
        cases hrunning

theorem chosen_hang_iff (hcurrent : s.currentTask ∈ s.taskList) :
    chosen s = .error .hang <->
      (forall q, q ∈ s.taskList -> (s.task q).state ≠ .running) ∧
        exists q, q ∈ s.taskList ∧ (s.task q).state ≠ .exited := by
  have hlive : (exists q, q ∈ s.taskList ∧ (s.task q).state ≠ .exited) <->
      ¬ s.taskList.all (isEnded s) = true := by
    rw [all_ended_iff]
    simp only [not_forall, exists_prop, ne_eq]
  rw [← find_none_iff hcurrent, hlive]
  unfold chosen
  cases (cyclicOrder s).find? (isRunning s) with
  | none =>
      dsimp only
      split
      · next hall => exact iff_of_false nofun fun h => h.2 hall
      · next hlive => exact iff_of_true rfl ⟨rfl, hlive⟩
  | some q =>
      refine iff_of_false ?_ fun h => nomatch h.1
      dsimp only
      split <;> exact nofun

end Choices

/-!
# Rounds
-/

inductive ScheduleCalls : KernelState -> List Word -> KernelState -> Prop where
  | none (s : KernelState) : ScheduleCalls s [] s
  | call {s s' t : KernelState} {tasks : List Word} : taskSchedule s = .ok s' ->
      ScheduleCalls s' tasks t -> ScheduleCalls s (s'.currentTask :: tasks) t

def runningOrder (s : KernelState) : List Word :=
  (cyclicOrder s).filter (isRunning s)

section Rounds

variable {s s' t : KernelState} {p : Word}

theorem cyclicOrder_resume (hcurrent : s.currentTask ∈ s.taskList)
    (hnodup : s.taskList.Nodup) {before behind : List Word}
    (horder : cyclicOrder s = before ++ p :: behind) :
    cyclicOrder { s with currentTask := p } = behind ++ before ++ [p] := by
  rcases List.eq_append_cons_of_mem hcurrent with ⟨front, rest, hlist, hfront⟩
  have hsplit := (cyclicOrder_eq hlist hfront).2
  rw [horder] at hsplit
  have hresume : forall xs ys, s.taskList = xs ++ p :: ys ->
      cyclicOrder { s with currentTask := p } = ys ++ xs ++ [p] := by
    intro xs ys hxs
    rw [hxs] at hnodup
    refine (cyclicOrder_eq (s := { s with currentTask := p }) hxs ?_).2
    intro hp
    exact (List.nodup_append.mp hnodup).2.2 p hp p List.mem_cons_self rfl
  rcases List.eq_nil_or_concat' behind with rfl | ⟨behind, q, rfl⟩
  · rcases List.append_inj' hsplit rfl with ⟨rfl, hlast⟩
    cases hlast
    rw [hresume front rest hlist]
    rfl
  · rw [← List.cons_append, ← List.append_assoc] at hsplit
    rcases List.append_inj' hsplit rfl with ⟨hinside, hlast⟩
    cases hlast
    rcases List.append_eq_append_iff.mp hinside with
      ⟨xs, rfl, hxs⟩ | ⟨xs, rfl, hxs⟩
    · cases xs with
      | nil =>
          rw [List.nil_append] at hxs
          rw [List.append_nil] at hinside
          rw [hresume [] (behind ++ s.currentTask :: before) ?_]
          · simp only [List.append_nil, List.append_assoc, List.cons_append,
              List.nil_append]
          · rw [hlist, ← hxs]
            simp only [List.append_nil, List.nil_append, List.cons_append]
      | cons q xs =>
          rw [List.cons_append] at hxs
          cases hxs
          rw [hresume (front ++ s.currentTask :: before) xs ?_]
          · simp only [List.append_assoc, List.cons_append, List.nil_append]
          · rw [hlist]
            simp only [List.append_assoc, List.cons_append]
    · rw [hresume xs (behind ++ s.currentTask :: rest) ?_]
      · simp only [List.append_assoc, List.cons_append, List.nil_append]
      · rw [hlist, hxs]
        simp only [List.append_assoc, List.cons_append]

theorem schedule_rotates (hcurrent : s.currentTask ∈ s.taskList)
    (hnodup : s.taskList.Nodup) (hrunning : runningOrder s ≠ [])
    (hrun : taskSchedule s = .ok s') :
    exists rest, runningOrder s = s'.currentTask :: rest ∧
      runningOrder s' = rest ++ [s'.currentTask] ∧
      s' = { s with currentTask := s'.currentTask } := by
  have hfind : exists q, (cyclicOrder s).find? (isRunning s) = some q := by
    rcases List.exists_mem_of_ne_nil _ hrunning with ⟨q, hq⟩
    rcases List.mem_filter.mp hq with ⟨hmem, hstate⟩
    exact Option.isSome_iff_exists.mp (List.find?_isSome.mpr ⟨q, hmem, hstate⟩)
  rcases hfind with ⟨q, hfind⟩
  have hs' : s' = { s with currentTask := q } := by
    rw [taskSchedule_chosen hcurrent] at hrun
    unfold chosen at hrun
    rw [hfind] at hrun
    dsimp only at hrun
    by_cases hq : q = s.currentTask
    · rw [if_neg fun h => h hq] at hrun
      cases hrun
      rw [hq]
      rfl
    · rw [if_pos hq] at hrun
      cases hrun
      rfl
  subst hs'
  rcases firstRunning_iff.mpr hfind with ⟨before, behind, horder, hstate, hbefore⟩
  have hidle : before.filter (isRunning s) = [] := by
    rw [List.filter_eq_nil_iff]
    intro r hr hrunning
    exact hbefore r hr (of_decide_eq_true hrunning)
  have hq : isRunning s q = true := decide_eq_true hstate
  refine ⟨behind.filter (isRunning s), ?_, ?_, rfl⟩
  · unfold runningOrder
    rw [horder, List.filter_append, hidle, List.filter_cons_of_pos hq]
    rfl
  · unfold runningOrder
    rw [cyclicOrder_resume hcurrent hnodup horder]
    change (behind ++ before ++ [q]).filter (isRunning s) = _
    rw [List.filter_append, List.filter_append, hidle, List.append_nil,
      List.filter_cons_of_pos hq]
    rfl

/-- The calls of a round go on with the tasks to run in their order. -/
theorem calls_first {tasks : List Word} (hcalls : ScheduleCalls s tasks t)
    (hcurrent : s.currentTask ∈ s.taskList) (hnodup : s.taskList.Nodup)
    (hlength : tasks.length ≤ (runningOrder s).length) :
    tasks <+: runningOrder s := by
  induction hcalls with
  | none s => exact List.nil_prefix
  | @call s s' t tasks hrun _ ih =>
      have hne : runningOrder s ≠ [] := by
        intro hnil
        rw [hnil] at hlength
        cases hlength
      rcases schedule_rotates hcurrent hnodup hne hrun with ⟨rest, hfrom, hto, hs'⟩
      have hin := taskSchedule_current hcurrent hrun
      have hlist : s'.taskList = s.taskList := by
        rw [hs']
      rw [hfrom, List.length_cons, List.length_cons] at hlength
      have hshort := Nat.le_of_succ_le_succ hlength
      rw [← hlist] at hin hnodup
      have hprefix := ih hin hnodup ?_
      · rw [hto] at hprefix
        rw [hfrom]
        exact (List.prefix_cons_inj _).mpr
          (List.prefix_of_prefix_length_le hprefix (List.prefix_append _ _) hshort)
      · rw [hto, List.length_append]
        exact Nat.le_succ_of_le hshort

theorem ScheduleCalls.take {tasks : List Word} (hcalls : ScheduleCalls s tasks t)
    (n : Nat) : exists u, ScheduleCalls s (tasks.take n) u := by
  induction hcalls generalizing n with
  | none s =>
      rw [List.take_nil]
      exact ⟨s, ScheduleCalls.none s⟩
  | @call s s' t tasks hrun _ ih =>
      cases n with
      | zero => exact ⟨s, ScheduleCalls.none s⟩
      | succ n =>
          rcases ih n with ⟨u, hu⟩
          exact ⟨u, ScheduleCalls.call hrun hu⟩

/-- While a task to run waits, no task is gone on with twice. -/
theorem passed_over_once {tasks : List Word} (hcalls : ScheduleCalls s tasks t)
    (hcurrent : s.currentTask ∈ s.taskList) (hnodup : s.taskList.Nodup)
    (hp : p ∈ s.taskList) (hrunning : (s.task p).state = .running)
    (hwaits : p ∉ tasks) : tasks.Nodup := by
  have horder : p ∈ runningOrder s :=
    List.mem_filter.mpr ⟨(mem_cyclicOrder hcurrent p).mpr hp, decide_eq_true hrunning⟩
  have hdistinct : (runningOrder s).Nodup := by
    rcases exists_cyclicOrder hcurrent hnodup with ⟨_, _, _, hcyclic⟩
    exact hcyclic.filter _
  rcases Nat.le_total tasks.length (runningOrder s).length with hshort | hlong
  · exact (calls_first hcalls hcurrent hnodup hshort).sublist.nodup hdistinct
  · rcases hcalls.take (runningOrder s).length with ⟨u, hround⟩
    have hlength : (tasks.take (runningOrder s).length).length =
        (runningOrder s).length := by
      rw [List.length_take, Nat.min_eq_left hlong]
    have hprefix := calls_first hround hcurrent hnodup (Nat.le_of_eq hlength)
    rw [← hprefix.eq_of_length hlength] at horder
    exact absurd (List.mem_of_mem_take horder) hwaits

/-- After some calls of the scheduler the next one chooses the task. -/
def SelectedAgain (s : KernelState) (p : Word) : Prop :=
  exists tasks t, ScheduleCalls s tasks t ∧ FirstRunning t p

theorem schedule_returns (hcurrent : s.currentTask ∈ s.taskList)
    (hrunning : runningOrder s ≠ []) : exists s', taskSchedule s = .ok s' := by
  rw [taskSchedule_chosen hcurrent]
  unfold chosen
  cases hfind : (cyclicOrder s).find? (isRunning s) with
  | none =>
      refine absurd ?_ hrunning
      unfold runningOrder
      rw [← List.head?_eq_none_iff, List.head?_filter]
      exact hfind
  | some q =>
      dsimp only
      by_cases hq : q = s.currentTask
      · rw [if_neg fun h => h hq]
        exact ⟨_, rfl⟩
      · rw [if_pos hq]
        exact ⟨_, rfl⟩

theorem selectedAgain_of_order {before behind : List Word}
    (hcurrent : s.currentTask ∈ s.taskList) (hnodup : s.taskList.Nodup)
    (horder : runningOrder s = before ++ p :: behind) : SelectedAgain s p := by
  induction before generalizing s behind with
  | nil =>
      refine ⟨[], s, .none s, firstRunning_iff.mpr ?_⟩
      rw [← List.head?_filter]
      change (runningOrder s).head? = some p
      rw [horder]
      rfl
  | cons q before ih =>
      have hne : runningOrder s ≠ [] := by
        rw [horder]
        exact List.cons_ne_nil q _
      rcases schedule_returns hcurrent hne with ⟨s', hrun⟩
      rcases schedule_rotates hcurrent hnodup hne hrun with ⟨rest, hfrom, hto, hs'⟩
      have hin := taskSchedule_current hcurrent hrun
      have hlist : s'.taskList = s.taskList := by
        rw [hs']
      rw [hfrom, List.cons_append] at horder
      cases horder
      rw [← hlist] at hin hnodup
      rw [List.append_assoc, List.cons_append] at hto
      rcases ih hin hnodup hto with ⟨tasks, t, hcalls, hfirst⟩
      exact ⟨_, t, .call hrun hcalls, hfirst⟩

theorem ScheduleCalls.running {tasks : List Word} (hcalls : ScheduleCalls s tasks t)
    (p : Word) : (t.task p).state = (s.task p).state := by
  induction hcalls with
  | none s => rfl
  | call hrun _ ih =>
      rw [ih]
      rcases taskSchedule_eq hrun with rfl | ⟨q, rfl⟩ <;> rfl

theorem selectedAgain_iff (hcurrent : s.currentTask ∈ s.taskList)
    (hnodup : s.taskList.Nodup) (hp : p ∈ s.taskList) :
    SelectedAgain s p <-> (s.task p).state = .running := by
  constructor
  · rintro ⟨tasks, t, hcalls, _, _, _, hrunning, _⟩
    rw [← hcalls.running]
    exact hrunning
  · intro hrunning
    have hmem : p ∈ runningOrder s :=
      List.mem_filter.mpr ⟨(mem_cyclicOrder hcurrent p).mpr hp,
        decide_eq_true hrunning⟩
    rcases List.append_of_mem hmem with ⟨before, behind, horder⟩
    exact selectedAgain_of_order hcurrent hnodup horder

end Rounds

/-- The scheduler switches to the first task to run in cyclic order, returns when
the current task is the only one to run, panics when every task has ended, and goes
on scanning otherwise.  While a task to run waits, every other task is gone on with
once at most. -/
theorem task_schedule_choice (s : KernelState) (hcurrent : s.currentTask ∈ s.taskList)
    (hnodup : s.taskList.Nodup) :
    (forall p, (exists n, scanTasks s n = .ok (.switchTo p)) <->
      FirstRunning s p ∧ p ≠ s.currentTask) ∧
    ((exists n, scanTasks s n = .ok .stay) <-> OnlyRunning s s.currentTask) ∧
    ((exists n, scanTasks s n = panic .noTasksToRun) <->
      forall p, p ∈ s.taskList -> (s.task p).state = .exited) ∧
    ((forall n, scanTasks s n = .error .hang) <->
      (forall p, p ∈ s.taskList -> (s.task p).state ≠ .running) ∧
        exists p, p ∈ s.taskList ∧ (s.task p).state ≠ .exited) ∧
    forall tasks t p, ScheduleCalls s tasks t -> p ∈ s.taskList ->
      (s.task p).state = .running -> p ∉ tasks -> tasks.Nodup := by
  refine ⟨fun p => ?_, ?_, ?_, ?_, ?_⟩
  · refine (scan_ends_iff hcurrent ?_).trans chosen_switchTo_iff
    exact nofun
  · refine (scan_ends_iff hcurrent ?_).trans ?_
    · exact nofun
    · exact chosen_stay_iff.trans (firstRunning_current_iff hcurrent hnodup)
  · refine (scan_ends_iff hcurrent ?_).trans (chosen_panic_iff hcurrent)
    exact nofun
  · rw [scan_goes_on_iff hcurrent]
    exact chosen_hang_iff hcurrent
  · intro tasks t p hcalls hp hrunning hwaits
    exact passed_over_once hcalls hcurrent hnodup hp hrunning hwaits

def threeTasks : KernelState :=
  { smallBoot with
    taskList := [4, 8, 12]
    currentTask := 4
    task := fun p =>
      if p = 8 then { smallBoot.task p with state := .sleeping }
      else smallBoot.task p }

theorem task_schedule_three :
    (exists n, scanTasks threeTasks n = .ok (.switchTo 12)) ∧
      ¬ (exists n, scanTasks threeTasks n = .ok .stay) := by
  have hchoice := task_schedule_choice threeTasks (by decide) (by decide)
  constructor
  · refine (hchoice.1 12).mpr ⟨⟨[8], [4], by decide, rfl, ?_⟩, by decide⟩
    intro q hq
    rcases List.mem_singleton.mp hq with rfl
    exact nofun
  · intro hstay
    have honly := (hchoice.2.1.mp hstay).2 12 (by decide) rfl
    revert honly
    decide

end Kernel
end Rmmtos
