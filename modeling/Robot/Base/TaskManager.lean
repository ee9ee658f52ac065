import Mathlib
import Robot.Lib.Machine

/-!
# The books of a task manager

`TaskActionManager` in `base/task_action.go` has a map `active` of running tasks and a wait
group. `RunTaskAction` enters a task into both; `OnTaskFinish` takes it out of both. Nothing
in the manager calls `OnTaskFinish`: whoever starts a task must register it with
`InitOnFinish`, and one caller does, the worker of `case/case.go`, for tasks of its own
managers. `User.RunTask`, `User.RunTaskWithoutLock` and `ExecuteCommand` do not
(`Starter.onFinish`), and what is registered on their tasks later, an `AwaitTask` or the
`CloseAll` of the receive loop, does not either (`LaterCallback`).

The machine runs any number of tasks of one manager: the statements of `RunTaskAction`, a
`Finish` by whoever wins it, and its callbacks. The account of what really happens is short
(`Kept`): a task that has been entered stays entered. So the books agree with the unfinished
tasks exactly as long as no task has completed its `Finish` (`manager_tracks_iff`). After
that `CloseAll` kills finished tasks and `WaitAll` waits for ever (`waitAll_blocks`).
-/

namespace Robot.Base

open Robot.Lib Function

/-- What can be registered on a task once it runs: the channel send of an `AwaitTask`, or the
`CloseAll` of `ReceiveHandler`. -/
inductive LaterCallback where
  | awaitTask
  | closeAll
  deriving DecidableEq

inductive TaskCallback where
  | later (fn : LaterCallback)
  | onTaskFinish
  deriving DecidableEq

/-- Who starts a task. -/
inductive Starter where
  | runTask
  | runTaskWithoutLock
  | executeCommand
  deriving DecidableEq

/-- What the starter registers before `RunTaskAction`. -/
def Starter.onFinish : Starter → List TaskCallback
  | .runTask => []
  | .runTaskWithoutLock => []
  | .executeCommand => []

inductive ManagedPc where
  /-- the id has not been given out -/
  | absent
  /-- `m.active[id] = taskAction` -/
  | enter
  /-- `m.wg.Add(1)` -/
  | add
  /-- the goroutine has been started; nobody has won `Finish` -/
  | running
  /-- in `Finish`, with the callbacks still to call -/
  | finishing (rest : List TaskCallback)
  /-- in `OnTaskFinish`, before `m.wg.Done()` -/
  | release (rest : List TaskCallback)
  /-- `Finish` has completed -/
  | completed
  deriving DecidableEq

structure ManagedTask where
  pc : ManagedPc
  onFinish : List TaskCallback
  deriving DecidableEq

/-- The manager and its tasks by id. `active = none` is the nil map of a pool manager. -/
structure ManagerState where
  active : Option (Finset Nat)
  wg : Int
  tasks : Nat → ManagedTask
  taskIdAlloc : Nat

inductive ManagerAct where
  | start (starter : Starter)
  /-- the next statement that concerns task `t` -/
  | go (t : Nat)
  /-- a `Finish` of task `t` wins the flag -/
  | finish (t : Nat)
  | initOnFinish (t : Nat) (fn : LaterCallback)

namespace ManagerState

/-- `NewTaskActionManager`. -/
def init : ManagerState :=
  { active := some ∅, wg := 0, tasks := fun _ => ⟨.absent, []⟩, taskIdAlloc := 0 }

/-- Task `t` goes on. -/
def goto (s : ManagerState) (t : Nat) (pc : ManagedPc) : ManagerState :=
  { s with tasks := update s.tasks t { s.tasks t with pc := pc } }

/-- One step. -/
def step (s : ManagerState) : ManagerAct → Option ManagerState
  | .start starter =>
    some { s with
      taskIdAlloc := s.taskIdAlloc + 1
      tasks := update s.tasks s.taskIdAlloc ⟨.enter, starter.onFinish⟩ }
  | .go t =>
    match (s.tasks t).pc with
    | .enter => some { s.goto t .add with active := s.active.map (insert t) }
    | .add => some { s.goto t .running with wg := s.wg + 1 }
    | .finishing (.onTaskFinish :: rest) =>
      some { s.goto t (.release rest) with active := s.active.map fun m => m.erase t }
    | .finishing (.later _ :: rest) => some (s.goto t (.finishing rest))
    | .release rest => some { s.goto t (.finishing rest) with wg := s.wg - 1 }
    | .finishing [] => some (s.goto t .completed)
    | .absent | .running | .completed => none
  | .finish t =>
    if (s.tasks t).pc = .running then some (s.goto t (.finishing (s.tasks t).onFinish.reverse))
    else none
  | .initOnFinish t fn =>
    if (s.tasks t).pc = .running then
      some { s with
        tasks := update s.tasks t
          { s.tasks t with onFinish := (s.tasks t).onFinish ++ [.later fn] } }
    else none

/-- `WaitAll` returns when the counter is zero. -/
def waitAllReturns (s : ManagerState) : Bool := s.wg == 0

/-- The tasks `CloseAll` kills. -/
def closeAllTouches (s : ManagerState) : Finset Nat := s.active.getD ∅

end ManagerState

/-! ## What is asked of the books -/

/-- The task has been entered into `active`. -/
def ManagedPc.entered : ManagedPc → Bool
  | .absent | .enter => false
  | _ => true

/-- The task has been added to the wait group. -/
def ManagedPc.added : ManagedPc → Bool
  | .absent | .enter | .add => false
  | _ => true

/-- Its `Finish` has not completed. -/
def ManagedPc.unfinished : ManagedPc → Bool
  | .completed => false
  | _ => true

/-- No `OnTaskFinish` waits to be called. -/
def ManagedPc.Clean : ManagedPc → Prop
  | .finishing rest => ∀ fn ∈ rest, fn ≠ .onTaskFinish
  | .release _ => False
  | _ => True

/-- None is registered either. -/
structure ManagedTask.Clean (x : ManagedTask) : Prop where
  registered : ∀ fn ∈ x.onFinish, fn ≠ .onTaskFinish
  calling : x.pc.Clean

/-- The ids below `n` whose task is at such a program point. -/
def idsAt (n : Nat) (tasks : Nat → ManagedTask) (p : ManagedPc → Bool) : Finset Nat :=
  (Finset.range n).filter fun t => p (tasks t).pc = true

/-! ## The ids at a program point -/

section IdsAt

variable {n t : Nat} {tasks : Nat → ManagedTask} {p : ManagedPc → Bool} {x : ManagedTask}

theorem mem_idsAt : t ∈ idsAt n tasks p ↔ t < n ∧ p (tasks t).pc = true := by
  rw [idsAt, Finset.mem_filter, Finset.mem_range]

/-- A task that stays on its side of `p`. -/
theorem idsAt_update_eq (hp : p x.pc = p (tasks t).pc) :
    idsAt n (update tasks t x) p = idsAt n tasks p := by
  ext v
  rw [mem_idsAt, mem_idsAt]
  by_cases hv : v = t
  · rw [hv, update_self, hp]
  · rw [update_of_ne hv]

/-- A task that comes over to `p`. -/
theorem idsAt_update_insert (ht : t < n) (hp : p x.pc = true) :
    idsAt n (update tasks t x) p = insert t (idsAt n tasks p) := by
  ext v
  rw [Finset.mem_insert, mem_idsAt, mem_idsAt]
  by_cases hv : v = t
  · rw [hv, update_self]
    exact ⟨fun _ => .inl rfl, fun _ => ⟨ht, hp⟩⟩
  · rw [update_of_ne hv]
    exact ⟨.inr, fun h => h.resolve_left hv⟩

/-- A new task that is not at `p`. -/
theorem idsAt_succ (hp : p x.pc = false) :
    idsAt (n + 1) (update tasks n x) p = idsAt n tasks p := by
  ext v
  rw [mem_idsAt, mem_idsAt]
  by_cases hv : v = n
  · rw [hv, update_self, hp]
    simp
  · rw [update_of_ne hv]
    exact and_congr_left fun _ => by omega

end IdsAt

namespace ManagerState

/-- The manager tracks exactly the unfinished tasks: `active` has those that have been entered,
the wait group counts those that have been added. -/
structure Tracks (s : ManagerState) : Prop where
  active : s.active =
    some (idsAt s.taskIdAlloc s.tasks fun pc => pc.entered && pc.unfinished)
  wg : s.wg = (idsAt s.taskIdAlloc s.tasks fun pc => pc.added && pc.unfinished).card

/-- The condition: the step does not complete a `Finish`. -/
def completesNone (s : ManagerState) : ManagerAct → Bool
  | .go t => (s.tasks t).pc ≠ .finishing []
  | _ => true

/-! ## What really happens -/

/-- **A task that has been entered stays entered.** -/
structure Kept (s : ManagerState) : Prop where
  active : s.active = some (idsAt s.taskIdAlloc s.tasks ManagedPc.entered)
  wg : s.wg = (idsAt s.taskIdAlloc s.tasks ManagedPc.added).card
  clean : ∀ t, (s.tasks t).Clean
  fresh : ∀ t, s.taskIdAlloc ≤ t → (s.tasks t).pc = .absent

theorem Kept.init : init.Kept where
  active := rfl
  wg := rfl
  clean := fun _ => ⟨nofun, trivial⟩
  fresh := fun _ _ => rfl

namespace Kept

variable {s : ManagerState}

variable {t : Nat}

/-- A task at a program point of the code has an id that has been given out. -/
theorem known (h : s.Kept) (ht : (s.tasks t).pc ≠ .absent) : t < s.taskIdAlloc :=
  Nat.lt_of_not_le fun hle => ht (h.fresh t hle)

theorem clean_update (h : s.Kept) {x : ManagedTask} (hx : x.Clean) : ∀ v, (update s.tasks t x v).Clean :=
  (forall_update_iff s.tasks fun _ y => y.Clean).mpr ⟨hx, fun v _ => h.clean v⟩

theorem fresh_update (h : s.Kept) {x : ManagedTask} (ht : t < s.taskIdAlloc) :
    ∀ v, s.taskIdAlloc ≤ v → (update s.tasks t x v).pc = .absent := by
  intro v hv
  rw [update_of_ne (by omega)]
  exact h.fresh v hv

/-- A statement that touches neither book. -/
theorem moves (h : s.Kept) {x : ManagedTask} (hx : x.Clean)
    (ht : (s.tasks t).pc ≠ .absent) (hentered : x.pc.entered = (s.tasks t).pc.entered)
    (hadded : x.pc.added = (s.tasks t).pc.added) :
    Kept { s with tasks := update s.tasks t x } where
  active := by
    rw [idsAt_update_eq hentered]
    exact h.active
  wg := by
    rw [idsAt_update_eq hadded]
    exact h.wg
  clean := h.clean_update hx
  fresh := h.fresh_update (h.known ht)

theorem start (h : s.Kept) (starter : Starter) : Kept { s with
    taskIdAlloc := s.taskIdAlloc + 1
    tasks := update s.tasks s.taskIdAlloc ⟨.enter, starter.onFinish⟩ } := by
  have hclean : ManagedTask.Clean ⟨.enter, starter.onFinish⟩ := by
    cases starter <;> exact ⟨nofun, trivial⟩
  refine ⟨?_, ?_, h.clean_update hclean, fun v hv => ?_⟩
  · rw [idsAt_succ rfl]
    exact h.active
  · rw [idsAt_succ rfl]
    exact h.wg
  · have hv' : s.taskIdAlloc + 1 ≤ v := hv
    show (update s.tasks s.taskIdAlloc _ v).pc = .absent
    rw [update_of_ne (by omega)]
    exact h.fresh v (by omega)

theorem enter (h : s.Kept) (ht : (s.tasks t).pc = .enter) :
    Kept { s.goto t .add with active := s.active.map (insert t) } where
  active := by
    show s.active.map (insert t) = some (idsAt s.taskIdAlloc (update s.tasks t _) _)
    rw [idsAt_update_insert (h.known (by rw [ht]; nofun)) rfl, h.active]
    rfl
  wg := by
    show s.wg = (idsAt s.taskIdAlloc (update s.tasks t _) _).card
    rw [idsAt_update_eq (by rw [ht]; rfl)]
    exact h.wg
  clean := h.clean_update ⟨(h.clean t).registered, trivial⟩
  fresh := h.fresh_update (h.known (by rw [ht]; nofun))

theorem add (h : s.Kept) (ht : (s.tasks t).pc = .add) : Kept { s.goto t .running with wg := s.wg + 1 } where
  active := by
    show s.active = some (idsAt s.taskIdAlloc (update s.tasks t _) _)
    rw [idsAt_update_eq (by rw [ht]; rfl)]
    exact h.active
  wg := by
    have hnew : t ∉ idsAt s.taskIdAlloc s.tasks ManagedPc.added := fun hmem => by
      have := (mem_idsAt.mp hmem).2
      rw [ht] at this
      cases this
    show s.wg + 1 = (idsAt s.taskIdAlloc (update s.tasks t _) _).card
    rw [idsAt_update_insert (h.known (by rw [ht]; nofun)) rfl,
      Finset.card_insert_of_notMem hnew, Nat.cast_succ, ← h.wg]
  clean := h.clean_update ⟨(h.clean t).registered, trivial⟩
  fresh := h.fresh_update (h.known (by rw [ht]; nofun))

/-- **One step keeps the account.** -/
theorem step (h : s.Kept) {s' : ManagerState} {a : ManagerAct} (hs : s.step a = some s') :
    s'.Kept := by
  cases a with
  | start starter =>
    obtain rfl := Option.some.inj hs
    exact h.start starter
  | go t =>
    obtain ⟨hregistered, hcalling⟩ := h.clean t
    simp only [ManagerState.step] at hs
    split at hs
    next ht =>
      obtain rfl := Option.some.inj hs
      exact h.enter ht
    next ht =>
      obtain rfl := Option.some.inj hs
      exact h.add ht
    next rest ht =>
      rw [ht] at hcalling
      exact absurd rfl (hcalling .onTaskFinish List.mem_cons_self)
    next fn rest ht =>
      obtain rfl := Option.some.inj hs
      rw [ht] at hcalling
      exact h.moves ⟨hregistered, fun fn' hfn' => hcalling fn' (List.mem_cons_of_mem _ hfn')⟩
        (by rw [ht]; nofun) (by rw [ht]; rfl) (by rw [ht]; rfl)
    next rest ht =>
      rw [ht] at hcalling
      exact hcalling.elim
    next ht =>
      obtain rfl := Option.some.inj hs
      exact h.moves ⟨hregistered, trivial⟩ (by rw [ht]; nofun) (by rw [ht]; rfl) (by rw [ht]; rfl)
    all_goals cases hs
  | finish t =>
    obtain ⟨ht, hs⟩ := Option.ite_none_right_eq_some.mp hs
    obtain rfl := Option.some.inj hs
    refine h.moves ⟨(h.clean t).registered, fun fn hfn => ?_⟩ (by rw [ht]; nofun) (by rw [ht]; rfl)
      (by rw [ht]; rfl)
    exact (h.clean t).registered fn (List.mem_reverse.mp hfn)
  | initOnFinish t fn =>
    obtain ⟨ht, hs⟩ := Option.ite_none_right_eq_some.mp hs
    obtain rfl := Option.some.inj hs
    refine h.moves ⟨fun fn' hfn' => ?_, (h.clean t).calling⟩ (by rw [ht]; nofun) rfl rfl
    rcases List.mem_append.mp hfn' with hfn' | hfn'
    · exact (h.clean t).registered fn' hfn'
    · cases List.mem_singleton.mp hfn'
      nofun

/-- `CloseAll` touches a task that has completed. -/
theorem closeAll_touches (h : s.Kept) (ht : (s.tasks t).pc = .completed) : t ∈ s.closeAllTouches := by
  rw [closeAllTouches, h.active]
  exact mem_idsAt.mpr ⟨h.known (by rw [ht]; nofun), by rw [ht]; rfl⟩

theorem not_tracks (h : s.Kept) (ht : (s.tasks t).pc = .completed) : ¬ s.Tracks := by
  intro htracks
  have htouched := h.closeAll_touches ht
  rw [closeAllTouches, htracks.active, Option.getD_some] at htouched
  have hunfinished := (mem_idsAt.mp htouched).2
  rw [ht] at hunfinished
  cases hunfinished

/-- Once a task has been added, `WaitAll` does not return. -/
theorem waitAll_blocks (h : s.Kept) (ht : (s.tasks t).pc.added = true) : s.waitAllReturns = false := by
  have hknown : t < s.taskIdAlloc := h.known fun he => by
    rw [he] at ht
    cases ht
  have hpos : 0 < (idsAt s.taskIdAlloc s.tasks ManagedPc.added).card :=
    Finset.card_pos.mpr ⟨t, mem_idsAt.mpr ⟨hknown, ht⟩⟩
  refine beq_eq_false_iff_ne.mpr ?_
  rw [h.wg]
  omega

/-- A task that has been added stays added, although its program point moves on. -/
theorem added_stays (h : s.Kept) {s' : ManagerState} {a : ManagerAct} (hs : s.step a = some s')
    (ht : (s.tasks t).pc.added = true) : (s'.tasks t).pc.added = true := by
  -- a step writes one task, so it is enough that it does not take that task back
  have hwrite : ∀ {u : Nat} {x : ManagedTask}, ((s.tasks u).pc.added = true → x.pc.added = true) →
      (update s.tasks u x t).pc.added = true := by
    intro u x hx
    by_cases htu : t = u
    · subst htu
      rw [update_self]
      exact hx ht
    · rw [update_of_ne htu]
      exact ht
  cases a with
  | start starter =>
    cases hs
    refine hwrite fun hu => ?_
    rw [h.fresh _ le_rfl] at hu
    cases hu
  | go u =>
    simp only [ManagerState.step] at hs
    split at hs
    next hpc =>
      cases hs
      exact hwrite fun hu => by rw [hpc] at hu; cases hu
    all_goals cases hs
    all_goals exact hwrite fun _ => rfl
  | finish u =>
    obtain ⟨-, hs⟩ := Option.ite_none_right_eq_some.mp hs
    cases hs
    exact hwrite fun _ => rfl
  | initOnFinish u fn =>
    obtain ⟨-, hs⟩ := Option.ite_none_right_eq_some.mp hs
    cases hs
    exact hwrite id

end Kept

/-- The account, while no task has completed. -/
structure Underway (s : ManagerState) : Prop extends Kept s where
  none : ∀ t, (s.tasks t).pc ≠ .completed

/-- As long as nothing has completed, what is entered is what is unfinished. -/
theorem Underway.tracks {s : ManagerState} (h : s.Underway) : s.Tracks := by
  have hsame : ∀ p : ManagedPc → Bool, idsAt s.taskIdAlloc s.tasks (fun pc => p pc && pc.unfinished) =
      idsAt s.taskIdAlloc s.tasks p := by
    intro p
    refine Finset.filter_congr fun t _ => ?_
    have hunfinished : (s.tasks t).pc.unfinished = true := by
      cases hpc : (s.tasks t).pc with
      | completed => exact absurd hpc (h.none t)
      | _ => rfl
    show (p (s.tasks t).pc && (s.tasks t).pc.unfinished) = true ↔ _
    rw [hunfinished, Bool.and_true]
  refine ⟨?_, ?_⟩
  · rw [hsame]
    exact h.active
  · rw [hsame]
    exact h.wg

theorem Underway.step {s s' : ManagerState} {a : ManagerAct} (h : s.Underway)
    (hP : s.completesNone a = true) (hs : s.step a = some s') : s'.Underway := by
  refine ⟨h.toKept.step hs, ?_⟩
  have hupdate : ∀ (t : Nat) (x : ManagedTask), x.pc ≠ .completed →
      ∀ v, (update s.tasks t x v).pc ≠ .completed := fun t x hx =>
    (forall_update_iff s.tasks fun _ y => y.pc ≠ .completed).mpr ⟨hx, fun v _ => h.none v⟩
  cases a with
  | start starter =>
    obtain rfl := Option.some.inj hs
    exact hupdate _ _ nofun
  | go t =>
    simp only [ManagerState.step] at hs
    split at hs
    next => cases hs; exact hupdate _ _ nofun
    next => cases hs; exact hupdate _ _ nofun
    next => cases hs; exact hupdate _ _ nofun
    next => cases hs; exact hupdate _ _ nofun
    next => cases hs; exact hupdate _ _ nofun
    next ht => exact absurd ht (of_decide_eq_true hP)
    all_goals cases hs
  | finish t =>
    obtain ⟨ht, hs⟩ := Option.ite_none_right_eq_some.mp hs
    obtain rfl := Option.some.inj hs
    exact hupdate _ _ nofun
  | initOnFinish t fn =>
    obtain ⟨ht, hs⟩ := Option.ite_none_right_eq_some.mp hs
    obtain rfl := Option.some.inj hs
    exact hupdate _ _ (h.none t)

/-- **The manager tracks the unfinished tasks exactly until one of them finishes.** For every
sequence of tasks started by `RunTask`, `RunTaskWithoutLock` and `ExecuteCommand` and every
interleaving with their completions: the books are right in every state if and only if no
`Finish` completes. -/
theorem manager_tracks_iff (as : List ManagerAct) :
    Throughout step Tracks init as ↔ Along step (fun s a => s.completesNone a = true) init as := by
  constructor
  · refine along_of_throughout (fun _ _ _ h hs => Kept.step h hs) (fun s a h hP => ?_) as Kept.init
    cases a with
    | go t =>
      have ht : (s.tasks t).pc = .finishing [] :=
        Classical.not_not.mp fun hne => hP (decide_eq_true hne)
      have hs : s.step (.go t) = some (s.goto t .completed) := by
        simp only [ManagerState.step, ht]
      refine ⟨_, hs, (Kept.step h hs).not_tracks (t := t) ?_⟩
      show (update s.tasks t _ t).pc = .completed
      rw [update_self]
    | _ => exact absurd rfl hP
  · exact throughout_of_inv (fun _ h => Underway.tracks h)
      (fun _ _ _ h hP hs => Underway.step h hP hs) as ⟨Kept.init, fun _ => nofun⟩

/-- One task is started by `RunTask` and runs to the end of its `Finish`. -/
def oneTask : List ManagerAct := [.start .runTask, .go 0, .go 0, .finish 0, .go 0]

/-- It stays in `active` and in the wait group: `CloseAll` would kill it, `WaitAll` blocks. -/
theorem finished_task_stays_active :
    ¬ Throughout step Tracks init oneTask ∧
      (Lib.run step init oneTask).map (fun s => s.waitAllReturns) = some false ∧
      (Lib.run step init oneTask).map (fun s => s.closeAllTouches) = some {0} := by
  refine ⟨fun h => ?_, rfl, by decide⟩
  have hkept : ∀ s, Lib.run step init oneTask = some s → s.Kept := fun s hs =>
    run_inv_all (fun _ _ _ h hs => Kept.step h hs) _ Kept.init hs
  exact (hkept _ rfl).not_tracks (t := 0) rfl (throughout_last h rfl)

/-- **`WaitAll` never returns again** once a task has been added, whatever is started, finished or
registered afterwards. -/
theorem waitAll_never_returns {as bs : List ManagerAct} {s s' : ManagerState} {t : Nat}
    (hs : Lib.run step init as = some s) (ht : (s.tasks t).pc.added = true)
    (hs' : Lib.run step s bs = some s') : s'.waitAllReturns = false := by
  have hkept : s.Kept := run_inv_all (fun _ _ _ h hs => Kept.step h hs) as Kept.init hs
  have hstep : ∀ u a u', u.Kept ∧ (u.tasks t).pc.added = true → step u a = some u' →
      u'.Kept ∧ (u'.tasks t).pc.added = true :=
    fun _ _ _ h hu => ⟨h.1.step hu, h.1.added_stays hu h.2⟩
  obtain ⟨hkept', ht'⟩ := run_inv_all hstep bs ⟨hkept, ht⟩ hs'
  exact hkept'.waitAll_blocks ht'

/-- Not even when the one task there was has finished. -/
theorem waitAll_blocked_by_finished : ∃ s s', Lib.run step init [.start .runTask, .go 0, .go 0] = some s ∧
    Lib.run step s [.finish 0, .go 0] = some s' ∧ (s'.tasks 0).pc = .completed ∧
    s'.waitAllReturns = false := by
  have hs : Lib.run step init [.start .runTask, .go 0, .go 0] = some _ := rfl
  have hblocks := fun s' (hs' : Lib.run step _ [.finish 0, .go 0] = some s') =>
    waitAll_never_returns (t := 0) hs rfl hs'
  exact ⟨_, _, hs, rfl, rfl, hblocks _ rfl⟩

end ManagerState

end Robot.Base
