import Mathlib
import Robot.Lib.Headcount
import Robot.Lib.Machine

/-!
# Who keeps `online_users` collected

The agent and the solo mode each have one `MemoryMetricsCollector` for the gauge of online
users, shared by all tasks (`mode/agent/agent.go`) or cases (`mode/solo/solo.go`) that run at
the same time. It collects once a second between `StartAutoCollect` and `StopAutoCollect`;
both are idempotent.

`executeTask` of the agent counts the running tasks, so that the first one starts the
collection and the last one stops it. The count and the collector are updated in separate
steps, though. A second task that comes while the first is between its increment and its
`StartAutoCollect` runs uncollected; and the last task's `StopAutoCollect`, if it is late,
hits the tasks that came after its decrement. `runSoloCase` has no count: the first case to
end stops the collection for all.

Both are one machine with a parameter (`CollectMode`). `collected_while_running` gives for
each the condition under which it is right: in the agent, no task counts itself in or out
while another is between its own count and the call that follows from it; in solo mode, no
case begins while another is in progress.
-/

namespace Robot.Mode

open Robot.Lib

/-- The part of `MemoryMetricsCollector` that switches the collection; its goroutine collects
until `stopCh` is closed, which is as long as `running` holds. -/
structure AutoCollector where
  running : Bool
  deriving DecidableEq

/-- `StartAutoCollect`. -/
def AutoCollector.startAutoCollect (c : AutoCollector) : AutoCollector :=
  if c.running then c else { c with running := true }

/-- `StopAutoCollect`. -/
def AutoCollector.stopAutoCollect (c : AutoCollector) : AutoCollector :=
  if c.running then { c with running := false } else c

/-- `executeTask` of the agent, or `runSoloCase`. -/
inductive CollectMode where
  | agent
  | solo
  deriving DecidableEq

inductive CollectPc where
  | idle
  /-- `onlineMetrics.Flush()` -/
  | flush
  /-- `onlineMetrics.StartAutoCollect(time.Second)` -/
  | start
  /-- the start steps are over, the end steps have not begun -/
  | running
  /-- `onlineMetrics.StopAutoCollect()` -/
  | stop
  /-- `onlineMetrics.Collect()` -/
  | collect
  | done
  deriving DecidableEq

variable {ι : Type}

/-- The collector, the agent's count, and the tasks (or cases). -/
structure CollectState (ι : Type) where
  onlineMetrics : AutoCollector
  activeTaskCount : Int
  pcs : ι → CollectPc

inductive CollectAct (ι : Type) where
  /-- task `t` begins -/
  | enter (t : ι)
  /-- the next call of task `t` on the collector -/
  | go (t : ι)
  /-- `RunCaseInner` of task `t` has returned -/
  | leave (t : ι)

/-- A task has counted itself in or out and not yet made the calls that follow from it. -/
def CollectPc.switching : CollectPc → Bool
  | .flush | .start | .stop => true
  | _ => false

/-- A case has begun and may still stop the collection. -/
def CollectPc.inProgress : CollectPc → Bool
  | .flush | .start | .running | .stop => true
  | _ => false

/-- The task is in the agent's count. -/
def CollectPc.counted : CollectPc → Bool
  | .flush | .start | .running => true
  | _ => false

namespace CollectState

def init : CollectState ι :=
  { onlineMetrics := ⟨false⟩, activeTaskCount := 0, pcs := fun _ => .idle }

/-- While a task is between its start steps and its end steps, the collection is on. -/
def Collecting (s : CollectState ι) : Prop :=
  ∀ t, s.pcs t = .running → s.onlineMetrics.running = true

/-- The condition on a step. -/
def Apart (mode : CollectMode) (s : CollectState ι) (a : CollectAct ι) : Prop :=
  match mode, a with
  | .agent, .enter _ | .agent, .leave _ => ∀ t, (s.pcs t).switching = false
  | .solo, .enter _ => ∀ t, (s.pcs t).inProgress = false
  | _, _ => True

instance Apart.decidable [Fintype ι] (mode : CollectMode) (s : CollectState ι) :
    ∀ a, Decidable (s.Apart mode a)
  | .enter _ =>
    match mode with
    | .agent => inferInstanceAs (Decidable (∀ t, (s.pcs t).switching = false))
    | .solo => inferInstanceAs (Decidable (∀ t, (s.pcs t).inProgress = false))
  | .leave _ =>
    match mode with
    | .agent => inferInstanceAs (Decidable (∀ t, (s.pcs t).switching = false))
    | .solo => isTrue trivial
  | .go _ =>
    match mode with
    | .agent => isTrue trivial
    | .solo => isTrue trivial

variable [DecidableEq ι]

def goto (s : CollectState ι) (t : ι) (pc : CollectPc) : CollectState ι :=
  { s with pcs := Function.update s.pcs t pc }

/-- One step. -/
def step (mode : CollectMode) (s : CollectState ι) : CollectAct ι → Option (CollectState ι)
  | .enter t =>
    if s.pcs t = .idle then
      match mode with
      | .agent =>
        -- `atomic.AddInt64(&a.activeTaskCount, 1) == 1`
        some { s.goto t (if s.activeTaskCount + 1 = 1 then .flush else .running) with
          activeTaskCount := s.activeTaskCount + 1 }
      | .solo => some (s.goto t .flush)
    else none
  | .go t =>
    match s.pcs t with
    | .flush => some (s.goto t .start)
    | .start =>
      some { s.goto t .running with onlineMetrics := s.onlineMetrics.startAutoCollect }
    | .stop => some { s.goto t .collect with onlineMetrics := s.onlineMetrics.stopAutoCollect }
    | .collect => some (s.goto t .done)
    | .idle | .running | .done => none
  | .leave t =>
    if s.pcs t = .running then
      match mode with
      | .agent =>
        -- `atomic.AddInt64(&a.activeTaskCount, -1) == 0`
        some { s.goto t (if s.activeTaskCount - 1 = 0 then .stop else .done) with
          activeTaskCount := s.activeTaskCount - 1 }
      | .solo => some (s.goto t .stop)
    else none

/-! ## Calls on the collector -/

theorem startAutoCollect_running (c : AutoCollector) : c.startAutoCollect.running = true := by
  unfold AutoCollector.startAutoCollect
  split
  next h => exact h
  next => rfl

variable {s : CollectState ι}

/-- A task that does not come to run leaves the others collected. -/
theorem Collecting.goto (h : Collecting s) {t : ι} {pc : CollectPc} (hpc : pc ≠ .running) :
    Collecting (s.goto t pc) :=
  (Function.forall_update_iff s.pcs fun _ pc => pc = .running →
    s.onlineMetrics.running = true).mpr ⟨fun he => absurd he hpc, fun v _ => h v⟩

/-- The collection can be stopped where nobody runs. -/
theorem collecting_of_none {s' : CollectState ι} {t : ι} {pc : CollectPc}
    (hpcs : s'.pcs = Function.update s.pcs t pc) (hpc : pc ≠ .running)
    (hnone : ∀ v, v ≠ t → s.pcs v ≠ .running) : Collecting s' := by
  intro v hv
  rw [hpcs] at hv
  by_cases hvt : v = t
  · rw [hvt, Function.update_self] at hv
    exact absurd hv hpc
  · rw [Function.update_of_ne hvt] at hv
    exact absurd hv (hnone v hvt)

/-! ## The agent -/

/-- The count is right, and a task that is about to stop the collection has seen it at zero. -/
structure Counting (s : CollectState ι) : Prop where
  count : Headcount CollectPc.counted s.pcs s.activeTaskCount
  zero : ∀ t, s.pcs t = .stop → s.activeTaskCount = 0
  on : Collecting s

namespace Counting

/-- Nobody is about to stop the collection while no task is switching. -/
theorem zero_of_apart {t : ι} {pc : CollectPc} {n : Int} (hP : ∀ v, (s.pcs v).switching = false)
    (hpc : pc = .stop → n = 0) : ∀ v, Function.update s.pcs t pc v = .stop → n = 0 := by
  refine (Function.forall_update_iff s.pcs fun _ pc => pc = .stop → n = 0).mpr
    ⟨hpc, fun v _ hv => ?_⟩
  have hswitching := hP v
  rw [hv] at hswitching
  cases hswitching

theorem zero_goto (h : Counting s) {t : ι} {pc : CollectPc} (hpc : pc ≠ .stop) :
    ∀ v, Function.update s.pcs t pc v = .stop → s.activeTaskCount = 0 :=
  (Function.forall_update_iff s.pcs fun _ pc => pc = .stop → s.activeTaskCount = 0).mpr
    ⟨fun he => absurd he hpc, fun v _ => h.zero v⟩

/-- The first task goes to start the collection; any other finds a task that runs. -/
theorem enter (h : Counting s) {t : ι} (ht : s.pcs t = .idle)
    (hP : ∀ v, (s.pcs v).switching = false) :
    Counting { s.goto t (if s.activeTaskCount + 1 = 1 then .flush else .running) with
      activeTaskCount := s.activeTaskCount + 1 } := by
  have hidle : (s.pcs t).counted = false := by rw [ht]; rfl
  split
  next =>
    exact ⟨h.count.enter hidle rfl, zero_of_apart hP nofun, h.on.goto nofun⟩
  next hne =>
    refine ⟨h.count.enter hidle rfl, zero_of_apart hP nofun, fun _ _ => ?_⟩
    obtain ⟨v, hv⟩ := h.count.exists_of_ne_zero (by omega)
    have hswitching := hP v
    refine h.on v ?_
    cases hpc : s.pcs v with
    | running => rfl
    | flush | start =>
      rw [hpc] at hswitching
      cases hswitching
    | _ =>
      rw [hpc] at hv
      cases hv

theorem leave (h : Counting s) {t : ι} (ht : s.pcs t = .running)
    (hP : ∀ v, (s.pcs v).switching = false) :
    Counting { s.goto t (if s.activeTaskCount - 1 = 0 then .stop else .done) with
      activeTaskCount := s.activeTaskCount - 1 } := by
  have hrunning : (s.pcs t).counted = true := by rw [ht]; rfl
  split
  next hzero =>
    exact ⟨h.count.leave hrunning rfl, zero_of_apart hP fun _ => hzero, h.on.goto nofun⟩
  next => exact ⟨h.count.leave hrunning rfl, zero_of_apart hP nofun, h.on.goto nofun⟩

/-- A call on the collector. When it is stopped, the count is zero, so nobody runs. -/
theorem go (h : Counting s) {s' : CollectState ι} {mode : CollectMode} {t : ι}
    (hs : s.step mode (.go t) = some s') : Counting s' := by
  simp only [CollectState.step] at hs
  split at hs
  next ht =>
    obtain rfl := Option.some.inj hs
    exact ⟨h.count.stay (by rw [ht]; rfl), h.zero_goto nofun, h.on.goto nofun⟩
  next ht =>
    obtain rfl := Option.some.inj hs
    exact ⟨h.count.stay (by rw [ht]; rfl), h.zero_goto nofun,
      fun _ _ => startAutoCollect_running _⟩
  next ht =>
    obtain rfl := Option.some.inj hs
    have hcount := h.count
    rw [h.zero t ht] at hcount
    refine ⟨h.count.stay (by rw [ht]; rfl), h.zero_goto nofun, ?_⟩
    refine collecting_of_none (s := s) rfl nofun fun v _ hv => ?_
    have hcounted := hcount.none_of_zero v
    rw [hv] at hcounted
    cases hcounted
  next ht =>
    obtain rfl := Option.some.inj hs
    exact ⟨h.count.stay (by rw [ht]; rfl), h.zero_goto nofun, h.on.goto nofun⟩
  all_goals cases hs

theorem step (h : Counting s) {s' : CollectState ι} {a : CollectAct ι} (hP : s.Apart .agent a)
    (hs : s.step .agent a = some s') : Counting s' := by
  cases a with
  | enter t =>
    obtain ⟨ht, hs⟩ := Option.ite_none_right_eq_some.mp hs
    obtain rfl := Option.some.inj hs
    exact h.enter ht hP
  | go t => exact h.go hs
  | leave t =>
    obtain ⟨ht, hs⟩ := Option.ite_none_right_eq_some.mp hs
    obtain rfl := Option.some.inj hs
    exact h.leave ht hP

end Counting

/-! ## Solo mode -/

/-- One case at a time. -/
structure OneCase (s : CollectState ι) : Prop where
  one : ∀ t t', (s.pcs t).inProgress = true → (s.pcs t').inProgress = true → t = t'
  on : Collecting s

namespace OneCase

/-- Where no other case is in progress, one may be. -/
theorem one_of_others {t : ι} {pc : CollectPc} (h : ∀ v, v ≠ t → (s.pcs v).inProgress = false) :
    ∀ v v', (Function.update s.pcs t pc v).inProgress = true →
      (Function.update s.pcs t pc v').inProgress = true → v = v' := by
  have honly : ∀ v, (Function.update s.pcs t pc v).inProgress = true → v = t := by
    intro v hv
    by_cases hvt : v = t
    · exact hvt
    · rw [Function.update_of_ne hvt, h v hvt] at hv
      cases hv
  exact fun v v' hv hv' => (honly v hv).trans (honly v' hv').symm

omit [DecidableEq ι] in
/-- While a case is in progress no other is. -/
theorem others (h : OneCase s) {t : ι} (ht : (s.pcs t).inProgress = true) :
    ∀ v, v ≠ t → (s.pcs v).inProgress = false :=
  fun v hne => Bool.eq_false_iff.mpr fun hv => hne (h.one v t hv ht)

/-- A case that is over makes its last call. -/
theorem one_done (h : OneCase s) {t : ι} {pc : CollectPc} (hpc : pc.inProgress = false) :
    ∀ v v', (Function.update s.pcs t pc v).inProgress = true →
      (Function.update s.pcs t pc v').inProgress = true → v = v' := by
  have hold : ∀ v, (Function.update s.pcs t pc v).inProgress = true →
      (s.pcs v).inProgress = true := by
    intro v hv
    by_cases hvt : v = t
    · rw [hvt, Function.update_self, hpc] at hv
      cases hv
    · rwa [Function.update_of_ne hvt] at hv
  exact fun v v' hv hv' => h.one v v' (hold v hv) (hold v' hv')

theorem go (h : OneCase s) {s' : CollectState ι} {mode : CollectMode} {t : ι}
    (hs : s.step mode (.go t) = some s') : OneCase s' := by
  simp only [CollectState.step] at hs
  split at hs
  next ht =>
    obtain rfl := Option.some.inj hs
    exact ⟨one_of_others (h.others (by rw [ht]; rfl)), h.on.goto nofun⟩
  next ht =>
    obtain rfl := Option.some.inj hs
    exact ⟨one_of_others (h.others (by rw [ht]; rfl)), fun _ _ => startAutoCollect_running _⟩
  next ht =>
    obtain rfl := Option.some.inj hs
    have hin : (s.pcs t).inProgress = true := by rw [ht]; rfl
    refine ⟨one_of_others (h.others hin), ?_⟩
    refine collecting_of_none (s := s) rfl nofun fun v hne hv => ?_
    exact hne (h.one v t (by rw [hv]; rfl) hin)
  next ht =>
    obtain rfl := Option.some.inj hs
    exact ⟨h.one_done rfl, h.on.goto nofun⟩
  all_goals cases hs

theorem step (h : OneCase s) {s' : CollectState ι} {a : CollectAct ι} (hP : s.Apart .solo a)
    (hs : s.step .solo a = some s') : OneCase s' := by
  cases a with
  | enter t =>
    obtain ⟨ht, hs⟩ := Option.ite_none_right_eq_some.mp hs
    obtain rfl := Option.some.inj hs
    exact ⟨one_of_others fun v _ => hP v, h.on.goto nofun⟩
  | go t => exact h.go hs
  | leave t =>
    obtain ⟨ht, hs⟩ := Option.ite_none_right_eq_some.mp hs
    obtain rfl := Option.some.inj hs
    exact ⟨one_of_others (h.others (by rw [ht]; rfl)), h.on.goto nofun⟩

end OneCase

/-- **`online_users` is collected while anything runs**, for any number of tasks and every
interleaving that meets the condition: in the agent, a task counts itself in or out only while
no other is between its count and its calls on the collector; in solo mode, a case begins only
while no other is in progress. -/
theorem collected_while_running (mode : CollectMode) (as : List (CollectAct ι))
    (h : Along (step mode) (Apart mode) init as) :
    Throughout (step mode) Collecting (init : CollectState ι) as := by
  cases mode with
  | agent =>
    exact throughout_of_inv (fun _ h => Counting.on h) (fun _ _ _ h hP hs => Counting.step h hP hs)
      as ⟨.init rfl, nofun, nofun⟩ h
  | solo =>
    exact throughout_of_inv (fun _ h => OneCase.on h) (fun _ _ _ h hP hs => OneCase.step h hP hs)
      as ⟨nofun, nofun⟩ h

/-- Two tasks of an agent that overlap, the first of which has started the collection before
the second comes. -/
def overlappingTasks : List (CollectAct Bool) :=
  [.enter true, .go true, .go true, .enter false, .leave true, .leave false, .go false, .go false]

/-- Two cases of which the second begins when the first has stopped the collection. -/
def casesInTurn : List (CollectAct Bool) :=
  [.enter true, .go true, .go true, .leave true, .go true, .enter false, .go true, .go false,
    .go false]

theorem overlapping_tasks_collected :
    ((Lib.run (step .agent) init overlappingTasks).isSome = true ∧
      Throughout (step .agent) Collecting init overlappingTasks) ∧
    (Lib.run (step .solo) init casesInTurn).isSome = true ∧
      Throughout (step .solo) Collecting init casesInTurn :=
  ⟨⟨by decide +kernel, collected_while_running .agent _ (by decide +kernel)⟩,
    by decide +kernel, collected_while_running .solo _ (by decide +kernel)⟩

/-- The second task finds the count at one and runs; the first has not started the collection. -/
def secondOvertakes : List (CollectAct Bool) := [.enter true, .enter false]

/-- The first task counts itself out; a second one counts itself in and starts the collection;
then the first stops it. -/
def lateStop : List (CollectAct Bool) :=
  [.enter true, .go true, .go true, .leave true, .enter false, .go false, .go false, .go true]

/-- Two solo cases; the first to end stops the collection. -/
def firstCaseEnds : List (CollectAct Bool) :=
  [.enter true, .go true, .go true, .enter false, .go false, .go false, .leave true, .go true]

theorem running_uncollected :
    ¬ Throughout (step .agent) Collecting init secondOvertakes ∧
      ¬ Throughout (step .agent) Collecting init lateStop ∧
      ¬ Throughout (step .solo) Collecting init firstCaseEnds := by
  refine ⟨fun h => ?_, fun h => ?_, fun h => ?_⟩
  · cases throughout_last h rfl false rfl
  · cases throughout_last h rfl false rfl
  · cases throughout_last h rfl false rfl

end CollectState

end Robot.Mode
