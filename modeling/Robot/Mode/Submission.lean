import Robot.Lib.Machine
import Robot.Mode.TaskQueue

/-!
# Submissions, stops and deletes

A submission lives in two maps keyed by a report id that the caller may choose: `tasks`
has its `taskStatus`, `taskCancels` the cancel function of its context. Three handlers and
one goroutine meet there, and each holds the lock for single map accesses only:

* **`handleSubmitTask`** puts a fresh status into `tasks`, writes to Redis, then puts the
  cancel function into `taskCancels` and starts the distribution goroutine;
* **the goroutine** distributes, aggregates, writes `error` or `done` into *its* status
  object, and on the way out deletes the entry of its report id from `taskCancels`, whoever
  owns it by then;
* **`handleStopTask`** reads both entries, looks at the status with no lock held, calls the
  cancel function, and then writes `stopped` into the status object it read;
* **`deleteReport`** deletes the entry in `tasks`.

This file is that machine, one action a step that another thread can come between. It
refines the registry of the task-queue machine, where a submission is one number
(`submissions_refine_registry`): there a stop is a single step, which is what a stop does
when nobody comes between (`stop_undisturbed`).

What is left out: the check for an available agent, which comes before the first step, and
everything a handler writes to Redis.
-/

namespace Robot.Mode

open Robot.Lib Function

/-! ## The machine -/

/-- Where a submission stands: the handler up to the start of the goroutine, then the
goroutine. -/
inductive SubmitPc
  | notSubmitted
  /-- In `tasks`; the cancel function is not stored yet. -/
  | registered
  /-- Inside `distributeAndWait`. -/
  | distributing
  /-- Inside `aggregateAndGenerate`. -/
  | aggregating
  /-- About to write `error`. -/
  | failing (err : String)
  /-- About to write `done`. -/
  | completing
  /-- About to delete the entry in `taskCancels`. -/
  | deferring
  /-- About to call its own `cancel()`. -/
  | cancelling
  | ended
  deriving DecidableEq, Repr

/-- The goroutine is running, up to its deferred delete. -/
def SubmitPc.isLive : SubmitPc → Bool
  | .distributing | .aggregating | .failing _ | .completing | .deferring => true
  | .notSubmitted | .registered | .cancelling | .ended => false

/-- The goroutine has not written its outcome yet. -/
def SubmitPc.isPending : SubmitPc → Bool
  | .registered | .distributing | .aggregating | .failing _ | .completing => true
  | .notSubmitted | .deferring | .cancelling | .ended => false

/-- A `taskStatus` with the context and the goroutine of its submission. -/
structure Submission where
  report : String
  pc : SubmitPc
  status : TaskStatus
  error : String
  ctxDone : Bool
  deriving DecidableEq, Repr

/-- Where a `handleStopTask` request stands. `st` is the status object it has read, `cancel`
the cancel function, each named by its submission. -/
inductive StopPc
  | looked (st : ℕ) (cancel : Option ℕ)
  | passed (st : ℕ) (cancel : Option ℕ)
  | cancelled (st : ℕ)
  | written (st : ℕ)
  | refused (msg : String)
  deriving DecidableEq, Repr

/-- The stop has seen the submission running: its write is still to come, or has come. -/
def StopPc.accepted (n : ℕ) : StopPc → Bool
  | .passed st _ | .cancelled st | .written st => st == n
  | .looked _ _ | .refused _ => false

structure SubmissionBook where
  subs : ℕ → Submission
  count : ℕ
  stops : ℕ → StopPc
  stopCount : ℕ
  tasks : String → Option ℕ
  taskCancels : String → Option ℕ

def SubmissionBook.init : SubmissionBook where
  subs := fun _ => ⟨"", .notSubmitted, .done, "", false⟩
  count := 0
  stops := fun _ => .refused ""
  stopCount := 0
  tasks := fun _ => none
  taskCancels := fun _ => none

inductive SubmitAction
  /-- `handleSubmitTask` up to the entry in `tasks`. -/
  | handleSubmitTask (report : String)
  /-- The entry in `taskCancels`, and `go`. -/
  | startGoroutine (n : ℕ)
  /-- `distributeAndWait` returns. -/
  | distributed (n : ℕ) (err : Option String)
  /-- `aggregateAndGenerate` returns. -/
  | aggregated (n : ℕ) (err : Option String)
  /-- `error` or `done` is written. -/
  | writeOutcome (n : ℕ)
  | dropCancel (n : ℕ)
  | endContext (n : ℕ)
  /-- `handleStopTask` reads the two maps. -/
  | handleStopTask (report : String)
  /-- `st.Status != "running"`. -/
  | checkRunning (k : ℕ)
  /-- `cancelFn()`. -/
  | callCancel (k : ℕ)
  /-- `stopped` is written. -/
  | writeStopped (k : ℕ)
  | deleteReport (report : String)
  deriving DecidableEq, Repr

def SubmissionBook.setSub (s : SubmissionBook) (n : ℕ) (sub : Submission) : SubmissionBook :=
  { s with subs := update s.subs n sub }

def SubmissionBook.setStop (s : SubmissionBook) (k : ℕ) (pc : StopPc) : SubmissionBook :=
  { s with stops := update s.stops k pc }

/-- The submission with its program point moved. -/
def Submission.at (sub : Submission) (pc : SubmitPc) : Submission := { sub with pc := pc }

/-- A fresh status object. -/
def Submission.fresh (report : String) : Submission := ⟨report, .registered, .running, "", false⟩

def Submission.withStatus (sub : Submission) (status : TaskStatus) (error : String) : Submission :=
  { sub with status := status, error := error }

def Submission.cancel (sub : Submission) : Submission := { sub with ctxDone := true }

/-- On an error the goroutine goes to write it, else to its next stage. -/
def afterStage (next : SubmitPc) : Option String → SubmitPc
  | some err => .failing err
  | none => next

def SubmissionBook.step (s : SubmissionBook) : SubmitAction → Option SubmissionBook
  | .handleSubmitTask report =>
    some { s.setSub s.count (.fresh report) with
      count := s.count + 1
      tasks := update s.tasks report (some s.count) }
  | .startGoroutine n =>
    match (s.subs n).pc with
    | .registered =>
      some { s.setSub n ((s.subs n).at .distributing) with
        taskCancels := update s.taskCancels (s.subs n).report (some n) }
    | _ => none
  | .distributed n err =>
    match (s.subs n).pc with
    | .distributing => some (s.setSub n ((s.subs n).at (afterStage .aggregating err)))
    | _ => none
  | .aggregated n err =>
    match (s.subs n).pc with
    | .aggregating => some (s.setSub n ((s.subs n).at (afterStage .completing err)))
    | _ => none
  | .writeOutcome n =>
    match (s.subs n).pc with
    | .failing err => some (s.setSub n (((s.subs n).withStatus .error err).at .deferring))
    | .completing =>
      some (s.setSub n (((s.subs n).withStatus .done (s.subs n).error).at .deferring))
    | _ => none
  | .dropCancel n =>
    match (s.subs n).pc with
    | .deferring =>
      some { s.setSub n ((s.subs n).at .cancelling) with
        taskCancels := update s.taskCancels (s.subs n).report none }
    | _ => none
  | .endContext n =>
    match (s.subs n).pc with
    | .cancelling => some (s.setSub n ((s.subs n).cancel.at .ended))
    | _ => none
  | .handleStopTask report =>
    some { s.setStop s.stopCount (match s.tasks report with
        | some st => .looked st (s.taskCancels report)
        | none => .refused "task not found") with
      stopCount := s.stopCount + 1 }
  | .checkRunning k =>
    match s.stops k with
    | .looked st cancel =>
      some (s.setStop k (if (s.subs st).status = .running then .passed st cancel
        else .refused "task is not running"))
    | _ => none
  | .callCancel k =>
    match s.stops k with
    | .passed st (some n) => some ((s.setSub n (s.subs n).cancel).setStop k (.cancelled st))
    | .passed st none => some (s.setStop k (.cancelled st))
    | _ => none
  | .writeStopped k =>
    match s.stops k with
    | .cancelled st =>
      some ((s.setSub st ((s.subs st).withStatus .stopped "stopped by user")).setStop k (.written st))
    | _ => none
  | .deleteReport report => some { s with tasks := update s.tasks report none }

/-! ## What a step can do -/

section Moves

variable {s t : SubmissionBook} {a : SubmitAction}

/-- The submission whose goroutine (or handler, at its start) takes the step. -/
def SubmitAction.sub? : SubmitAction → Option ℕ
  | .startGoroutine n | .distributed n _ | .aggregated n _ | .writeOutcome n | .dropCancel n
  | .endContext n => some n
  | .handleSubmitTask _ | .handleStopTask _ | .checkRunning _ | .callCancel _ | .writeStopped _
  | .deleteReport _ => none

/-- What a step makes of submission `n`. -/
inductive SubMoved (s : SubmissionBook) (n : ℕ) : SubmitAction → Submission → Prop
  | kept (a : SubmitAction) (hn : a.sub? ≠ some n) : SubMoved s n a (s.subs n)
  | submitted (report : String) (hn : n = s.count) :
    SubMoved s n (.handleSubmitTask report) (.fresh report)
  | started (hpc : (s.subs n).pc = .registered) :
    SubMoved s n (.startGoroutine n) ((s.subs n).at .distributing)
  | distributed (err : Option String) (hpc : (s.subs n).pc = .distributing) :
    SubMoved s n (.distributed n err) ((s.subs n).at (afterStage .aggregating err))
  | aggregated (err : Option String) (hpc : (s.subs n).pc = .aggregating) :
    SubMoved s n (.aggregated n err) ((s.subs n).at (afterStage .completing err))
  | failed (err : String) (hpc : (s.subs n).pc = .failing err) :
    SubMoved s n (.writeOutcome n) (((s.subs n).withStatus .error err).at .deferring)
  | completed (hpc : (s.subs n).pc = .completing) :
    SubMoved s n (.writeOutcome n) (((s.subs n).withStatus .done (s.subs n).error).at .deferring)
  | dropped (hpc : (s.subs n).pc = .deferring) :
    SubMoved s n (.dropCancel n) ((s.subs n).at .cancelling)
  | ended (hpc : (s.subs n).pc = .cancelling) :
    SubMoved s n (.endContext n) ((s.subs n).cancel.at .ended)
  | cancelled (k st : ℕ) (hk : s.stops k = .passed st (some n)) :
    SubMoved s n (.callCancel k) (s.subs n).cancel
  | stopped (k : ℕ) (hk : s.stops k = .cancelled n) :
    SubMoved s n (.writeStopped k) ((s.subs n).withStatus .stopped "stopped by user")

/-- What a step makes of stop request `k`. -/
inductive StopMoved (s : SubmissionBook) (k : ℕ) : SubmitAction → StopPc → Prop
  | kept (a : SubmitAction) : StopMoved s k a (s.stops k)
  | looked (report : String) (st : ℕ) (hk : k = s.stopCount) (hst : s.tasks report = some st) :
    StopMoved s k (.handleStopTask report) (.looked st (s.taskCancels report))
  | notFound (report : String) (hk : k = s.stopCount) (hst : s.tasks report = none) :
    StopMoved s k (.handleStopTask report) (.refused "task not found")
  | passed (st : ℕ) (cancel : Option ℕ) (hk : s.stops k = .looked st cancel)
      (hst : (s.subs st).status = .running) :
    StopMoved s k (.checkRunning k) (.passed st cancel)
  | notRunning (st : ℕ) (cancel : Option ℕ) (hk : s.stops k = .looked st cancel)
      (hst : (s.subs st).status ≠ .running) :
    StopMoved s k (.checkRunning k) (.refused "task is not running")
  | cancelled (st : ℕ) (cancel : Option ℕ) (hk : s.stops k = .passed st cancel) :
    StopMoved s k (.callCancel k) (.cancelled st)
  | written (st : ℕ) (hk : s.stops k = .cancelled st) :
    StopMoved s k (.writeStopped k) (.written st)

/-- A write to submission `m` is a move of `m` and of no other. -/
theorem SubMoved.of_update {m : ℕ} {sub : Submission} (h : SubMoved s m a sub)
    (ha : ∀ n ∈ a.sub?, n = m) (n : ℕ) : SubMoved s n a (update s.subs m sub n) := by
  by_cases hn : n = m
  · subst hn
    rw [update_self]
    exact h
  · rw [update_of_ne hn]
    exact .kept a fun hsub => hn (ha n hsub)

theorem StopMoved.of_update {m : ℕ} {pc : StopPc} (h : StopMoved s m a pc) (k : ℕ) :
    StopMoved s k a (update s.stops m pc k) := by
  by_cases hk : k = m
  · subst hk
    rw [update_self]
    exact h
  · rw [update_of_ne hk]
    exact .kept a

/-- The maps and the counts after a step. -/
def SubmissionBook.tasksAfter (s : SubmissionBook) : SubmitAction → String → Option ℕ
  | .handleSubmitTask report => update s.tasks report (some s.count)
  | .deleteReport report => update s.tasks report none
  | _ => s.tasks

def SubmissionBook.cancelsAfter (s : SubmissionBook) : SubmitAction → String → Option ℕ
  | .startGoroutine n => update s.taskCancels (s.subs n).report (some n)
  | .dropCancel n => update s.taskCancels (s.subs n).report none
  | _ => s.taskCancels

def SubmissionBook.countAfter (s : SubmissionBook) : SubmitAction → ℕ
  | .handleSubmitTask _ => s.count + 1
  | _ => s.count

def SubmissionBook.stopCountAfter (s : SubmissionBook) : SubmitAction → ℕ
  | .handleStopTask _ => s.stopCount + 1
  | _ => s.stopCount

/-- Everything a step does: to the submissions, to the stops, to the maps. -/
structure SubmitStepped (s : SubmissionBook) (a : SubmitAction) (t : SubmissionBook) : Prop where
  sub : ∀ n, SubMoved s n a (t.subs n)
  stop : ∀ k, StopMoved s k a (t.stops k)
  tasks : t.tasks = s.tasksAfter a
  cancels : t.taskCancels = s.cancelsAfter a
  count : t.count = s.countAfter a
  stopCount : t.stopCount = s.stopCountAfter a

/-- A step of the submission `m` alone. -/
theorem SubMoved.stepped {m : ℕ} {sub : Submission} (h : SubMoved s m a sub)
    (ha : a.sub? = none ∨ a.sub? = some m)
    (ht : t = ⟨update s.subs m sub, s.countAfter a, s.stops, s.stopCountAfter a, s.tasksAfter a,
      s.cancelsAfter a⟩) : SubmitStepped s a t := by
  subst ht
  refine ⟨h.of_update fun n hn => ?_, fun _ => .kept a, rfl, rfl, rfl, rfl⟩
  rcases ha with ha | ha
  · rw [ha] at hn
    cases hn
  · exact Option.some.inj (hn.symm.trans ha)

/-- A step of the stop request `k` alone. -/
theorem StopMoved.stepped {k : ℕ} {pc : StopPc} (h : StopMoved s k a pc) (ha : a.sub? = none)
    (ht : t = ⟨s.subs, s.countAfter a, update s.stops k pc, s.stopCountAfter a, s.tasksAfter a,
      s.cancelsAfter a⟩) : SubmitStepped s a t := by
  subst ht
  exact ⟨fun _ => .kept a (ha ▸ nofun), h.of_update, rfl, rfl, rfl, rfl⟩

theorem SubmissionBook.stepped (h : s.step a = some t) : SubmitStepped s a t := by
  cases a with simp only [SubmissionBook.step] at h
  | handleSubmitTask report =>
    cases h
    exact (SubMoved.submitted report rfl).stepped (.inl rfl) rfl
  | startGoroutine n =>
    split at h
    · next hpc =>
      cases h
      exact (SubMoved.started hpc).stepped (.inr rfl) rfl
    · cases h
  | distributed n err =>
    split at h
    · next hpc =>
      cases h
      exact (SubMoved.distributed err hpc).stepped (.inr rfl) rfl
    · cases h
  | aggregated n err =>
    split at h
    · next hpc =>
      cases h
      exact (SubMoved.aggregated err hpc).stepped (.inr rfl) rfl
    · cases h
  | writeOutcome n =>
    split at h
    · next err hpc =>
      cases h
      exact (SubMoved.failed err hpc).stepped (.inr rfl) rfl
    · next hpc =>
      cases h
      exact (SubMoved.completed hpc).stepped (.inr rfl) rfl
    · cases h
  | dropCancel n =>
    split at h
    · next hpc =>
      cases h
      exact (SubMoved.dropped hpc).stepped (.inr rfl) rfl
    · cases h
  | endContext n =>
    split at h
    · next hpc =>
      cases h
      exact (SubMoved.ended hpc).stepped (.inr rfl) rfl
    · cases h
  | handleStopTask report =>
    cases h
    split
    · next st hst => exact (StopMoved.looked report st rfl hst).stepped rfl rfl
    · next hst => exact (StopMoved.notFound report rfl hst).stepped rfl rfl
  | checkRunning k =>
    split at h
    · next st cancel hk =>
      cases h
      split
      · next hst => exact (StopMoved.passed st cancel hk hst).stepped rfl rfl
      · next hst => exact (StopMoved.notRunning st cancel hk hst).stepped rfl rfl
    · cases h
  | callCancel k =>
    split at h
    · next st n hk =>
      cases h
      exact ⟨(SubMoved.cancelled k st hk).of_update nofun, (StopMoved.cancelled st _ hk).of_update,
        rfl, rfl, rfl, rfl⟩
    · next st hk =>
      cases h
      exact (StopMoved.cancelled st _ hk).stepped rfl rfl
    · cases h
  | writeStopped k =>
    split at h
    · next st hk =>
      cases h
      exact ⟨(SubMoved.stopped k hk).of_update nofun, (StopMoved.written st hk).of_update,
        rfl, rfl, rfl, rfl⟩
    · cases h
  | deleteReport report =>
    cases h
    exact ⟨fun n => .kept _ nofun, fun k => .kept _, rfl, rfl, rfl, rfl⟩

/-- The handler that starts a goroutine has registered its submission. -/
theorem SubmitStepped.registered {n : ℕ} (h : SubmitStepped s (.startGoroutine n) t) :
    (s.subs n).pc = .registered ∧ t.subs n = (s.subs n).at .distributing := by
  have hm := h.sub n
  generalize t.subs n = sub at hm
  cases hm with
  | kept _ hn => exact absurd rfl hn
  | started hpc => exact ⟨hpc, rfl⟩

/-- A goroutine that deletes its entry has written its outcome. -/
theorem SubmitStepped.deferring {n : ℕ} (h : SubmitStepped s (.dropCancel n) t) :
    (s.subs n).pc = .deferring := by
  have hm := h.sub n
  generalize t.subs n = sub at hm
  cases hm with
  | kept _ hn => exact absurd rfl hn
  | dropped hpc => exact hpc

end Moves

/-! ## The registry it refines -/

section Refinement

variable {s t : SubmissionBook} {a : SubmitAction} {r₀ : Registry}

/-- The registry of the task-queue machine with these submissions; clock and agents are those
of `r₀`. -/
def SubmissionBook.registry (s : SubmissionBook) (r₀ : Registry) : Registry :=
  { r₀ with
    contexts := s.count
    ctxDone := Submission.ctxDone ∘ s.subs
    status := Submission.status ∘ s.subs
    tasks := s.tasks
    taskCancels := s.taskCancels }

/-- A write that leaves a field as it was. -/
theorem comp_update_of_eq {β : Type} (field : Submission → β) (subs : ℕ → Submission) {n : ℕ}
    {sub : Submission} (h : field sub = field (subs n)) :
    field ∘ update subs n sub = field ∘ subs := by
  rw [comp_update, h]
  exact update_eq_self n (field ∘ subs)

/-- The registry does not see a program point. -/
theorem registry_at (n : ℕ) (pc : SubmitPc) :
    (s.setSub n ((s.subs n).at pc)).registry r₀ = s.registry r₀ := by
  have hctx : Submission.ctxDone ∘ update s.subs n ((s.subs n).at pc) =
      Submission.ctxDone ∘ s.subs := comp_update_of_eq _ _ rfl
  have hstatus : Submission.status ∘ update s.subs n ((s.subs n).at pc) =
      Submission.status ∘ s.subs := comp_update_of_eq _ _ rfl
  unfold SubmissionBook.registry SubmissionBook.setSub
  dsimp only
  rw [hctx, hstatus]

/-- A status is written. -/
theorem registry_status {n : ℕ} {sub : Submission} (hctx : sub.ctxDone = (s.subs n).ctxDone) :
    (s.setSub n sub).registry r₀ = { s.registry r₀ with
      status := update (s.registry r₀).status n sub.status } := by
  unfold SubmissionBook.registry SubmissionBook.setSub
  dsimp only
  rw [comp_update_of_eq Submission.ctxDone s.subs hctx, comp_update]

/-- A context is cancelled. -/
theorem registry_ctxDone {n : ℕ} {sub : Submission} (hstatus : sub.status = (s.subs n).status) :
    (s.setSub n sub).registry r₀ = { s.registry r₀ with
      ctxDone := update (s.registry r₀).ctxDone n sub.ctxDone } := by
  unfold SubmissionBook.registry SubmissionBook.setSub
  dsimp only
  rw [comp_update_of_eq Submission.status s.subs hstatus, comp_update]

theorem registry_setStatus {n : ℕ} (sub : Submission) (hn : n < s.count)
    (hctx : sub.ctxDone = (s.subs n).ctxDone) :
    run Registry.step (s.registry r₀) [.setStatus n sub.status] =
      some ((s.setSub n sub).registry r₀) := by
  rw [registry_status hctx]
  exact run_cons.mpr ⟨_, if_pos hn, rfl⟩

theorem registry_endContext {n : ℕ} (sub : Submission) (hn : n < s.count)
    (hstatus : sub.status = (s.subs n).status) (hdone : sub.ctxDone = true) :
    run Registry.step (s.registry r₀) [.endContext n] = some ((s.setSub n sub).registry r₀) := by
  rw [registry_ctxDone hstatus, hdone]
  exact run_cons.mpr ⟨_, if_pos hn, rfl⟩

/-- Every number that is kept somewhere is that of a submission. -/
structure Numbered (s : SubmissionBook) : Prop where
  submitted : ∀ n, (s.subs n).pc ≠ .notSubmitted → n < s.count
  tasks : ∀ report n, s.tasks report = some n → n < s.count
  cancels : ∀ report n, s.taskCancels report = some n → n < s.count
  looked : ∀ k st cancel, s.stops k = .looked st cancel → st < s.count ∧ ∀ n ∈ cancel, n < s.count
  passed : ∀ k st cancel, s.stops k = .passed st cancel → st < s.count ∧ ∀ n ∈ cancel, n < s.count
  cancelled : ∀ k st, s.stops k = .cancelled st → st < s.count
  requests : ∀ k, s.stopCount ≤ k → s.stops k = .refused ""

theorem Numbered.init : Numbered .init where
  submitted n h := absurd rfl h
  tasks report n h := by cases h
  cancels report n h := by cases h
  looked k st cancel h := by cases h
  passed k st cancel h := by cases h
  cancelled k st h := by cases h
  requests _ _ := rfl

theorem SubmitStepped.count_le (h : SubmitStepped s a t) : s.count ≤ t.count := by
  rw [h.count]
  unfold SubmissionBook.countAfter
  split
  · exact Nat.le_succ _
  · exact Nat.le_refl _

/-- A map entry after a write is the one written or one from before. -/
theorem of_update_some {m : String → Option ℕ} {key : String} {v : Option ℕ} {P : ℕ → Prop}
    (hv : ∀ n ∈ v, P n) (hm : ∀ report n, m report = some n → P n) (report : String) (n : ℕ)
    (h : update m key v report = some n) : P n := by
  by_cases hkey : report = key
  · subst hkey
    rw [update_self] at h
    exact hv n h
  · rw [update_of_ne hkey] at h
    exact hm report n h

theorem Numbered.sub (hs : Numbered s) (h : s.step a = some t) (n : ℕ)
    (hpc : (t.subs n).pc ≠ .notSubmitted) : n < t.count := by
  have hstepped := SubmissionBook.stepped h
  have hle := hstepped.count_le
  have hm := hstepped.sub n
  generalize t.subs n = sub at hm hpc
  cases hm with
  | kept => exact Nat.lt_of_lt_of_le (hs.submitted n hpc) hle
  | submitted report hn =>
    rw [hstepped.count, hn]
    exact Nat.lt_succ_self _
  | started hpc' | distributed err hpc' | aggregated err hpc' | failed err hpc' | completed hpc'
  | dropped hpc' | ended hpc' =>
    refine Nat.lt_of_lt_of_le (hs.submitted n ?_) hle
    rw [hpc']
    nofun
  | cancelled k st hk => exact Nat.lt_of_lt_of_le ((hs.passed k st _ hk).2 n rfl) hle
  | stopped k hk => exact Nat.lt_of_lt_of_le (hs.cancelled k n hk) hle

theorem Numbered.stop (hs : Numbered s) (h : s.step a = some t) (k : ℕ) (hk : t.stopCount ≤ k) :
    t.stops k = .refused "" := by
  have hstepped := SubmissionBook.stepped h
  have hle : s.stopCount ≤ k := by
    refine Nat.le_trans ?_ hk
    rw [hstepped.stopCount]
    unfold SubmissionBook.stopCountAfter
    split
    · exact Nat.le_succ _
    · exact Nat.le_refl _
  have hunborn := hs.requests k hle
  have hm := hstepped.stop k
  generalize t.stops k = pc at hm
  cases hm with
  | kept => exact hunborn
  | looked _ _ hk' | notFound _ hk' =>
    rw [hstepped.stopCount, hk'] at hk
    exact absurd hk (Nat.not_succ_le_self _)
  | passed _ _ hk' | notRunning _ _ hk' | cancelled _ _ hk' | written _ hk' =>
    rw [hunborn] at hk'
    cases hk'

/-- Every step keeps the numbers in bounds. -/
theorem Numbered.step (hs : Numbered s) (h : s.step a = some t) : Numbered t := by
  have hstepped := SubmissionBook.stepped h
  have hle := hstepped.count_le
  have hlt : ∀ {n}, n < s.count → n < t.count := fun hn => Nat.lt_of_lt_of_le hn hle
  refine ⟨hs.sub h, ?_, ?_, ?_, ?_, ?_, hs.stop h⟩
  · have hkept : ∀ report n, s.tasks report = some n → n < t.count :=
      fun report n hn => hlt (hs.tasks report n hn)
    rw [hstepped.tasks]
    unfold SubmissionBook.tasksAfter
    split
    · refine of_update_some (fun n hn => ?_) hkept
      cases hn
      rw [hstepped.count]
      exact Nat.lt_succ_self _
    · exact of_update_some nofun hkept
    · exact hkept
  · have hkept : ∀ report n, s.taskCancels report = some n → n < t.count :=
      fun report n hn => hlt (hs.cancels report n hn)
    rw [hstepped.cancels]
    unfold SubmissionBook.cancelsAfter
    split
    · next n =>
      refine of_update_some (fun m hm => ?_) hkept
      cases hm
      refine hlt (hs.submitted n ?_)
      rw [hstepped.registered.1]
      nofun
    · exact of_update_some nofun hkept
    · exact hkept
  · intro k st cancel hk
    have hm := hstepped.stop k
    rw [hk] at hm
    generalize hpc : StopPc.looked st cancel = pc at hm
    cases hm with
    | kept =>
      obtain ⟨hst, hcancel⟩ := hs.looked k st cancel hpc.symm
      exact ⟨hlt hst, fun n hn => hlt (hcancel n hn)⟩
    | looked report st' hk' hst' =>
      cases hpc
      exact ⟨hlt (hs.tasks report st hst'), fun n hn => hlt (hs.cancels report n hn)⟩
    | notFound | passed | notRunning | cancelled | written => cases hpc
  · intro k st cancel hk
    have hm := hstepped.stop k
    rw [hk] at hm
    generalize hpc : StopPc.passed st cancel = pc at hm
    cases hm with
    | kept =>
      obtain ⟨hst, hcancel⟩ := hs.passed k st cancel hpc.symm
      exact ⟨hlt hst, fun n hn => hlt (hcancel n hn)⟩
    | passed st' cancel' hk' hrunning =>
      cases hpc
      obtain ⟨hst, hcancel⟩ := hs.looked k st cancel hk'
      exact ⟨hlt hst, fun n hn => hlt (hcancel n hn)⟩
    | looked | notFound | notRunning | cancelled | written => cases hpc
  · intro k st hk
    have hm := hstepped.stop k
    rw [hk] at hm
    generalize hpc : StopPc.cancelled st = pc at hm
    cases hm with
    | kept => exact hlt (hs.cancelled k st hpc.symm)
    | cancelled st' cancel hk' =>
      cases hpc
      exact hlt (hs.passed k st cancel hk').1
    | looked | notFound | passed | notRunning | written => cases hpc

/-- What the registry does when the submissions take a step. -/
def SubmissionBook.follow (s : SubmissionBook) : SubmitAction → List BookAction
  | .handleSubmitTask report => [.handleSubmitTask report]
  | .startGoroutine n => [.storeCancel (s.subs n).report n]
  | .writeOutcome n =>
    match (s.subs n).pc with
    | .failing _ => [.setStatus n .error]
    | _ => [.setStatus n .done]
  | .dropCancel n => [.dropCancel (s.subs n).report]
  | .endContext n => [.endContext n]
  | .callCancel k =>
    match s.stops k with
    | .passed _ (some n) => [.endContext n]
    | _ => []
  | .writeStopped k =>
    match s.stops k with
    | .cancelled st => [.setStatus st .stopped]
    | _ => []
  | .deleteReport report => [.deleteReport report]
  | .distributed _ _ | .aggregated _ _ | .handleStopTask _ | .checkRunning _ => []

/-- **One step**: the registry follows in one step, or stays. -/
theorem SubmissionBook.registry_step (hs : Numbered s) (h : s.step a = some t) :
    run Registry.step (s.registry r₀) (s.follow a) = some (t.registry r₀) := by
  have hborn : ∀ {n : ℕ} {pc : SubmitPc}, (s.subs n).pc = pc → pc ≠ .notSubmitted → n < s.count :=
    fun hpc hne => hs.submitted _ (hpc ▸ hne)
  cases a with simp only [SubmissionBook.step, SubmissionBook.follow] at h ⊢
  | handleSubmitTask report =>
    cases h
    refine run_cons.mpr ⟨_, rfl, ?_⟩
    simp only [SubmissionBook.registry, SubmissionBook.setSub, comp_update]
    rfl
  | startGoroutine n =>
    split at h
    · next hpc =>
      cases h
      refine run_cons.mpr ⟨_, if_pos (hborn hpc nofun), ?_⟩
      have hat : (s.setSub n ((s.subs n).at .distributing)).registry r₀ = s.registry r₀ :=
        registry_at n _
      exact congrArg (fun r : Registry => some { r with
        taskCancels := update s.taskCancels (s.subs n).report (some n) }) hat.symm
    · cases h
  | distributed n err =>
    split at h
    · cases h
      exact congrArg some (registry_at n _).symm
    · cases h
  | aggregated n err =>
    split at h
    · cases h
      exact congrArg some (registry_at n _).symm
    · cases h
  | writeOutcome n =>
    split at h
    · next err hpc =>
      cases h
      rw [hpc]
      exact registry_setStatus (((s.subs n).withStatus .error err).at .deferring) (hborn hpc nofun) rfl
    · next hpc =>
      cases h
      rw [hpc]
      exact registry_setStatus (((s.subs n).withStatus .done (s.subs n).error).at .deferring)
        (hborn hpc nofun) rfl
    · cases h
  | dropCancel n =>
    split at h
    · cases h
      refine run_cons.mpr ⟨_, rfl, ?_⟩
      have hat : (s.setSub n ((s.subs n).at .cancelling)).registry r₀ = s.registry r₀ :=
        registry_at n _
      exact congrArg (fun r : Registry => some { r with
        taskCancels := update s.taskCancels (s.subs n).report none }) hat.symm
    · cases h
  | endContext n =>
    split at h
    · next hpc =>
      cases h
      exact registry_endContext _ (hborn hpc nofun) rfl rfl
    · cases h
  | handleStopTask report =>
    cases h
    rfl
  | checkRunning k =>
    split at h
    · cases h
      rfl
    · cases h
  | callCancel k =>
    split at h
    · next st n hk =>
      cases h
      rw [hk]
      exact registry_endContext _ ((hs.passed k st _ hk).2 n rfl) rfl rfl
    · next hk =>
      cases h
      rw [hk]
      rfl
    · cases h
  | writeStopped k =>
    split at h
    · next st hk =>
      cases h
      exact registry_setStatus ((s.subs st).withStatus .stopped "stopped by user")
        (hs.cancelled k st hk) rfl
    · cases h
  | deleteReport report =>
    cases h
    rfl

/-- **The submissions refine the registry**: whatever the handlers and goroutines do, step by
step, the registry follows with the actions of `follow`. -/
theorem submissions_refine_registry (r₀ : Registry) {as : List SubmitAction}
    (hrun : run SubmissionBook.step .init as = some t) :
    run Registry.step (SubmissionBook.init.registry r₀)
      (followAll SubmissionBook.step SubmissionBook.follow .init as) = some (t.registry r₀) := by
  obtain ⟨r, hr, -, rfl⟩ := run_simulated
    (R := fun s r => Numbered s ∧ r = s.registry r₀)
    (fun s a s' r hR hstep => by
      obtain ⟨hs, rfl⟩ := hR
      exact ⟨_, SubmissionBook.registry_step hs hstep, hs.step hstep, rfl⟩)
    as ⟨Numbered.init, rfl⟩ hrun
  exact hr

/-- A submission that fails while a stop request is under way. -/
theorem failed_submission_refines : ∃ t, run SubmissionBook.step .init
      [.handleSubmitTask "r", .startGoroutine 0, .handleStopTask "r", .checkRunning 0,
        .distributed 0 "no agents", .writeOutcome 0, .callCancel 0, .writeStopped 0] = some t ∧
    run Registry.step (SubmissionBook.init.registry Master.init.toRegistry)
      [.handleSubmitTask "r", .storeCancel "r" 0, .setStatus 0 .error, .endContext 0,
        .setStatus 0 .stopped] = some (t.registry Master.init.toRegistry) := by
  have hrun : run SubmissionBook.step .init [.handleSubmitTask "r", .startGoroutine 0,
    .handleStopTask "r", .checkRunning 0, .distributed 0 "no agents", .writeOutcome 0,
    .callCancel 0, .writeStopped 0] = some _ := rfl
  exact ⟨_, hrun, submissions_refine_registry _ hrun⟩

/-- The request has been answered. -/
def StopPc.isOver : StopPc → Bool
  | .written _ | .refused _ => true
  | .looked _ _ | .passed _ _ | .cancelled _ => false

/-- The steps of the stop request `k`. -/
def stopSteps (report : String) (k : ℕ) : List SubmitAction :=
  [.handleStopTask report, .checkRunning k, .callCancel k, .writeStopped k]

/-- **A stop that nobody comes between** runs to its answer, all its steps or up to a refusal, and
does to the registry what its one step for a stop does. -/
theorem stop_undisturbed (s : SubmissionBook) (r₀ : Registry) (report : String) :
    ∃ m t, run SubmissionBook.step s ((stopSteps report s.stopCount).take m) = some t ∧
      (t.stops s.stopCount).isOver ∧
      (s.registry r₀).step (.handleStopTask report) = some (t.registry r₀) := by
  cases htask : s.tasks report with
  | none =>
    refine ⟨1, _, rfl, ?_⟩
    simp [Registry.step, SubmissionBook.registry, SubmissionBook.setStop, StopPc.isOver, htask]
  | some st =>
    by_cases hrunning : (s.subs st).status = .running
    · refine ⟨4, ?_⟩
      -- the write of `stopped` leaves the contexts as the call of `cancelFn` left them
      have hctx : ∀ subs : ℕ → Submission, Submission.ctxDone ∘
          update subs st ((subs st).withStatus .stopped "stopped by user") =
          Submission.ctxDone ∘ subs := fun subs => comp_update_of_eq _ _ rfl
      have hstatus : ∀ subs : ℕ → Submission, Submission.status ∘
          update subs st ((subs st).withStatus .stopped "stopped by user") =
          update (Submission.status ∘ subs) st .stopped := fun subs =>
        comp_update _ _ _ _
      cases hcancel : s.taskCancels report with
      | none =>
        simp [stopSteps, run, SubmissionBook.step, SubmissionBook.setStop, SubmissionBook.setSub,
          htask, hcancel, hrunning, Registry.step, SubmissionBook.registry, StopPc.isOver, hctx, hstatus]
      | some n =>
        have hcancelled : Submission.ctxDone ∘ update s.subs n (s.subs n).cancel =
            update (Submission.ctxDone ∘ s.subs) n true := comp_update _ _ _ _
        have hkept : Submission.status ∘ update s.subs n (s.subs n).cancel =
            Submission.status ∘ s.subs := comp_update_of_eq _ _ rfl
        simp [stopSteps, run, SubmissionBook.step, SubmissionBook.setStop, SubmissionBook.setSub,
          htask, hcancel, hrunning, Registry.step, SubmissionBook.registry, StopPc.isOver, hctx, hstatus,
          hcancelled, hkept]
    · refine ⟨2, ?_⟩
      simp [stopSteps, run, SubmissionBook.step, SubmissionBook.setStop, htask, hrunning,
        Registry.step, SubmissionBook.registry, StopPc.isOver]

end Refinement

end Robot.Mode
