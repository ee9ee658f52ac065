import Mathlib
import Robot.Base.TaskAction
import Robot.Lib.Machine

/-!
# The timeout of a reused task object

A task that waits in `Yield` has no other way out of a lost answer than its timeout:
`SetAwaitData` arms a timer with `time.AfterFunc`, and when it fires `TimeoutKill` pushes
`"sys timeout"` into the channel the task is blocked on. Case tasks are reused: the worker
takes one out of a pool, calls `ResetForReuse` on it, gives it a new id and runs it again.

The timer is armed in the branch of `SetAwaitData` that *makes* the channel:

> `if t.AwaitChannel == nil { t.AwaitChannel = make(…); if … > 0 { arm the timer } }`

`ResetForReuse` stops the timer and sets `Timeout` to nil but keeps the channel, and so
does the end of a run. The object's second waiting run therefore finds a channel, arms
nothing, and waits without a timeout.

This file models one object through any number of runs, one after the other, with its
timers and the `TimeoutKill` calls they start (`TimedTask`), and answers exactly when a
waiting run has a timer of its own (`timeout_armed_iff`): when the object had no channel
yet as the run began, that is, when no earlier run on it waited.

`Kill` is left out: it neither arms nor stops a timer except through the `Finish` that
`TimeoutKill` also reaches.
-/

namespace Robot.Base

open Robot.Lib Function

/-- A `*time.Timer`: armed and counting, stopped before it fired, or fired. -/
inductive TimerState where
  | pending
  | stopped
  | fired
  deriving DecidableEq

/-- `Timer.Stop`: nothing happens to a timer that has fired. -/
def TimerState.stop : TimerState → TimerState
  | .pending => .stopped
  | .stopped => .stopped
  | .fired => .fired

/-- A timer and the run of the object in which `SetAwaitData` armed it. -/
structure TimeoutTimer where
  run : Nat
  state : TimerState
  deriving DecidableEq

/-- Where the object's own goroutine is: between two runs, inside `HookRun`, or blocked in
the receive of `Yield`. -/
inductive RunPhase where
  | between
  | running
  | blocked
  deriving DecidableEq

/-- The program points of the `TimeoutKill` call a timer starts when it fires. -/
inductive TimeoutPc where
  | notStarted
  | load
  | look
  | push
  | finish
  | returned
  deriving DecidableEq

/-- A task object with its timers. Timer `k` is the `k`-th one armed on the object, `timeout`
is the field `Timeout`, `made` counts the timers. `run` is the number of the current run,
`awaited` says it has called `SetAwaitData`, and `noChannel` that `AwaitChannel` was nil when
it began. -/
structure TimedTask (ρ : Type) where
  base : TaskActionBase ρ
  timeoutDuration : Int
  timeout : Option Nat
  timers : Nat → Option TimeoutTimer
  made : Nat
  kills : Nat → TimeoutPc
  phase : RunPhase
  run : Nat
  awaited : Bool
  noChannel : Bool

inductive TimedAct (ρ : Type) where
  | resetForReuse
  | initTaskId
  | setAwaitData (awaitData : TaskActionAwaitData)
  | clearAwaitData
  /-- `Yield`; `refused` when `IsTakenActionGuard` is false or `BeforeYield` fails. -/
  | yield (refused : Bool)
  /-- The receive in `Yield` gets an item. -/
  | wake
  /-- `Resume`, called by any other goroutine. -/
  | resume (awaitData : TaskActionAwaitData) (resumeData : TaskActionResumeData ρ)
  /-- `HookRun` returns and its goroutine calls `Finish`. -/
  | finish
  | fire (k : Nat)
  /-- The next step of the `TimeoutKill` of timer `k`. -/
  | timeoutKill (k : Nat)

namespace TimedTask

variable {ρ : Type}

/-- `NewTaskActionBase(timeoutDuration, name)`. -/
def new (timeoutDuration : Int) : TimedTask ρ :=
  { base := .new, timeoutDuration := timeoutDuration, timeout := none, timers := fun _ => none,
    made := 0, kills := fun _ => .notStarted, phase := .between, run := 0, awaited := false,
    noChannel := true }

/-- `if t.Timeout != nil { t.Timeout.Stop() }`, as it changes the timers. -/
def stopped (t : TimedTask ρ) (k : Nat) : Option TimeoutTimer :=
  if t.timeout = some k then (t.timers k).map fun T => { T with state := T.state.stop }
  else t.timers k

/-- `SetAwaitData`: a timer is armed only where the channel is made. -/
def setAwaitData (t : TimedTask ρ) (awaitData : TaskActionAwaitData) : TimedTask ρ :=
  let t' := { t with base := t.base.setAwaitData awaitData, awaited := true }
  if t.base.awaitChannel.isNone ∧ t.timeoutDuration > 0 then
    { t' with
      timers := update t.timers t.made (some ⟨t.run, .pending⟩)
      made := t.made + 1
      timeout := some t.made }
  else t'

/-- `Finish`: the timer is stopped whoever wins the flag. -/
def finish (t : TimedTask ρ) : TimedTask ρ :=
  { t with base := t.base.finish, timers := t.stopped }

/-- `ResetForReuse`. -/
def resetForReuse (t : TimedTask ρ) : TimedTask ρ :=
  { t with base := t.base.resetForReuse, timers := t.stopped, timeout := none }

/-- The tests at the head of `Yield`; when they pass, it goes on to the receive. -/
def yieldWaits (t : TimedTask ρ) (refused : Bool) : Bool :=
  !t.base.kill && t.base.awaitChannel.isSome && !refused

/-- The steps of one `TimeoutKill` call. -/
def timeoutKill (t : TimedTask ρ) (k : Nat) : Option (TimedTask ρ) :=
  match t.kills k with
  | .load =>
    match t.base.beginKill with
    | none => some { t with kills := update t.kills k .returned }
    | some b => some { t with base := b, kills := update t.kills k .look }
  | .look =>
    some { t with
      kills := update t.kills k (if t.base.killPushes then .push else .finish) }
  | .push =>
    match t.base.send (.err "sys timeout") with
    | none => none
    | some b => some { t with base := b, kills := update t.kills k .returned }
  | .finish =>
    some { t.finish with kills := update t.kills k .returned }
  | .notStarted | .returned => none

/-- One atomic step. -/
def step (t : TimedTask ρ) : TimedAct ρ → Option (TimedTask ρ)
  | .resetForReuse => if t.phase = .between then some t.resetForReuse else none
  | .initTaskId =>
    if t.phase = .between then
      some { t with
        base := t.base.initTaskId
        phase := .running
        run := t.run + 1
        awaited := false
        noChannel := t.base.awaitChannel.isNone }
    else none
  | .setAwaitData awaitData => if t.phase = .running then some (t.setAwaitData awaitData) else none
  | .clearAwaitData =>
    if t.phase = .running then some { t with base := t.base.clearAwaitData } else none
  | .yield refused =>
    if t.phase = .running then
      some (if t.yieldWaits refused then { t with phase := .blocked } else t)
    else none
  | .wake =>
    if t.phase = .blocked then
      t.base.receive.map fun r => { t with base := r.2.clearAwaitData, phase := .running }
    else none
  | .resume awaitData resumeData =>
    if t.base.awaits awaitData then (t.base.send resumeData).map fun b => { t with base := b }
    else some t
  | .finish =>
    if t.phase = .running then some { t.finish with phase := .between } else none
  | .fire k =>
    match t.timers k with
    | none => none
    | some T =>
      if T.state = .pending then
        some { t with
          timers := update t.timers k (some { T with state := .fired })
          kills := update t.kills k .load }
      else none
  | .timeoutKill k => t.timeoutKill k

/-! ## What one step can do

Most steps leave the timers alone; they are told apart only by what they do to the rest of
the object. -/

/-- What a step does, seen from the timers. -/
inductive Does (t : TimedTask ρ) : TimedAct ρ → TimedTask ρ → Prop
  | resets : t.phase = .between → Does t .resetForReuse t.resetForReuse
  | begins : t.phase = .between →
      Does t .initTaskId { t with
        base := t.base.initTaskId, phase := .running, run := t.run + 1, awaited := false,
        noChannel := t.base.awaitChannel.isNone }
  | awaits (awaitData : TaskActionAwaitData) : t.phase = .running →
      Does t (.setAwaitData awaitData) (t.setAwaitData awaitData)
  | waits (refused : Bool) : t.phase = .running → t.yieldWaits refused = true →
      Does t (.yield refused) { t with phase := .blocked }
  | ends : t.phase = .running → Does t .finish { t.finish with phase := .between }
  | fires (k : Nat) (T : TimeoutTimer) : t.timers k = some T → T.state = .pending →
      Does t (.fire k) { t with
        timers := update t.timers k (some { T with state := .fired }),
        kills := update t.kills k .load }
  | killFinishes (k : Nat) : t.kills k ≠ .notStarted →
      Does t (.timeoutKill k) { t.finish with kills := update t.kills k .returned }
  /-- The rest: the object changes, the channel is neither made nor lost, a `TimeoutKill`
  moves on, a blocked run wakes. -/
  | moves (a : TimedAct ρ) (b : TaskActionBase ρ) (kills : Nat → TimeoutPc) (phase : RunPhase) :
      b.awaitChannel.isNone = t.base.awaitChannel.isNone →
      (∀ k, kills k ≠ .notStarted → t.kills k ≠ .notStarted) →
      (phase = t.phase ∨ t.phase = .blocked ∧ phase = .running) →
      Does t a { t with base := b, kills := kills, phase := phase }

variable {b : TaskActionBase ρ} {kills : Nat → TimeoutPc} {k : Nat} {t t' : TimedTask ρ}
  {a : TimedAct ρ} {T : TimeoutTimer}

theorem send_isNone {b' : TaskActionBase ρ} {x : TaskActionResumeData ρ}
    (h : b.send x = some b') : b'.awaitChannel.isNone = b.awaitChannel.isNone := by
  unfold TaskActionBase.send at h
  split at h
  next hc => cases h; simp [hc]
  next => simp at h

theorem receive_isNone {r : TaskActionResumeData ρ × TaskActionBase ρ}
    (h : b.receive = some r) : r.2.awaitChannel.isNone = b.awaitChannel.isNone := by
  unfold TaskActionBase.receive at h
  split at h
  next hc => cases h; simp [hc]
  next => simp at h

theorem beginKill_isNone {b' : TaskActionBase ρ} (h : b.beginKill = some b') :
    b'.awaitChannel.isNone = b.awaitChannel.isNone := by
  unfold TaskActionBase.beginKill at h
  split at h
  · simp at h
  · split at h
    · simp at h
    · cases h; rfl

theorem finish_isNone (b : TaskActionBase ρ) :
    b.finish.awaitChannel.isNone = b.awaitChannel.isNone := by
  unfold TaskActionBase.finish
  split <;> rfl

/-- Moving one `TimeoutKill` that has started starts no other. -/
theorem started_of_update {pc : TimeoutPc} (hk : kills k ≠ .notStarted) :
    ∀ j, update kills k pc j ≠ .notStarted → kills j ≠ .notStarted := by
  intro j hj
  by_cases hjk : j = k
  · exact hjk ▸ hk
  · rwa [update_of_ne hjk] at hj

theorem timeoutKill_does (h : t.timeoutKill k = some t') :
    Does t (.timeoutKill k) t' := by
  unfold timeoutKill at h
  split at h
  next hpc =>
    have hk : t.kills k ≠ .notStarted := by rw [hpc]; nofun
    split at h
    next =>
      cases h
      exact .moves _ t.base _ t.phase rfl (started_of_update hk) (.inl rfl)
    next b hb =>
      cases h
      exact .moves _ b _ t.phase (beginKill_isNone hb) (started_of_update hk) (.inl rfl)
  next hpc =>
    cases h
    have hk : t.kills k ≠ .notStarted := by rw [hpc]; nofun
    exact .moves _ t.base _ t.phase rfl (started_of_update hk) (.inl rfl)
  next hpc =>
    have hk : t.kills k ≠ .notStarted := by rw [hpc]; nofun
    split at h
    next => simp at h
    next b hb =>
      cases h
      exact .moves _ b _ t.phase (send_isNone hb) (started_of_update hk) (.inl rfl)
  next hpc =>
    cases h
    exact .killFinishes k (by rw [hpc]; nofun)
  all_goals simp at h

/-- Every step is one of these. -/
theorem step_does (h : t.step a = some t') :
    Does t a t' := by
  cases a with
  | resetForReuse =>
    obtain ⟨hp, h⟩ := Option.ite_none_right_eq_some.mp h
    exact Option.some.inj h ▸ .resets hp
  | initTaskId =>
    obtain ⟨hp, h⟩ := Option.ite_none_right_eq_some.mp h
    exact Option.some.inj h ▸ .begins hp
  | setAwaitData awaitData =>
    obtain ⟨hp, h⟩ := Option.ite_none_right_eq_some.mp h
    exact Option.some.inj h ▸ .awaits awaitData hp
  | clearAwaitData =>
    obtain ⟨hp, h⟩ := Option.ite_none_right_eq_some.mp h
    exact Option.some.inj h ▸ .moves _ _ t.kills t.phase rfl (fun _ hk => hk) (.inl rfl)
  | yield refused =>
    obtain ⟨hp, h⟩ := Option.ite_none_right_eq_some.mp h
    obtain rfl := Option.some.inj h
    split
    next hw => exact .waits refused hp hw
    next => exact .moves _ t.base t.kills t.phase rfl (fun _ hk => hk) (.inl rfl)
  | wake =>
    obtain ⟨hp, h⟩ := Option.ite_none_right_eq_some.mp h
    obtain ⟨r, hr, rfl⟩ := Option.map_eq_some_iff.mp h
    exact .moves _ _ t.kills .running (receive_isNone hr) (fun _ hk => hk) (.inr ⟨hp, rfl⟩)
  | resume awaitData resumeData =>
    simp only [step] at h
    split at h
    next =>
      obtain ⟨b, hb, rfl⟩ := Option.map_eq_some_iff.mp h
      exact .moves _ b t.kills t.phase (send_isNone hb) (fun _ hk => hk) (.inl rfl)
    next =>
      obtain rfl := Option.some.inj h
      exact .moves _ t.base t.kills t.phase rfl (fun _ hk => hk) (.inl rfl)
  | finish =>
    obtain ⟨hp, h⟩ := Option.ite_none_right_eq_some.mp h
    exact Option.some.inj h ▸ .ends hp
  | fire k =>
    simp only [step] at h
    split at h
    next => simp at h
    next T hT =>
      obtain ⟨hp, h⟩ := Option.ite_none_right_eq_some.mp h
      exact Option.some.inj h ▸ .fires k T hT hp
  | timeoutKill k => exact timeoutKill_does h

/-! ## The timers of an object

At most one timer is ever armed on an object, with its channel. -/

/-- What is known of the timers in every reachable state. -/
structure Clocked (t : TimedTask ρ) : Prop where
  dur : 0 < t.timeoutDuration
  chan : t.base.awaitChannel.isNone = true ↔ t.made = 0
  one : t.made ≤ 1
  known : ∀ k T, t.timers k = some T → k < t.made ∧ T.run ≤ t.run
  kill : ∀ k, t.kills k ≠ .notStarted → ∃ T, t.timers k = some T ∧ T.state = .fired
  /-- A run that began without a channel has none until it calls `SetAwaitData`. -/
  unarmed : t.phase ≠ .between → t.noChannel = true → t.awaited = false → t.made = 0
  /-- From then on it has a timer of its own, which nobody stops while it lasts. -/
  armed : t.phase ≠ .between → t.noChannel = true → t.awaited = true →
    ∃ T, t.timers 0 = some T ∧ T.run = t.run ∧ T.state ≠ .stopped
  /-- A run that began with a channel never gets a timer. -/
  stale : t.phase ≠ .between → t.noChannel = false →
    t.made ≠ 0 ∧ ∀ k T, t.timers k = some T → T.run ≠ t.run

theorem Clocked.new {d : Int} (hd : 0 < d) : Clocked (new d : TimedTask ρ) where
  dur := hd
  chan := by simp [TimedTask.new, TaskActionBase.new]
  one := Nat.zero_le _
  known := nofun
  kill := fun k hk => absurd rfl hk
  unarmed := fun _ _ _ => rfl
  armed := fun hp => absurd rfl hp
  stale := fun hp => absurd rfl hp

/-- The steps that leave the timers alone. -/
theorem Clocked.moves (h : Clocked t) {phase : RunPhase}
    (hb : b.awaitChannel.isNone = t.base.awaitChannel.isNone)
    (hkills : ∀ k, kills k ≠ .notStarted → t.kills k ≠ .notStarted)
    (hphase : phase ≠ .between → t.phase ≠ .between) :
    Clocked { t with base := b, kills := kills, phase := phase } where
  dur := h.dur
  chan := by
    rw [← h.chan, ← hb]
  one := h.one
  known := h.known
  kill := fun k hk => h.kill k (hkills k hk)
  unarmed := fun hp => h.unarmed (hphase hp)
  armed := fun hp => h.armed (hphase hp)
  stale := fun hp => h.stale (hphase hp)

/-- A timer that was there before `Stop` and the same one after it belong to one run. -/
theorem stopped_run (h : t.stopped k = some T) :
    ∃ T₀, t.timers k = some T₀ ∧ T₀.run = T.run := by
  unfold stopped at h
  split at h
  next =>
    obtain ⟨T₀, hT₀, rfl⟩ := Option.map_eq_some_iff.mp h
    exact ⟨T₀, hT₀, rfl⟩
  next => exact ⟨T, h, rfl⟩

/-- `Stop` does nothing to a timer that has fired. -/
theorem stopped_fired (h : t.timers k = some T) (hT : T.state = .fired) : t.stopped k = some T := by
  unfold stopped
  split
  next =>
    rw [h, Option.map_some, hT]
    exact congrArg some (by rw [TimerState.stop, ← hT])
  next => exact h

/-- The steps that stop the timer: between two runs, or by the `Finish` of a `TimeoutKill`,
whose timer is the only one and has fired. -/
theorem Clocked.stops (h : Clocked t) {timeout : Option Nat} {phase : RunPhase}
    (hb : b.awaitChannel.isNone = t.base.awaitChannel.isNone)
    (hkills : ∀ k, kills k ≠ .notStarted → t.kills k ≠ .notStarted)
    (hphase : phase ≠ .between → t.phase ≠ .between ∧ ∃ k, t.kills k ≠ .notStarted) :
    Clocked { t with
      base := b, timers := t.stopped, timeout := timeout, kills := kills, phase := phase } where
  dur := h.dur
  chan := by rw [← h.chan, ← hb]
  one := h.one
  known := by
    intro k T hT
    obtain ⟨T₀, hT₀, hrun⟩ := stopped_run hT
    exact hrun ▸ h.known k T₀ hT₀
  kill := by
    intro k hk
    obtain ⟨T, hT, hf⟩ := h.kill k (hkills k hk)
    exact ⟨T, stopped_fired hT hf, hf⟩
  unarmed := fun hp => h.unarmed (hphase hp).1
  armed := by
    intro hp hn ha
    obtain ⟨hp', k, hk⟩ := hphase hp
    obtain ⟨T, hT, hrun, -⟩ := h.armed hp' hn ha
    obtain ⟨T', hT', hf⟩ := h.kill k hk
    have hk0 : k = 0 := by
      have := h.one
      have := (h.known k T' hT').1
      omega
    obtain rfl : T' = T := Option.some.inj (hT'.symm.trans (hk0 ▸ hT))
    exact ⟨T', stopped_fired hT hf, hrun, by rw [hf]; nofun⟩
  stale := by
    intro hp hn
    obtain ⟨hm, hold⟩ := h.stale (hphase hp).1 hn
    refine ⟨hm, fun k T hT => ?_⟩
    obtain ⟨T₀, hT₀, hrun⟩ := stopped_run hT
    exact hrun ▸ hold k T₀ hT₀

/-- A new run: all timers there are belong to earlier ones. -/
theorem Clocked.begins (h : Clocked t) :
    Clocked { t with
      base := t.base.initTaskId, phase := .running, run := t.run + 1, awaited := false,
      noChannel := t.base.awaitChannel.isNone } where
  dur := h.dur
  chan := h.chan
  one := h.one
  known := fun k T hT => ⟨(h.known k T hT).1, Nat.le_succ_of_le (h.known k T hT).2⟩
  kill := h.kill
  unarmed := fun _ hn _ => h.chan.mp hn
  armed := nofun
  stale := by
    intro _ hn
    refine ⟨fun hm => ?_, fun k T hT hrun => ?_⟩
    · rw [show t.base.awaitChannel.isNone = true from h.chan.mpr hm] at hn
      exact absurd hn nofun
    · have := (h.known k T hT).2
      have : T.run = t.run + 1 := hrun
      omega

/-- `SetAwaitData` in a run: the object's timer is armed with the channel, or was before. -/
theorem Clocked.awaits (h : Clocked t) (hp : t.phase = .running)
    (awaitData : TaskActionAwaitData) : Clocked (t.setAwaitData awaitData) := by
  have hnb : t.phase ≠ .between := by rw [hp]; nofun
  unfold TimedTask.setAwaitData
  split
  next hc =>
    have hm : t.made = 0 := h.chan.mp hc.1
    refine ⟨h.dur, ⟨nofun, nofun⟩, Nat.succ_le_succ hm.le, ?_, ?_, nofun, ?_, ?_⟩
    · refine (forall_update_iff t.timers fun k x => ∀ T, x = some T →
        k < t.made + 1 ∧ T.run ≤ t.run).mpr ⟨?_, fun k _ T hT => ?_⟩
      · intro T hT
        cases hT
        exact ⟨Nat.lt_succ_self _, Nat.le_refl _⟩
      · exact ⟨Nat.lt_succ_of_lt (h.known k T hT).1, (h.known k T hT).2⟩
    · intro k hk
      obtain ⟨T, hT, -⟩ := h.kill k hk
      have := (h.known k T hT).1
      omega
    · intro _ _ _
      refine ⟨⟨t.run, .pending⟩, ?_, rfl, nofun⟩
      show update t.timers t.made _ 0 = _
      rw [hm, update_self]
    · intro _ hn
      exact absurd hm (h.stale hnb hn).1
  next hc =>
    have hc' : t.base.awaitChannel.isNone = false :=
      Bool.eq_false_iff.mpr fun hn => hc ⟨hn, h.dur⟩
    have hm : t.made ≠ 0 := fun hm => by rw [h.chan.mpr hm] at hc'; exact absurd hc' nofun
    refine ⟨h.dur, ⟨nofun, fun hm' => absurd hm' hm⟩, h.one, h.known, h.kill, nofun, ?_, h.stale⟩
    intro _ hn _
    cases ha : t.awaited with
    | true => exact h.armed hnb hn ha
    | false => exact absurd (h.unarmed hnb hn ha) hm

theorem Clocked.fires (h : Clocked t) (hT : t.timers k = some T) :
    Clocked { t with
      timers := update t.timers k (some { T with state := .fired })
      kills := update t.kills k .load } where
  dur := h.dur
  chan := h.chan
  one := h.one
  known := by
    refine (forall_update_iff t.timers fun k x => ∀ T, x = some T →
      k < t.made ∧ T.run ≤ t.run).mpr ⟨?_, fun j _ => h.known j⟩
    intro T' hT'
    cases hT'
    exact h.known k T hT
  kill := by
    intro j hj
    by_cases hjk : j = k
    · subst hjk
      exact ⟨_, update_self .., rfl⟩
    · have hj' : update t.kills k .load j ≠ .notStarted := hj
      rw [update_of_ne hjk] at hj'
      obtain ⟨T', hT', hf⟩ := h.kill j hj'
      exact ⟨T', (update_of_ne hjk ..).trans hT', hf⟩
  unarmed := h.unarmed
  armed := by
    intro hp hn ha
    obtain ⟨T', hT', hrun, hs⟩ := h.armed hp hn ha
    by_cases hk : 0 = k
    · subst hk
      obtain rfl : T' = T := Option.some.inj (hT'.symm.trans hT)
      refine ⟨{ T' with state := .fired }, ?_, hrun, nofun⟩
      exact update_self 0 _ t.timers
    · exact ⟨T', (update_of_ne hk ..).trans hT', hrun, hs⟩
  stale := by
    intro hp hn
    obtain ⟨hm, hold⟩ := h.stale hp hn
    refine ⟨hm, (forall_update_iff t.timers fun k x => ∀ T, x = some T →
      T.run ≠ t.run).mpr ⟨?_, fun j _ => hold j⟩⟩
    intro T' hT'
    cases hT'
    exact hold k T hT

/-- **One step keeps the account of the timers.** -/
theorem Clocked.step (h : Clocked t) (hs : t.step a = some t') : Clocked t' := by
  cases step_does hs with
  | resets hp =>
    exact h.stops (Option.isNone_map ..) (fun _ hk => hk) (fun hp' => absurd hp hp')
  | begins hp => exact h.begins
  | awaits awaitData hp => exact h.awaits hp awaitData
  | waits refused hp hw => exact h.moves rfl (fun _ hk => hk) (fun _ => by rw [hp]; nofun)
  | ends hp =>
    exact h.stops (finish_isNone _) (fun _ hk => hk) (fun hp' => absurd rfl hp')
  | fires k T hT hp => exact h.fires hT
  | killFinishes k hk =>
    exact h.stops (finish_isNone _) (started_of_update hk) (fun hp => ⟨hp, k, hk⟩)
  | moves a b kills phase hb hk hp =>
    refine h.moves hb hk fun hne => ?_
    rcases hp with hp | ⟨hp, -⟩
    · exact hp ▸ hne
    · rw [hp]
      nofun

/-! ## Which waiting runs have a timeout -/

/-- While the current run is blocked in `Yield` after a `SetAwaitData`, a timer armed in this
run is pending or has fired. -/
def HasTimeout (t : TimedTask ρ) : Prop :=
  t.phase = .blocked → t.awaited = true →
    ∃ k T, t.timers k = some T ∧ T.run = t.run ∧ (T.state = .pending ∨ T.state = .fired)

/-- The condition at a `Yield` that goes on to wait, in a run that has called `SetAwaitData`:
the object had no channel when the run began. -/
def FirstWait (t : TimedTask ρ) (a : TimedAct ρ) : Prop :=
  ∀ refused, a = .yield refused → t.phase = .running → t.yieldWaits refused = true →
    t.awaited = true → t.noChannel = true

/-- A run that began with a channel waits without a timeout. -/
theorem Clocked.no_timeout (h : Clocked t) (hp : t.phase = .blocked)
    (ha : t.awaited = true) (hn : t.noChannel = false) : ¬ HasTimeout t := by
  intro ht
  obtain ⟨k, T, hT, hrun, -⟩ := ht hp ha
  exact (h.stale (by rw [hp]; nofun) hn).2 k T hT hrun

/-- The account, in runs that wait only on a channel of their own. -/
structure Covered (t : TimedTask ρ) : Prop extends Clocked t where
  own : t.phase = .blocked → t.awaited = true → t.noChannel = true

theorem Covered.hasTimeout (h : Covered t) : HasTimeout t := by
  intro hp ha
  obtain ⟨T, hT, hrun, hs⟩ := h.armed (by rw [hp]; nofun) (h.own hp ha) ha
  refine ⟨0, T, hT, hrun, ?_⟩
  cases hst : T.state with
  | pending => exact .inl rfl
  | fired => exact .inr rfl
  | stopped => exact absurd hst hs

theorem Covered.step (h : Covered t) (hP : FirstWait t a)
    (hs : t.step a = some t') : Covered t' := by
  refine ⟨h.toClocked.step hs, ?_⟩
  cases step_does hs with
  | resets hp => exact fun hp' => absurd (hp.symm.trans hp') nofun
  | begins hp => nofun
  | awaits awaitData hp =>
    intro hp'
    have hphase : (t.setAwaitData awaitData).phase = t.phase := by
      unfold TimedTask.setAwaitData
      split <;> rfl
    exact absurd (hp.symm.trans (hphase.symm.trans hp')) nofun
  | waits refused hp hw => exact fun _ => hP refused rfl hp hw
  | ends hp => nofun
  | fires k T hT hp => exact h.own
  | killFinishes k hk => exact h.own
  | moves a b kills phase hb hk hp =>
    intro hp'
    rcases hp with hp | ⟨-, hp⟩
    · exact h.own (hp.symm.trans hp')
    · exact absurd (hp.symm.trans hp') nofun

/-- A `Yield` that misses the condition leaves its run without a timeout. -/
theorem late_wait_blocks (t : TimedTask ρ) (a : TimedAct ρ) (h : Clocked t)
    (hP : ¬ FirstWait t a) : ∃ t', t.step a = some t' ∧ ¬ HasTimeout t' := by
  simp only [FirstWait, Classical.not_forall] at hP
  obtain ⟨refused, rfl, hp, hw, ha, hn⟩ := hP
  have hs : t.step (.yield refused) = some { t with phase := .blocked } := by
    simp only [TimedTask.step, hp, hw, if_true]
  exact ⟨_, hs, (h.step hs).no_timeout rfl ha (Bool.eq_false_iff.mpr hn)⟩

/-- **A waiting run has a timeout exactly where the object's channel is new.** For every
object with a positive timeout and every sequence of runs on it: in all states the run that
is blocked in `Yield` has a timer of its own, if and only if every `Yield` that went on to
wait belonged to a run that began with `AwaitChannel` nil. -/
theorem timeout_armed_iff (timeoutDuration : Int) (hd : 0 < timeoutDuration)
    (as : List (TimedAct ρ)) :
    Throughout step HasTimeout (new timeoutDuration) as ↔
      Along step FirstWait (new timeoutDuration) as := by
  constructor
  · exact along_of_throughout (fun t a t' h hs => Clocked.step h hs)
      late_wait_blocks as (Clocked.new hd)
  · exact throughout_of_inv (fun t h => Covered.hasTimeout h)
      (fun t a t' h hP hs => h.step hP hs) as ⟨Clocked.new hd, nofun⟩

/-- The first run of an object waits for a response with its timer armed. -/
theorem first_run_has_timeout :
    Throughout step HasTimeout (new 5 : TimedTask Unit)
      [.initTaskId, .setAwaitData ⟨.rpc, 1⟩, .yield false] := by
  refine (timeout_armed_iff 5 (by decide) _).mpr ?_
  refine ⟨nofun, fun t₁ h₁ => ⟨nofun, fun t₂ h₂ => ⟨?_, fun _ _ => trivial⟩⟩⟩
  cases h₁
  cases h₂
  exact fun _ _ _ _ _ => rfl

/-- Two runs of one object. The first waits, gets its answer and ends; the object is reset,
runs again and waits for another one. -/
def twoWaitingRuns : List (TimedAct Unit) :=
  [.initTaskId, .setAwaitData ⟨.rpc, 1⟩, .yield false, .resume ⟨.rpc, 1⟩ (.data ()), .wake,
    .finish, .resetForReuse, .initTaskId, .setAwaitData ⟨.rpc, 2⟩, .yield false]

/-- The second run of a reused object waits with no timer at all. -/
theorem reused_task_waits_without_timeout :
    ¬ Throughout step HasTimeout (new 5) twoWaitingRuns := by
  intro h
  have hclock : ∀ t, Lib.run step (new 5) twoWaitingRuns = some t → Clocked t := fun t ht =>
    run_inv_all (fun t a t' h hs => Clocked.step h hs) _ (Clocked.new (by decide)) ht
  exact (hclock _ rfl).no_timeout rfl rfl rfl (throughout_last h rfl)

end TimedTask

end Robot.Base
