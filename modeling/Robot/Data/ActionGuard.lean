import Robot.Lib.Machine
import Robot.Lib.Mutex

/-!
# The action guard of a user

`data/impl/user.go` keeps a mutex `taskActionGuard` and next to it the id of the task that
has it, `takeActionGuardId`, with `0` for nobody. `TakeActionGuard` compares the id,
locks, then stores the id; `ReleaseActionGuard` swaps the id for `0`, then unlocks. Between
the two halves of either call the id says less than the mutex: it is `0` while the mutex
is locked.

The first part of this file is the guard with the atomic steps of the two calls, for any
caller (`Case/CaseGuard` uses it too). `OwnedBy g hold` says that mutex and id agree with
where the tasks stand (`Hold`: outside, in one of the two gaps, or in possession), and
`OwnedBy.does` that every statement of a guard call keeps it so.

The second part is a machine of `TaskActionUser` tasks (`data/action.go`) on one user.
`HookRun` takes the guard, runs `Fn`, gives the guard back. `Fn` is anybody's code: it may
`Yield` any number of times, and it may call the two guard functions itself, directly or
as `AfterYield` and `BeforeYield`, in any order. The result is `guard_is_owner_lock`.
-/

namespace Robot.Data

open Robot.Lib Function

/-! ## The guard -/

/-- `taskActionGuard` and `takeActionGuardId` of a user. `fault` is the runtime's
"unlock of unlocked mutex". -/
structure ActionGuard where
  locked : Bool
  takeActionGuardId : UInt64
  fault : Bool
  deriving DecidableEq

/-- Where a task is inside `TakeActionGuard` or `ReleaseActionGuard`. -/
inductive GuardPc where
  /-- `takeActionGuardId.Load() == taskId` -/
  | load
  /-- `taskActionGuard.Lock()` -/
  | lock
  /-- `takeActionGuardId.Store(taskId)` -/
  | store
  /-- `takeActionGuardId.CompareAndSwap(taskId, 0)` -/
  | cas
  /-- `taskActionGuard.Unlock()` -/
  | unlock
  deriving DecidableEq

/-- How a step of a guard call ends: at the next statement, or the call returns. -/
inductive GuardNext where
  | goto (pc : GuardPc)
  | return (err : Option String)
  deriving DecidableEq

/-- What a guard call is for. -/
inductive GuardCall where
  | take
  | release
  deriving DecidableEq

/-- The call a statement belongs to. -/
def GuardPc.call : GuardPc → GuardCall
  | .load | .lock | .store => .take
  | .cas | .unlock => .release

/-- The first statement of a guard call. -/
def GuardCall.entry : GuardCall → GuardPc
  | .take => .load
  | .release => .cas

namespace ActionGuard

/-- The guard of a new user. -/
def free : ActionGuard := { locked := false, takeActionGuardId := 0, fault := false }

/-- `IsTakenActionGuard`. -/
def isTakenActionGuard (g : ActionGuard) (taskId : UInt64) : Bool := g.takeActionGuardId == taskId

/-- One statement of `TakeActionGuard` or `ReleaseActionGuard`; `none` while it blocks. -/
def step (g : ActionGuard) (taskId : UInt64) : GuardPc → Option (ActionGuard × GuardNext)
  | .load =>
    if g.takeActionGuardId = taskId then some (g, .return (some "already taken action guard"))
    else some (g, .goto .lock)
  | .lock => if g.locked then none else some ({ g with locked := true }, .goto .store)
  | .store => some ({ g with takeActionGuardId := taskId }, .return none)
  | .cas =>
    if g.takeActionGuardId = taskId then some ({ g with takeActionGuardId := 0 }, .goto .unlock)
    else some (g, .return (some "action guard not taken by this task"))
  | .unlock =>
    -- an Unlock without a Lock ends the program
    if g.locked then some ({ g with locked := false }, .return none)
    else some ({ g with fault := true }, .return none)

/-- What one statement of a guard call can do, case by case. -/
inductive Does (g : ActionGuard) (taskId : UInt64) : GuardPc → ActionGuard → GuardNext → Prop
  | already (h : g.takeActionGuardId = taskId) :
    Does g taskId .load g (.return (some "already taken action guard"))
  | waits (h : g.takeActionGuardId ≠ taskId) : Does g taskId .load g (.goto .lock)
  | locks (h : g.locked = false) : Does g taskId .lock { g with locked := true } (.goto .store)
  | stores : Does g taskId .store { g with takeActionGuardId := taskId } (.return none)
  | clears (h : g.takeActionGuardId = taskId) :
    Does g taskId .cas { g with takeActionGuardId := 0 } (.goto .unlock)
  | refused (h : g.takeActionGuardId ≠ taskId) :
    Does g taskId .cas g (.return (some "action guard not taken by this task"))
  | unlocks (h : g.locked = true) :
    Does g taskId .unlock { g with locked := false } (.return none)
  | faults (h : g.locked = false) :
    Does g taskId .unlock { g with fault := true } (.return none)

theorem step_does {g g' : ActionGuard} {taskId : UInt64} {pc : GuardPc} {next : GuardNext}
    (h : g.step taskId pc = some (g', next)) : g.Does taskId pc g' next := by
  cases pc with simp only [step] at h
  | load =>
    split at h
    next hid =>
      cases h
      exact .already hid
    next hid =>
      cases h
      exact .waits hid
  | lock =>
    split at h
    next => cases h
    next hl =>
      cases h
      exact .locks (Bool.eq_false_iff.mpr hl)
  | store =>
    cases h
    exact .stores
  | cas =>
    split at h
    next hid =>
      cases h
      exact .clears hid
    next hid =>
      cases h
      exact .refused hid
  | unlock =>
    split at h
    next hl =>
      cases h
      exact .unlocks hl
    next hl =>
      cases h
      exact .faults (Bool.eq_false_iff.mpr hl)

end ActionGuard

/-! ## Who has the guard -/

/-- The id of a started task: `RunTaskAction` hands them out, none is `0`. Tasks are told
apart by their ids. -/
abbrev TaskId : Type := { taskId : UInt64 // taskId ≠ 0 }

/-- Where a task stands to the guard. -/
inductive Hold where
  | out
  /-- it has locked the mutex and not stored its id yet -/
  | storing
  | has
  /-- it has cleared the id and not unlocked the mutex yet -/
  | unlocking
  deriving DecidableEq

namespace Hold

/-- The task came by `Lock` and has not done `Unlock`. -/
def inside (h : Hold) : Bool := decide (h ≠ .out)

/-- A task that stands there may come to this statement. -/
def admits : Hold → GuardPc → Bool
  | .out, .load | .out, .lock | .out, .cas => true
  | .has, .load | .has, .cas => true
  | .storing, .store => true
  | .unlocking, .unlock => true
  | _, _ => false

/-- Where the task stands after the statement. -/
def next (h : Hold) : GuardPc → GuardNext → Hold
  | .lock, _ => .storing
  | .store, _ => .has
  | .cas, .goto _ => .unlocking
  | .unlock, _ => .out
  | _, _ => h

end Hold

namespace ActionGuard

/-- **The ownership invariant**: the mutex is held by the one task that is inside, the id is
that task's except in the two gaps, and no unlock has gone wrong. -/
structure OwnedBy (g : ActionGuard) (hold : TaskId → Hold) : Prop where
  mutex : Guarded Hold.inside g.locked hold
  id : ∀ t, g.takeActionGuardId = t.1 ↔ hold t = .has
  sound : g.fault = false

namespace OwnedBy

variable {g g' : ActionGuard} {hold : TaskId → Hold} {t : TaskId}

theorem init : free.OwnedBy fun _ => .out where
  mutex := Guarded.init rfl
  id t := ⟨fun h => absurd h.symm t.2, nofun⟩
  sound := rfl

/-- While a task is inside, every other one is out. -/
theorem other_out (h : g.OwnedBy hold) (ht : hold t ≠ .out) {t' : TaskId} (hne : t' ≠ t) :
    hold t' = .out := by
  by_contra hout
  exact hne (h.mutex.one t' t (decide_eq_true hout) (decide_eq_true ht))

/-- A new id `i` for a task that is inside: it has to be right for that task only. -/
theorem id_update (h : g.OwnedBy hold) (ht : hold t ≠ .out) {i : UInt64} {x : Hold}
    (hself : i = t.1 ↔ x = .has) (hother : ∀ t' ≠ t, i ≠ t'.1) :
    ∀ t', i = t'.1 ↔ update hold t x t' = .has := by
  intro t'
  by_cases hne : t' = t
  · subst hne
    rw [update_self]
    exact hself
  · rw [update_of_ne hne, h.other_out ht hne]
    exact ⟨fun he => absurd he (hother t' hne), nofun⟩

theorem lock (h : g.OwnedBy hold) (ht : hold t = .out) (hfree : g.locked = false) :
    ({ g with locked := true } : ActionGuard).OwnedBy (update hold t .storing) := by
  have hmutex := h.mutex
  rw [hfree] at hmutex
  refine ⟨hmutex.enter t, fun t' => ?_, h.sound⟩
  rw [h.id t']
  by_cases hne : t' = t
  · subst hne
    rw [update_self, ht]
    exact ⟨nofun, nofun⟩
  · rw [update_of_ne hne]

theorem store (h : g.OwnedBy hold) (ht : hold t = .storing) :
    ({ g with takeActionGuardId := t } : ActionGuard).OwnedBy (update hold t .has) where
  mutex := h.mutex.stay (by rw [ht]; rfl)
  id := h.id_update (by rw [ht]; nofun) ⟨fun _ => rfl, fun _ => rfl⟩
    fun _ hne he => hne (Subtype.ext he.symm)
  sound := h.sound

theorem clear (h : g.OwnedBy hold) (ht : hold t = .has) :
    ({ g with takeActionGuardId := 0 } : ActionGuard).OwnedBy
      (update hold t .unlocking) where
  mutex := h.mutex.stay (by rw [ht]; rfl)
  id := h.id_update (by rw [ht]; nofun) ⟨fun he => absurd he.symm t.2, nofun⟩
    fun t' _ he => t'.2 he.symm
  sound := h.sound

theorem unlock (h : g.OwnedBy hold) (ht : hold t = .unlocking) :
    ({ g with locked := false } : ActionGuard).OwnedBy (update hold t .out) := by
  have hin : hold t ≠ .out := by rw [ht]; nofun
  refine ⟨h.mutex.leave (decide_eq_true hin) rfl, fun t' => ?_, h.sound⟩
  rw [h.id t']
  by_cases hne : t' = t
  · subst hne
    rw [update_self, ht]
    exact ⟨nofun, nofun⟩
  · rw [update_of_ne hne]

/-- **Every statement of a guard call keeps the ownership.** -/
theorem does (h : g.OwnedBy hold) {pc : GuardPc} {nx : GuardNext} (hdo : g.Does t pc g' nx)
    (hat : (hold t).admits pc = true) :
    g'.OwnedBy (update hold t ((hold t).next pc nx)) := by
  cases hdo with
  | already _ | waits _ | refused _ =>
    simp only [Hold.next, update_eq_self]
    exact h
  | locks hfree =>
    refine h.lock ?_ hfree
    cases ht : hold t with
    | out => rfl
    | storing | has | unlocking => simp [ht, Hold.admits] at hat
  | stores =>
    refine h.store ?_
    cases ht : hold t with
    | storing => rfl
    | out | has | unlocking => simp [ht, Hold.admits] at hat
  | clears hown => exact h.clear ((h.id t).mp hown)
  | unlocks _ =>
    refine h.unlock ?_
    cases ht : hold t with
    | unlocking => rfl
    | out | storing | has => simp [ht, Hold.admits] at hat
  | faults hfree =>
    -- a task at its Unlock is inside, so the mutex is locked
    have hout : hold t = .out := by
      have hin := h.mutex.free hfree t
      simpa [Hold.inside] using hin
    simp [hout, Hold.admits] at hat

end OwnedBy

end ActionGuard

/-! ## `TaskActionUser` tasks on one user -/

/-- What called the guard. -/
inductive UserSite where
  /-- `HookRun`, before `Fn` -/
  | hookTake
  /-- `HookRun`, after `Fn` returned `err` -/
  | hookRelease (err : Option String)
  /-- `BeforeYield` inside `Yield` -/
  | beforeYield
  /-- `AfterYield` inside `Yield` -/
  | afterYield
  /-- `Fn` itself, also through `BeforeYield` or `AfterYield` -/
  | fn
  deriving DecidableEq

/-- Which of the two guard calls a site makes. -/
def UserSite.makes : UserSite → GuardCall → Bool
  | .hookTake, .take | .afterYield, .take => true
  | .hookRelease _, .release | .beforeYield, .release => true
  | .fn, _ => true
  | _, _ => false

/-- Where a `TaskActionUser` is. -/
inductive UserPc where
  | idle
  /-- inside a guard call -/
  | guard (pc : GuardPc) (site : UserSite)
  /-- in `Fn`, outside of guard calls and of `Yield` -/
  | fn
  /-- at `<-t.AwaitChannel` of `Yield` -/
  | waiting
  /-- `HookRun` has returned -/
  | ended (err : Option String)
  deriving DecidableEq

/-- A task: where it is, and whether it is between a take that returned nil and the release
that returns nil. No step looks at `taken`. -/
structure UserTask where
  pc : UserPc
  taken : Bool
  deriving DecidableEq

structure GuardState where
  user : ActionGuard
  tasks : TaskId → UserTask

inductive GuardAct where
  /-- `HookRun` is called -/
  | hookRun (t : TaskId)
  /-- the next statement of the guard call `t` is in -/
  | guard (t : TaskId)
  /-- `Fn` calls the guard itself -/
  | fnCall (t : TaskId) (call : GuardCall)
  /-- `Fn` calls `Yield`; `err` is what the kill and channel tests at its head return -/
  | yield (t : TaskId) (err : Option String)
  /-- something arrives in `AwaitChannel` -/
  | resume (t : TaskId)
  /-- `Fn` returns -/
  | fnReturn (t : TaskId) (err : Option String)

namespace UserTask

/-- Where a task goes on once its guard call has returned `err`. -/
def after (site : UserSite) (err : Option String) : UserPc :=
  match site with
  | .hookTake => if err.isSome then .ended err else .fn
  -- after a failed Fn the error of the release is dropped
  | .hookRelease fnErr => .ended (if fnErr.isSome then fnErr else err)
  | .beforeYield => if err.isSome then .fn else .waiting
  | .afterYield => .fn
  | .fn => .fn

/-- The task after one statement of its guard call. -/
def advance (x : UserTask) (pc : GuardPc) (site : UserSite) (next : GuardNext) : UserTask :=
  match next with
  | .goto pc' => { x with pc := .guard pc' site }
  | .return err =>
    { pc := after site err
      taken := if err.isSome then x.taken else decide (pc.call = .take) }

end UserTask

namespace GuardState

def setTask (s : GuardState) (t : TaskId) (x : UserTask) : GuardState :=
  { s with tasks := update s.tasks t x }

/-- One step of one task. -/
def step (s : GuardState) : GuardAct → Option GuardState
  | .hookRun t =>
    if (s.tasks t).pc = .idle then
      some (s.setTask t { s.tasks t with pc := .guard GuardCall.take.entry .hookTake })
    else none
  | .guard t =>
    match (s.tasks t).pc with
    | .guard pc site =>
      match s.user.step t pc with
      | none => none
      | some (g, next) =>
        some { user := g, tasks := update s.tasks t ((s.tasks t).advance pc site next) }
    | _ => none
  | .fnCall t call =>
    if (s.tasks t).pc = .fn then
      some (s.setTask t { s.tasks t with pc := .guard call.entry .fn })
    else none
  | .yield t err =>
    if (s.tasks t).pc = .fn then
      -- a failed test, or a task without the guard, makes Yield return at once
      if err.isSome ∨ s.user.isTakenActionGuard t = false then some s
      else some (s.setTask t { s.tasks t with pc := .guard GuardCall.release.entry .beforeYield })
    else none
  | .resume t =>
    if (s.tasks t).pc = .waiting then
      some (s.setTask t { s.tasks t with pc := .guard GuardCall.take.entry .afterYield })
    else none
  | .fnReturn t err =>
    if (s.tasks t).pc = .fn then
      some (s.setTask t { s.tasks t with pc := .guard GuardCall.release.entry (.hookRelease err) })
    else none

/-- A user nobody has run a task on. -/
def init : GuardState := { user := .free, tasks := fun _ => ⟨.idle, false⟩ }

/-- What one step can do: `Yield` returns at once, a guard call begins, or a guard call goes
on. Only a task that has not begun enters the guard from the head of `HookRun`. -/
theorem step_cases {s s' : GuardState} {a : GuardAct} (h : s.step a = some s') :
    s' = s ∨
    (∃ t call site, s' = s.setTask t { s.tasks t with pc := .guard (GuardCall.entry call) site } ∧
      site.makes call = true ∧ ((s.tasks t).pc = .idle ∨
        (site ≠ .hookTake ∧ ((s.tasks t).pc = .fn ∨ (s.tasks t).pc = .waiting)))) ∨
    ∃ t pc site g next, (s.tasks t).pc = .guard pc site ∧ s.user.Does t pc g next ∧
      s' = { user := g, tasks := update s.tasks t ((s.tasks t).advance pc site next) } := by
  cases a with simp only [step] at h
  | hookRun t =>
    split at h
    next hpc =>
      cases h
      exact .inr (.inl ⟨t, .take, .hookTake, rfl, rfl, .inl hpc⟩)
    next => cases h
  | guard t =>
    split at h
    next pc site hpc =>
      split at h
      next => cases h
      next g next hg =>
        cases h
        exact .inr (.inr ⟨t, pc, site, g, next, hpc, ActionGuard.step_does hg, rfl⟩)
    next => cases h
  | fnCall t call =>
    split at h
    next hpc =>
      cases h
      exact .inr (.inl ⟨t, call, .fn, rfl, rfl, .inr ⟨nofun, .inl hpc⟩⟩)
    next => cases h
  | yield t err =>
    split at h
    next hpc =>
      split at h
      next =>
        cases h
        exact .inl rfl
      next =>
        cases h
        exact .inr (.inl ⟨t, .release, .beforeYield, rfl, rfl, .inr ⟨nofun, .inl hpc⟩⟩)
    next => cases h
  | resume t =>
    split at h
    next hpc =>
      cases h
      exact .inr (.inl ⟨t, .take, .afterYield, rfl, rfl, .inr ⟨nofun, .inr hpc⟩⟩)
    next => cases h
  | fnReturn t err =>
    split at h
    next hpc =>
      cases h
      exact .inr (.inl ⟨t, .release, .hookRelease err, rfl, rfl, .inr ⟨nofun, .inl hpc⟩⟩)
    next => cases h

end GuardState

/-! ## The guard over whole runs -/

namespace UserTask

/-- Where the task stands to the guard: the program point tells the gaps, the calls so far
tell the rest. -/
def hold (x : UserTask) : Hold :=
  match x.pc with
  | .guard .store _ => .storing
  | .guard .unlock _ => .unlocking
  | _ => if x.taken then .has else .out

/-- What the program point says about the calls made so far. -/
def fits (x : UserTask) : Bool :=
  match x.pc with
  | .idle | .ended _ => !x.taken
  | .guard pc site =>
    site.makes pc.call && x.hold.admits pc && (decide (site ≠ .hookTake ∨ pc ≠ .load) || !x.taken)
  | .fn | .waiting => true

/-- A task whose guard call has returned has left the gaps. -/
theorem hold_after (site : UserSite) (err : Option String) (tk : Bool) :
    (⟨after site err, tk⟩ : UserTask).hold = if tk then .has else .out := by
  cases site <;> cases err <;> rfl

/-- Without the guard a task may be anywhere its call returns to; with the guard it may not
end. -/
theorem fits_after {site : UserSite} {err : Option String} {tk : Bool}
    (h : tk = true → site.makes .take = true ∧ (site = .hookTake → err = none)) :
    (⟨after site err, tk⟩ : UserTask).fits = true := by
  cases tk with
  | false => cases site <;> cases err <;> rfl
  | true =>
    obtain ⟨htake, hhook⟩ := h rfl
    cases site with
    | hookTake =>
      rw [hhook rfl]
      rfl
    | hookRelease e => cases htake
    | beforeYield => cases htake
    | afterYield | fn => rfl

/-- Past the first statement, only where the task stands matters. -/
theorem fits_goto {x : UserTask} {pc : GuardPc} {site : UserSite} (hx : x.pc = .guard pc site)
    (hmakes : site.makes pc.call = true) (hadmits : x.hold.admits pc = true) (hpc : pc ≠ .load) :
    x.fits = true := by
  simp only [fits, hx, hmakes, hadmits, hpc, ne_eq, not_false_eq_true, or_true, decide_true,
    Bool.true_or, Bool.and_self]

/-- A statement of a guard call moves the task as `Hold.next` says. -/
theorem hold_advance {x : UserTask} {pc : GuardPc} {site : UserSite} {g g' : ActionGuard}
    {t : UInt64} {nx : GuardNext} (hpc : x.pc = .guard pc site) (hdo : g.Does t pc g' nx) :
    (x.advance pc site nx).hold = x.hold.next pc nx := by
  obtain ⟨p, tk⟩ := x
  subst hpc
  cases hdo with
  | waits _ | locks _ | clears _ => rfl
  | already _ | refused _ => exact hold_after site _ tk
  | stores => exact hold_after site none true
  | unlocks _ | faults _ => exact hold_after site none false

end UserTask

/-- Mutex and id agree with where the tasks stand, and so do the tasks' program points. -/
structure Owned (s : GuardState) : Prop where
  guard : s.user.OwnedBy (UserTask.hold ∘ s.tasks)
  fits : ∀ t, (s.tasks t).fits = true

theorem owned_init : Owned .init where
  guard := ActionGuard.OwnedBy.init
  fits _ := rfl

namespace Owned

variable {s : GuardState} {t : TaskId}

/-- Task `t` moves, and the guard with it. -/
theorem move (h : Owned s) {g : ActionGuard} {x : UserTask}
    (hguard : g.OwnedBy (update (UserTask.hold ∘ s.tasks) t x.hold))
    (hfits : x.fits = true) : Owned { user := g, tasks := update s.tasks t x } where
  guard := by
    rw [← comp_update] at hguard
    exact hguard
  fits := forall_update_iff s.tasks (fun _ x => x.fits = true) |>.mpr
    ⟨hfits, fun t' _ => h.fits t'⟩

/-- A guard call begins. -/
theorem begin_call (h : Owned s) {call : GuardCall} {site : UserSite}
    (hmakes : site.makes call = true) (hpc : (s.tasks t).pc = .idle ∨
      (site ≠ .hookTake ∧ ((s.tasks t).pc = .fn ∨ (s.tasks t).pc = .waiting))) :
    Owned (s.setTask t { s.tasks t with pc := .guard call.entry site }) := by
  have hfits := h.fits t
  have hhold : ({ s.tasks t with pc := .guard call.entry site } : UserTask).hold
      = (s.tasks t).hold := by
    rcases hpc with hpc | ⟨-, hpc | hpc⟩ <;> cases call <;>
      simp [UserTask.hold, GuardCall.entry, hpc]
  refine h.move ?_ ?_
  · rw [hhold]
    exact (update_eq_self t (UserTask.hold ∘ s.tasks)).symm ▸ h.guard
  · have hadmits : (s.tasks t).hold.admits call.entry = true := by
      rcases hpc with hpc | ⟨-, hpc | hpc⟩ <;> cases call <;> cases htk : (s.tasks t).taken <;>
        simp [UserTask.hold, GuardCall.entry, Hold.admits, hpc, htk]
    have hcall : call.entry.call = call := by cases call <;> rfl
    simp only [UserTask.fits, hhold, hcall, hmakes, hadmits, Bool.true_and]
    rcases hpc with hpc | ⟨hsite, -⟩
    · -- the first call of a run: nothing has been taken yet
      have htaken : (s.tasks t).taken = false := by simpa [UserTask.fits, hpc] using hfits
      simp [htaken]
    · simp [hsite]

/-- A guard call goes on. -/
theorem go_on (h : Owned s) {pc : GuardPc} {site : UserSite} {g : ActionGuard} {nx : GuardNext}
    (hpc : (s.tasks t).pc = .guard pc site) (hdo : s.user.Does t pc g nx) :
    Owned { user := g, tasks := update s.tasks t ((s.tasks t).advance pc site nx) } := by
  have hfits := h.fits t
  simp only [UserTask.fits, hpc, Bool.and_eq_true] at hfits
  obtain ⟨⟨hmakes, hadmits⟩, hbegin⟩ := hfits
  have hguard := h.guard.does hdo hadmits
  have hhold := UserTask.hold_advance hpc hdo
  refine h.move (hhold ▸ hguard) ?_
  -- the statement leaves the task where it may stand as it does
  cases hdo with
  | already hown =>
    refine UserTask.fits_after fun htaken => ⟨hmakes, fun hsite => ?_⟩
    -- a run that has just begun does not have the guard
    rw [hsite] at hbegin
    have hnot : (s.tasks t).taken = false := by simpa using hbegin
    have htk : (s.tasks t).taken = true := htaken
    rw [hnot] at htk
    cases htk
  | waits hown =>
    have hhas : (s.tasks t).hold ≠ .has := fun hhas => hown ((h.guard.id t).mpr hhas)
    refine UserTask.fits_goto rfl hmakes ?_ nofun
    rw [hhold]
    cases hat : (s.tasks t).hold with
    | out => rfl
    | has => exact absurd hat hhas
    | storing | unlocking => simp [hat, Hold.admits] at hadmits
  | locks _ =>
    refine UserTask.fits_goto rfl hmakes ?_ nofun
    rw [hhold]
    rfl
  | clears _ =>
    refine UserTask.fits_goto rfl hmakes ?_ nofun
    rw [hhold]
    rfl
  | stores => exact UserTask.fits_after fun _ => ⟨hmakes, fun _ => rfl⟩
  | refused hown =>
    refine UserTask.fits_after fun htaken => absurd ((h.guard.id t).mpr ?_) hown
    have htk : (s.tasks t).taken = true := htaken
    simp [UserTask.hold, hpc, htk]
  | unlocks _ | faults _ => exact UserTask.fits_after nofun

/-- **One step keeps the ownership.** -/
theorem step {a : GuardAct} {s' : GuardState} (h : Owned s) (hs : s.step a = some s') :
    Owned s' := by
  rcases GuardState.step_cases hs with rfl | ⟨t, call, site, rfl, hmakes, hpc⟩ |
    ⟨t, pc, site, g, next, hpc, hdo, rfl⟩
  · exact h
  · exact h.begin_call hmakes hpc
  · exact h.go_on hpc hdo

/-- A task that has the guard is not out. -/
theorem not_out {x : UserTask} (hx : x.taken = true) : x.hold ≠ .out := by
  unfold UserTask.hold
  rw [hx]
  split <;> nofun

/-- A task that does not have the guard is refused when it releases it. -/
theorem release_refused (h : Owned s) {site : UserSite} (hpc : (s.tasks t).pc = .guard .cas site)
    (htaken : (s.tasks t).taken = false) :
    s.step (.guard t) = some (s.setTask t
      ⟨UserTask.after site (some "action guard not taken by this task"), false⟩) := by
  have hown : s.user.takeActionGuardId ≠ t.1 := by
    intro he
    have hhas : (s.tasks t).hold = .has := (h.guard.id t).mp he
    simp [UserTask.hold, hpc, htaken] at hhas
  simp only [GuardState.step, hpc, ActionGuard.step, if_neg hown, UserTask.advance,
    Option.isSome_some, if_true, htaken, GuardState.setTask]

/-- A task whose run is over does not have the guard. -/
theorem ended_free (h : Owned s) {err : Option String} (hpc : (s.tasks t).pc = .ended err) :
    (s.tasks t).taken = false ∧ s.user.takeActionGuardId ≠ t.1 := by
  have htaken : (s.tasks t).taken = false := by
    simpa [UserTask.fits, hpc] using h.fits t
  refine ⟨htaken, fun he => ?_⟩
  have hhas : (s.tasks t).hold = .has := (h.guard.id t).mp he
  simp [UserTask.hold, hpc, htaken] at hhas

end Owned

/-- What an owner lock promises, of one state. A task has the guard while it is between a take
and a release that both returned nil (`taken`). -/
structure OwnerLock (s : GuardState) : Prop where
  /-- at most one task has the guard -/
  alone : ∀ t t', (s.tasks t).taken = true → (s.tasks t').taken = true → t = t'
  /-- a release by a task that does not have it returns an error and changes nothing but
  where that task is -/
  refused : ∀ t site, (s.tasks t).pc = .guard .cas site → (s.tasks t).taken = false →
    s.step (.guard t) = some (s.setTask t
      ⟨UserTask.after site (some "action guard not taken by this task"), false⟩)
  /-- the mutex has never been unlocked while unlocked -/
  sound : s.user.fault = false
  /-- a run that has ended, with whatever error, does not have the guard, nor is its id in it -/
  freed : ∀ t err, (s.tasks t).pc = .ended err →
    (s.tasks t).taken = false ∧ s.user.takeActionGuardId ≠ t.1

theorem Owned.ownerLock {s : GuardState} (h : Owned s) : OwnerLock s where
  alone t t' ht ht' :=
    h.guard.mutex.one t t' (decide_eq_true (not_out ht)) (decide_eq_true (not_out ht'))
  refused _ _ hpc htaken := h.release_refused hpc htaken
  sound := h.guard.sound
  freed _ _ hpc := h.ended_free hpc

/-- **The action guard is an owner lock**, in every state of every interleaving of any set of
`TaskActionUser` tasks on one user, whatever their `Fn` do. -/
theorem guard_is_owner_lock (as : List GuardAct) :
    Throughout GuardState.step OwnerLock .init as :=
  throughout_of_inv (P := fun _ _ => True) (fun _ h => h.ownerLock)
    (fun _ _ _ h _ hs => h.step hs) as owned_init (along_trivial as _)

end Robot.Data
