import Robot.Data.ActionGuard

/-!
# Case tasks on one user: who acts

`case/action.go` runs several `TaskActionCase` on one `UserHolder`. `HookRun`, `BeforeYield`
and `AfterYield` use the guard of the user that is in the holder *at that moment*, and do
nothing while there is none; `InitUserOnRunning` puts a user into the holder from inside
`Fn` and takes that user's guard. So which guard a run takes, which it gives back, and
whether it takes one at all depends on what other runs do to the holder.

A run is acting while it is in `Fn` outside of `Yield`, which includes the time it spends in
`InitUserOnRunning`. The documented model is that one run acts at a time. It holds
(`case_tasks_take_turns`) as long as a run begins only when the holder has its user, or when
no other run is under way, and the user is put in once. Two bundles carry the proof:

* `Alone`: there is no user yet. No guard has been touched, and at most one run is under way.
* `Shared u`: `u` is the user. The guard of `u` agrees with where the runs are
  (`ActionGuard.OwnedBy`), and a run that is still attaching the user is the only one
  under way.
-/

namespace Robot.Case

open Robot.Lib Function Robot.Data

/-- What needs the user. -/
inductive CaseSite where
  /-- `HookRun`, before `Fn` -/
  | hookTake
  /-- `HookRun`, after `Fn` returned `err` -/
  | hookRelease (err : Option String)
  /-- `InitUserOnRunning`, after `InitUser` -/
  | initUser
  /-- `IsTakenActionGuard` inside `Yield` -/
  | isTaken
  /-- `BeforeYield` inside `Yield` -/
  | beforeYield
  /-- `AfterYield` inside `Yield` -/
  | afterYield
  deriving DecidableEq

/-- Where a `TaskActionCase` is. -/
inductive CasePc where
  | idle
  /-- `lu.IsNil(t.UserHolder.GetUser())` -/
  | check (site : CaseSite)
  /-- the second `GetUser`, whose result the call is made on -/
  | user (site : CaseSite)
  /-- inside a guard call on user `u` -/
  | guard (u : Nat) (pc : GuardPc) (site : CaseSite)
  /-- in `Fn`, outside of `Yield` and of `InitUserOnRunning` -/
  | fn
  /-- at `<-t.AwaitChannel` of `Yield` -/
  | waiting
  /-- `HookRun` has returned -/
  | ended (err : Option String)
  deriving DecidableEq

/-- A run: where it is, and the users whose guard it has taken and not given back. No step
looks at `taken`. -/
structure HolderRun where
  pc : CasePc
  taken : Nat → Bool

/-- A `UserHolder` with the runs on it, and the guards of all users. -/
structure HolderState where
  holder : Option Nat
  users : Nat → ActionGuard
  runs : TaskId → HolderRun

inductive HolderAct where
  /-- `HookRun` is called -/
  | hookRun (r : TaskId)
  | check (r : TaskId)
  | user (r : TaskId)
  /-- the next statement of the guard call `r` is in -/
  | guard (r : TaskId)
  /-- `Fn` calls `InitUserOnRunning(u)`; this step is `InitUser` -/
  | initUserOnRunning (r : TaskId) (u : Nat)
  /-- `Fn` calls `Yield`; `err` is what the kill and channel tests at its head return -/
  | yield (r : TaskId) (err : Option String)
  /-- something arrives in `AwaitChannel` -/
  | resume (r : TaskId)
  /-- `Fn` returns -/
  | fnReturn (r : TaskId) (err : Option String)

/-- The guard call of a site; the test of `Yield` is none. -/
def CaseSite.call : CaseSite → Option GuardCall
  | .hookTake | .initUser | .afterYield => some .take
  | .hookRelease _ | .beforeYield => some .release
  | .isTaken => none

namespace HolderRun

/-- Where a run goes on once its guard call has returned `err`, or without a user. -/
def after (site : CaseSite) (err : Option String) : CasePc :=
  match site with
  | .hookTake => if err.isSome then .ended err else .fn
  -- the error of the release comes before the one of Fn
  | .hookRelease fnErr => .ended (if err.isSome then err else fnErr)
  | .initUser => .fn
  | .isTaken => .check .beforeYield
  | .beforeYield => if err.isSome then .fn else .waiting
  | .afterYield => .fn

/-- The run after one statement of its guard call on `u`. -/
def advance (x : HolderRun) (u : Nat) (pc : GuardPc) (site : CaseSite) (next : GuardNext) :
    HolderRun :=
  match next with
  | .goto pc' => { x with pc := .guard u pc' site }
  | .return err =>
    { pc := after site err
      taken := if err.isSome then x.taken else update x.taken u (decide (pc.call = .take)) }

end HolderRun

namespace HolderState

def setRun (s : HolderState) (r : TaskId) (x : HolderRun) : HolderState :=
  { s with runs := update s.runs r x }

/-- The run moves on, nothing else happens. -/
def goto (s : HolderState) (r : TaskId) (pc : CasePc) : HolderState :=
  s.setRun r { s.runs r with pc := pc }

/-- One step of one run. -/
def step (s : HolderState) : HolderAct → Option HolderState
  | .hookRun r => if (s.runs r).pc = .idle then some (s.goto r (.check .hookTake)) else none
  | .check r =>
    match (s.runs r).pc with
    | .check site =>
      match s.holder with
      | none => some (s.goto r (HolderRun.after site none))
      | some _ => some (s.goto r (.user site))
    | _ => none
  | .user r =>
    match (s.runs r).pc, s.holder with
    | .user site, some u =>
      match site.call with
      | some call => some (s.goto r (.guard u call.entry site))
      | none =>
        if (s.users u).isTakenActionGuard r then some (s.goto r (HolderRun.after site none))
        else some (s.goto r .fn)
    | _, _ => none
  | .guard r =>
    match (s.runs r).pc with
    | .guard u pc site =>
      match (s.users u).step r pc with
      | none => none
      | some (g, next) =>
        some { s with
          users := update s.users u g
          runs := update s.runs r ((s.runs r).advance u pc site next) }
    | _ => none
  | .initUserOnRunning r u =>
    if (s.runs r).pc = .fn then some { s.goto r (.user .initUser) with holder := some u }
    else none
  | .yield r err =>
    if (s.runs r).pc = .fn then
      if err.isSome then some s else some (s.goto r (.check .isTaken))
    else none
  | .resume r =>
    if (s.runs r).pc = .waiting then some (s.goto r (.check .afterYield)) else none
  | .fnReturn r err =>
    if (s.runs r).pc = .fn then some (s.goto r (.check (.hookRelease err))) else none

/-- A holder with or without a user, before any run on it. -/
def init (holder : Option Nat) : HolderState :=
  { holder := holder, users := fun _ => .free, runs := fun _ => ⟨.idle, fun _ => false⟩ }

/-- How a run can move without touching a guard or the holder: from where, to where. -/
inductive Moves (s : HolderState) (r : TaskId) : CasePc → CasePc → Prop
  | absent {site : CaseSite} (h : s.holder = none) :
    Moves s r (.check site) (HolderRun.after site none)
  | present {site : CaseSite} {u : Nat} (h : s.holder = some u) : Moves s r (.check site) (.user site)
  | calls {site : CaseSite} {call : GuardCall} {u : Nat} (h : s.holder = some u)
      (hc : site.call = some call) : Moves s r (.user site) (.guard u call.entry site)
  | tests {u : Nat} (h : s.holder = some u) (ht : (s.users u).takeActionGuardId = r.1) :
    Moves s r (.user .isTaken) (.check .beforeYield)
  | untaken {u : Nat} (h : s.holder = some u) (ht : (s.users u).takeActionGuardId ≠ r.1) :
    Moves s r (.user .isTaken) .fn
  | yields : Moves s r .fn (.check .isTaken)
  | resumes : Moves s r .waiting (.check .afterYield)
  | returns (err : Option String) : Moves s r .fn (.check (.hookRelease err))

/-- What one step can do, case by case. -/
inductive Does (s : HolderState) : HolderAct → HolderState → Prop
  | begins {r : TaskId} (h : (s.runs r).pc = .idle) :
    Does s (.hookRun r) (s.goto r (.check .hookTake))
  | stays (a : HolderAct) : Does s a s
  | moves (a : HolderAct) {r : TaskId} {pc : CasePc} (h : s.Moves r (s.runs r).pc pc) :
    Does s a (s.goto r pc)
  | guards (a : HolderAct) {r : TaskId} {u : Nat} {pc : GuardPc} {site : CaseSite}
      {g : ActionGuard} {next : GuardNext} (h : (s.runs r).pc = .guard u pc site)
      (hdo : (s.users u).Does r pc g next) :
    Does s a { s with
      users := update s.users u g
      runs := update s.runs r ((s.runs r).advance u pc site next) }
  | attaches {r : TaskId} (u : Nat) (h : (s.runs r).pc = .fn) :
    Does s (.initUserOnRunning r u) { s.goto r (.user .initUser) with holder := some u }

theorem step_does {s s' : HolderState} {a : HolderAct} (h : s.step a = some s') : s.Does a s' := by
  cases a with simp only [step] at h
  | hookRun r =>
    split at h
    next hpc =>
      cases h
      exact .begins hpc
    next => cases h
  | check r =>
    split at h
    next site hpc =>
      split at h
      next hh =>
        cases h
        exact .moves _ (hpc ▸ .absent hh)
      next u hh =>
        cases h
        exact .moves _ (hpc ▸ .present hh)
    next => cases h
  | user r =>
    split at h
    next site u hpc hh =>
      split at h
      next call hc =>
        cases h
        exact .moves _ (hpc ▸ .calls hh hc)
      next hc =>
        have hsite : site = .isTaken := by
          cases site <;> first | rfl | cases hc
        subst hsite
        split at h
        next ht =>
          cases h
          exact .moves _ (hpc ▸ .tests hh (by simpa [ActionGuard.isTakenActionGuard] using ht))
        next ht =>
          cases h
          exact .moves _ (hpc ▸ .untaken hh (by simpa [ActionGuard.isTakenActionGuard] using ht))
    next => cases h
  | guard r =>
    split at h
    next u pc site hpc =>
      split at h
      next => cases h
      next g next hg =>
        cases h
        exact .guards _ hpc (ActionGuard.step_does hg)
    next => cases h
  | initUserOnRunning r u =>
    split at h
    next hpc =>
      cases h
      exact .attaches u hpc
    next => cases h
  | yield r err =>
    split at h
    next hpc =>
      split at h
      next =>
        cases h
        exact .stays _
      next =>
        cases h
        exact .moves _ (hpc ▸ .yields)
    next => cases h
  | resume r =>
    split at h
    next hpc =>
      cases h
      exact .moves _ (hpc ▸ .resumes)
    next => cases h
  | fnReturn r err =>
    split at h
    next hpc =>
      cases h
      exact .moves _ (hpc ▸ .returns err)
    next => cases h

end HolderState

/-! ## The documented model, and when it holds -/

namespace CasePc

/-- The run has begun and not ended. -/
def underWay : CasePc → Bool
  | .idle | .ended _ => false
  | _ => true

/-- The run is in `InitUserOnRunning`. -/
def attaching : CasePc → Bool
  | .check .initUser | .user .initUser | .guard _ _ .initUser => true
  | _ => false

/-- The run is executing `Fn` outside of `Yield`. -/
def acting (pc : CasePc) : Bool := decide (pc = .fn) || pc.attaching

end CasePc

/-- One run acts at a time, and a run that has ended has given back every guard it took. -/
structure TakesTurns (s : HolderState) : Prop where
  alone : ∀ r r', (s.runs r).pc.acting = true → (s.runs r').pc.acting = true → r = r'
  released : ∀ r err, (s.runs r).pc = .ended err → ∀ u, (s.runs r).taken u = false

/-- A run begins when no other is under way, or when the holder has its user and nobody is
still attaching it; a user is put into the holder only while it is empty. -/
def UserFirst (s : HolderState) : HolderAct → Prop
  | .hookRun _ => (∀ r, (s.runs r).pc.underWay = false) ∨
      (s.holder ≠ none ∧ ∀ r, (s.runs r).pc.attaching = false)
  | .initUserOnRunning _ _ => s.holder = none
  | _ => True

/-! ## Before there is a user -/

namespace CasePc

/-- The program points of a run that has not met a user. -/
def userless : CasePc → Bool
  | .user _ | .guard _ _ _ | .check .initUser => false
  | _ => true

theorem userless_after {site : CaseSite} (err : Option String) :
    (HolderRun.after site err).userless = true := by
  cases site <;> cases err <;> rfl

/-- A run without a user is acting only if it is in `Fn`, and under way then. -/
theorem underWay_of_acting {pc : CasePc} (h : pc.acting = true) : pc.underWay = true := by
  cases pc <;> simp_all [acting, attaching, underWay]

end CasePc

/-- There is no user yet: no guard has been touched, and at most one run is under way. -/
structure Alone (s : HolderState) : Prop where
  holder : s.holder = none
  users : ∀ u, s.users u = .free
  taken : ∀ r u, (s.runs r).taken u = false
  userless : ∀ r, (s.runs r).pc.userless = true
  one : ∀ r r', (s.runs r).pc.underWay = true → (s.runs r').pc.underWay = true → r = r'

namespace Alone

variable {s : HolderState} {r : TaskId}

theorem takesTurns (h : Alone s) : TakesTurns s where
  alone r r' hr hr' := h.one r r' (CasePc.underWay_of_acting hr) (CasePc.underWay_of_acting hr')
  released r _ _ u := h.taken r u

/-- A run moves; it was under way before, or now it is the only one. -/
theorem goto (h : Alone s) {pc : CasePc} (hpc : pc.userless = true)
    (hway : (s.runs r).pc.underWay = true ∨ ∀ r', (s.runs r').pc.underWay = false) :
    Alone (s.goto r pc) := by
  -- nobody else is under way
  have hother : ∀ r', r' ≠ r → (s.runs r').pc.underWay = false := by
    intro r' hne
    rcases hway with hr | hnone
    · cases hw : (s.runs r').pc.underWay with
      | false => rfl
      | true => exact absurd (h.one r' r hw hr) hne
    · exact hnone r'
  have hruns : ∀ r', r' ≠ r → (s.goto r pc).runs r' = s.runs r' :=
    fun r' hne => update_of_ne hne ..
  have hself : (s.goto r pc).runs r = { s.runs r with pc := pc } := update_self ..
  refine ⟨h.holder, h.users, fun r' u => ?_, fun r' => ?_, fun r₁ r₂ h₁ h₂ => ?_⟩
  · by_cases hne : r' = r
    · rw [hne, hself]
      exact h.taken r u
    · rw [hruns r' hne]
      exact h.taken r' u
  · by_cases hne : r' = r
    · rw [hne, hself]
      exact hpc
    · rw [hruns r' hne]
      exact h.userless r'
  · have honly : ∀ r', ((s.goto r pc).runs r').pc.underWay = true → r' = r := by
      intro r' hw
      by_contra hne
      rw [hruns r' hne, hother r' hne] at hw
      cases hw
    rw [honly r₁ h₁, honly r₂ h₂]

end Alone

/-! ## With a user -/

/-- Where a site stands to the guard before its call. -/
def CaseSite.hold : CaseSite → Hold
  | .hookTake | .initUser | .afterYield => .out
  | .hookRelease _ | .isTaken | .beforeYield => .has

/-- Where a run with a user stands to the guard, by its program point alone. -/
def CasePc.hold : CasePc → Hold
  | .check site | .user site => site.hold
  | .guard _ .load _ | .guard _ .lock _ => .out
  | .guard _ .store _ => .storing
  | .guard _ .cas _ => .has
  | .guard _ .unlock _ => .unlocking
  | .fn => .has
  | .idle | .waiting | .ended _ => .out

/-- What a run with user `u` looks like: its guard calls are on `u` and of the kind its site
makes, and it has taken no other guard, and that one only where `hold` says so. -/
structure HolderRun.Fits (u : Nat) (x : HolderRun) : Prop where
  call : ∀ v pc site, x.pc = .guard v pc site → v = u ∧ site.call = some pc.call
  taken : ∀ v, x.taken v = true → v = u ∧ x.pc.hold ≠ .out

/-- `u` is the user of the holder. -/
structure Shared (u : Nat) (s : HolderState) : Prop where
  holder : s.holder = some u
  guard : (s.users u).OwnedBy fun r => (s.runs r).pc.hold
  fits : ∀ r, (s.runs r).Fits u
  sole : ∀ r r', (s.runs r).pc.attaching = true → (s.runs r').pc.underWay = true → r' = r

namespace Shared

variable {s : HolderState} {r : TaskId} {u : Nat}

theorem takesTurns (h : Shared u s) : TakesTurns s where
  alone r r' hr hr' := by
    have hway := CasePc.underWay_of_acting hr
    have hway' := CasePc.underWay_of_acting hr'
    simp only [CasePc.acting, Bool.or_eq_true, decide_eq_true_eq] at hr hr'
    rcases hr with hr | hr
    · rcases hr' with hr' | hr'
      · -- both are in Fn, so both have the guard
        refine h.guard.mutex.one r r' ?_ ?_
        · simp only [hr]
          rfl
        · simp only [hr']
          rfl
      · exact h.sole r' r hr' hway
    · exact (h.sole r r' hr hway').symm
  released r err hpc v := by
    cases htk : (s.runs r).taken v with
    | false => rfl
    | true =>
      have hout := ((h.fits r).taken v htk).2
      rw [hpc] at hout
      exact absurd rfl hout

variable {g : ActionGuard} {pc : GuardPc} {site : CaseSite}

/-- Run `r` becomes `x`, and the guard of the user `g`. A run that is new under way finds
nobody attaching. -/
theorem set (h : Shared u s) {x : HolderRun}
    (hguard : g.OwnedBy (update (fun r => (s.runs r).pc.hold) r x.pc.hold))
    (hfits : x.Fits u)
    (hway : x.pc.underWay = true → (s.runs r).pc.underWay = true ∨
      ∀ r', (s.runs r').pc.attaching = false)
    (hatt : x.pc.attaching = true → (s.runs r).pc.attaching = true) :
    Shared u { s with
      users := update s.users u g, runs := update s.runs r x } := by
  have hatt' : ∀ r', (update s.runs r x r').pc.attaching = true →
      (s.runs r').pc.attaching = true := by
    intro r'
    by_cases hne : r' = r
    · subst hne
      rw [update_self]
      exact hatt
    · rw [update_of_ne hne]
      exact id
  refine ⟨h.holder, ?_, ?_, fun r₁ r₂ h₁ h₂ => ?_⟩
  · have hcomp := comp_update (fun x : HolderRun => x.pc.hold) s.runs r x
    have hpc : (fun r' => (update s.runs r x r').pc.hold)
        = update (fun r => (s.runs r).pc.hold) r x.pc.hold := hcomp
    show (update s.users u g u).OwnedBy _
    rw [update_self]
    exact hpc ▸ hguard
  · exact (forall_update_iff s.runs fun _ x => x.Fits u).mpr
      ⟨hfits, fun r' _ => h.fits r'⟩
  · have hold := hatt' r₁ h₁
    by_cases hne : r₂ = r
    · subst hne
      simp only [update_self] at h₂
      rcases hway h₂ with hr | hnone
      · exact h.sole r₁ r₂ hold hr
      · rw [hnone r₁] at hold
        cases hold
    · simp only [update_of_ne hne] at h₂
      exact h.sole r₁ r₂ hold h₂

/-- Run `r` moves to a point where it stands to the guard as before. -/
theorem goto (h : Shared u s) {pc : CasePc} (hhold : pc.hold = (s.runs r).pc.hold)
    (hcall : ∀ v q site, pc = .guard v q site → v = u ∧ site.call = some q.call)
    (hway : pc.underWay = true → (s.runs r).pc.underWay = true ∨
      ∀ r', (s.runs r').pc.attaching = false)
    (hatt : pc.attaching = true → (s.runs r).pc.attaching = true) : Shared u (s.goto r pc) := by
  have hset : Shared u { s with
      users := update s.users u (s.users u)
      runs := update s.runs r { s.runs r with pc := pc } } := by
    refine h.set ?_ ⟨hcall, fun v hv => ?_⟩ hway hatt
    · simp only [hhold]
      have hself := update_eq_self r fun r => (s.runs r).pc.hold
      exact hself.symm ▸ h.guard
    · have hout := (h.fits r).taken v hv
      rw [← hhold] at hout
      exact hout
  rw [update_eq_self] at hset
  exact hset

/-- Every move keeps where the run stands to the guard. -/
theorem moves (h : Shared u s) {pc : CasePc} (hm : s.Moves r (s.runs r).pc pc) :
    Shared u (s.goto r pc) := by
  have hholder := h.holder
  generalize hpc : (s.runs r).pc = from_ at hm
  cases hm with
  | absent hh =>
    rw [hh] at hholder
    cases hholder
  | @present site _ _ =>
    refine h.goto (by rw [hpc]; rfl) nofun (fun _ => .inl (by rw [hpc]; rfl)) fun ha => ?_
    rw [hpc]
    cases site <;> first | rfl | cases ha
  | @calls site call v hh hc =>
    rw [hholder] at hh
    cases hh
    have hentry : call.entry.call = call := by cases call <;> rfl
    refine h.goto ?_ ?_ (fun _ => .inl (by rw [hpc]; rfl)) fun ha => ?_
    · rw [hpc]
      cases site <;> cases hc <;> rfl
    · intro v q site' he
      cases he
      rw [hentry]
      exact ⟨rfl, hc⟩
    · rw [hpc]
      cases site <;> first | rfl | cases ha
  | tests _ _ => exact h.goto (by rw [hpc]; rfl) nofun (fun _ => .inl (by rw [hpc]; rfl)) nofun
  | untaken hh ht =>
    -- a run in Fn has the guard, so the test does not fail
    rw [hholder] at hh
    cases hh
    exact absurd ((h.guard.id r).mpr (by rw [hpc]; rfl)) ht
  | yields => exact h.goto (by rw [hpc]; rfl) nofun (fun _ => .inl (by rw [hpc]; rfl)) nofun
  | resumes => exact h.goto (by rw [hpc]; rfl) nofun (fun _ => .inl (by rw [hpc]; rfl)) nofun
  | returns err => exact h.goto (by rw [hpc]; rfl) nofun (fun _ => .inl (by rw [hpc]; rfl)) nofun

/-- A statement of a guard call that leads to the next one. -/
theorem guard_goto (h : Shared u s) {q : GuardPc}
    (hpc : (s.runs r).pc = .guard u pc site) (hcall : site.call = some q.call)
    (hguard : g.OwnedBy (update (fun r => (s.runs r).pc.hold) r
      (CasePc.guard u q site).hold))
    (htaken : ∀ v, (s.runs r).taken v = true → v = u ∧ (CasePc.guard u q site).hold ≠ .out) :
    Shared u { s with
      users := update s.users u g
      runs := update s.runs r ((s.runs r).advance u pc site (.goto q)) } := by
  refine h.set hguard ⟨?_, htaken⟩ (fun _ => .inl (by rw [hpc]; rfl)) fun ha => ?_
  · intro v' q' site' he
    cases he
    exact ⟨rfl, hcall⟩
  · rw [hpc]
    cases site <;> first | rfl | cases ha

/-- A statement after which the guard call returns nil. -/
theorem guard_return (h : Shared u s)
    (hpc : (s.runs r).pc = .guard u pc site)
    (hguard : g.OwnedBy (update (fun r => (s.runs r).pc.hold) r
      (HolderRun.after site none).hold))
    (htake : pc.call = .take → (HolderRun.after site none).hold ≠ .out) :
    Shared u { s with
      users := update s.users u g
      runs := update s.runs r ((s.runs r).advance u pc site (.return none)) } := by
  refine h.set hguard ⟨?_, fun v hv => ?_⟩ (fun _ => .inl (by rw [hpc]; rfl)) fun ha => ?_
  · intro v' q' site' he
    cases site <;> cases he
  · have hv' : update (s.runs r).taken u (decide (pc.call = .take)) v = true := hv
    by_cases hvu : v = u
    · subst hvu
      rw [update_self, decide_eq_true_eq] at hv'
      exact ⟨rfl, htake hv'⟩
    · rw [update_of_ne hvu] at hv'
      exact absurd ((h.fits r).taken v hv').1 hvu
  · cases site <;> cases ha

/-- A statement of a guard call, which is on the user and never fails. -/
theorem guards (h : Shared u s) {v : Nat}
    {next : GuardNext} (hpc : (s.runs r).pc = .guard v pc site)
    (hdo : (s.users v).Does r pc g next) :
    Shared u { s with
      users := update s.users v g
      runs := update s.runs r ((s.runs r).advance v pc site next) } := by
  obtain ⟨hv, hcall⟩ := (h.fits r).call v pc site hpc
  subst hv
  have hhold : (s.runs r).pc.hold = (CasePc.guard v pc site).hold := by rw [hpc]
  have hadmits : (s.runs r).pc.hold.admits pc = true := by
    rw [hhold]
    cases pc <;> rfl
  have hguard := h.guard.does hdo hadmits
  -- outside of the guard nothing has been taken
  have hnone : (s.runs r).pc.hold = .out → ∀ w, (s.runs r).taken w ≠ true :=
    fun hout w hw => ((h.fits r).taken w hw).2 hout
  cases hdo with
  | already hown =>
    have hhas := (h.guard.id r).mp hown
    rw [hhold] at hhas
    cases hhas
  | waits _ =>
    have hout : (s.runs r).pc.hold.next .load (.goto .lock)
      = (CasePc.guard v .lock site).hold := hhold
    exact h.guard_goto hpc hcall (hout ▸ hguard) fun w hw => absurd hw (hnone hhold w)
  | locks _ => exact h.guard_goto hpc hcall hguard fun w hw => absurd hw (hnone hhold w)
  | clears _ =>
    exact h.guard_goto hpc hcall hguard fun w hw => ⟨((h.fits r).taken w hw).1, nofun⟩
  | stores =>
    have hfn : HolderRun.after site none = .fn := by
      cases site <;> first | rfl | cases hcall
    exact h.guard_return hpc (hfn ▸ hguard) fun _ => by rw [hfn]; nofun
  | refused hown => exact absurd ((h.guard.id r).mpr hhold) hown
  | unlocks _ =>
    have hout : (HolderRun.after site none).hold = .out := by
      cases site <;> first | rfl | cases hcall
    exact h.guard_return hpc (hout ▸ hguard) nofun
  | faults _ => exact absurd hguard.sound nofun

end Shared

/-! ## Whole runs -/

/-- A run attaches the user: it is the only one under way, so the user's guard is free and
nobody stands inside. -/
theorem Alone.attach {s : HolderState} {r : TaskId} (h : Alone s) (u : Nat)
    (hpc : (s.runs r).pc = .fn) :
    Shared u { s.goto r (.user .initUser) with holder := some u } := by
  have hother : ∀ r', r' ≠ r → (s.runs r').pc.underWay = false := by
    intro r' hne
    cases hw : (s.runs r').pc.underWay with
    | false => rfl
    | true => exact absurd (h.one r' r hw (by rw [hpc]; rfl)) hne
  have hidle : ∀ pc : CasePc, pc.underWay = false →
      pc.hold = .out ∧ pc.attaching = false ∧ ∀ v q site, pc ≠ .guard v q site := by
    intro pc hw
    cases pc <;> first | exact ⟨rfl, rfl, nofun⟩ | cases hw
  have hself : (s.goto r (.user .initUser)).runs r = { s.runs r with pc := .user .initUser } :=
    update_self ..
  have hruns : ∀ r', r' ≠ r → (s.goto r (.user .initUser)).runs r' = s.runs r' :=
    fun r' hne => update_of_ne hne ..
  have hout : ∀ r', ((s.goto r (.user .initUser)).runs r').pc.hold = .out := by
    intro r'
    by_cases hne : r' = r
    · rw [hne, hself]
      rfl
    · rw [hruns r' hne]
      exact (hidle _ (hother r' hne)).1
  refine ⟨rfl, ?_, fun r' => ⟨?_, fun v hv => ?_⟩, fun r₁ r₂ h₁ h₂ => ?_⟩
  · show (s.users u).OwnedBy fun r' => ((s.goto r (.user .initUser)).runs r').pc.hold
    rw [funext hout, h.users u]
    exact ActionGuard.OwnedBy.init
  · intro v q site he
    by_cases hne : r' = r
    · simp only [hne, hself] at he
      cases he
    · simp only [hruns r' hne] at he
      exact absurd he ((hidle _ (hother r' hne)).2.2 v q site)
  · by_cases hne : r' = r
    · simp only [hne, hself, h.taken] at hv
      cases hv
    · simp only [hruns r' hne, h.taken] at hv
      cases hv
  · have honly : ∀ r', ((s.goto r (.user .initUser)).runs r').pc.underWay = true → r' = r := by
      intro r' hw
      by_contra hne
      rw [hruns r' hne, hother r' hne] at hw
      cases hw
    have hway : ((s.goto r (.user .initUser)).runs r₁).pc.underWay = true :=
      CasePc.underWay_of_acting (by simp only [CasePc.acting, h₁, Bool.or_true])
    rw [honly r₁ hway, honly r₂ h₂]

variable {s' : HolderState} {a : HolderAct}

theorem Alone.step {s : HolderState} (h : Alone s) (hP : UserFirst s a)
    (hdo : s.Does a s') : Alone s' ∨ ∃ u, Shared u s' := by
  have hholder := h.holder
  cases hdo with
  | begins hpc =>
    refine .inl (h.goto rfl (.inr ?_))
    rcases hP with hnone | hsome
    · exact hnone
    · exact absurd hholder hsome.1
  | stays => exact .inl h
  | @moves _ r pc hm =>
    generalize hpc : (s.runs r).pc = from_ at hm
    have hway : from_.underWay = true →
        ((s.runs r).pc.underWay = true ∨ ∀ r', (s.runs r').pc.underWay = false) := by
      intro hw
      rw [hpc]
      exact .inl hw
    cases hm with
    | absent _ => exact .inl (h.goto (CasePc.userless_after none) (hway rfl))
    | present hh | calls hh _ | tests hh _ | untaken hh _ =>
      rw [hholder] at hh
      cases hh
    | yields | resumes | returns _ => exact .inl (h.goto rfl (hway rfl))
  | @guards _ r _ _ _ _ _ hpc _ =>
    have hless := h.userless r
    rw [hpc] at hless
    cases hless
  | attaches u hpc => exact .inr ⟨u, h.attach u hpc⟩

theorem Shared.step {u : Nat} {s : HolderState} (h : Shared u s)
    (hP : UserFirst s a) (hdo : s.Does a s') : Shared u s' := by
  cases hdo with
  | begins hpc =>
    refine h.goto (by rw [hpc]; rfl) nofun (fun _ => .inr fun r' => ?_) nofun
    rcases hP with hnone | hsome
    · cases ha : (s.runs r').pc.attaching with
      | false => rfl
      | true =>
        have hacting : (s.runs r').pc.acting = true := by simp only [CasePc.acting, ha, Bool.or_true]
        have hway := CasePc.underWay_of_acting hacting
        rw [hnone r'] at hway
        cases hway
    · exact hsome.2 r'
  | stays => exact h
  | moves _ hm => exact h.moves hm
  | guards _ hpc hdo => exact h.guards hpc hdo
  | attaches v _ =>
    have hnone : s.holder = none := hP
    rw [h.holder] at hnone
    cases hnone

/-- **One step** that meets the condition keeps a holder without a user, or one with its user,
in order. -/
theorem turns_step {s : HolderState} (h : Alone s ∨ ∃ u, Shared u s)
    (hP : UserFirst s a) (hs : s.step a = some s') : Alone s' ∨ ∃ u, Shared u s' := by
  have hdo := HolderState.step_does hs
  rcases h with h | ⟨u, h⟩
  · exact h.step hP hdo
  · exact .inr ⟨u, h.step hP hdo⟩

theorem turns_init (holder : Option Nat) :
    Alone (.init holder) ∨ ∃ u, Shared u (.init holder) := by
  cases holder with
  | none => exact .inl ⟨rfl, fun _ => rfl, fun _ _ => rfl, fun _ => rfl, nofun⟩
  | some u =>
    exact .inr ⟨u, rfl, ActionGuard.OwnedBy.init, fun _ => ⟨nofun, nofun⟩, nofun⟩

/-- **One case task at a time acts on a user**, and every guard taken is given back, in every
state of every interleaving in which the user is there first. -/
theorem case_tasks_take_turns (holder : Option Nat) (as : List HolderAct)
    (h : Along HolderState.step UserFirst (.init holder) as) :
    Throughout HolderState.step TakesTurns (.init holder) as :=
  throughout_of_inv
    (fun _ hs => hs.elim Alone.takesTurns fun ⟨_, hu⟩ => hu.takesTurns)
    (fun _ _ _ hs hP ha => turns_step hs hP ha) as (turns_init holder) h

def runA : TaskId := ⟨1, by decide⟩

def runB : TaskId := ⟨2, by decide⟩

/-- Both runs begin on a holder that has user `7`, and go as far as they can. -/
def bothBegin : List HolderAct :=
  [.hookRun runA, .hookRun runB, .check runA, .check runB, .user runA, .user runB,
    .guard runA, .guard runB, .guard runA, .guard runA]

/-- With the user attached, `A` is in its `Fn` and `B` waits for the guard. -/
theorem second_run_waits :
    (run HolderState.step (.init (some 7)) bothBegin).map
        (fun s => ((s.runs runA).pc, (s.runs runB).pc)) = some (.fn, .guard 7 .lock .hookTake) ∧
      Throughout HolderState.step TakesTurns (.init (some 7)) bothBegin := by
  refine ⟨by decide +kernel, case_tasks_take_turns (some 7) bothBegin ?_⟩
  refine ⟨.inl fun _ => rfl, fun s hs => ⟨.inr ?_, fun _ _ => ?_⟩⟩
  · obtain rfl := Option.some.inj hs
    exact ⟨nofun, (forall_update_iff _ fun _ (x : HolderRun) => x.pc.attaching = false).mpr
      ⟨rfl, fun _ _ => rfl⟩⟩
  · -- the other steps are under no condition
    exact along_of_forall _ _ (by simp [UserFirst])

/-- Two runs begin while the holder is empty. -/
def bothUserless : List HolderAct :=
  [.hookRun runA, .check runA, .hookRun runB, .check runB]

/-- Each of them attaches a user of its own, and `A` ends. -/
def twoUsers : List HolderAct :=
  bothUserless ++ [.initUserOnRunning runA 7, .user runA, .guard runA, .guard runA, .guard runA,
    .initUserOnRunning runB 8, .fnReturn runA none, .check runA, .user runA, .guard runA]

/-- Without a user in the holder both runs are in their `Fn` at once; and when each attaches a
user, the first ends with an error and keeps the guard of its user for good. -/
theorem userless_runs_collide :
    ¬ Throughout HolderState.step TakesTurns (.init none) bothUserless ∧
      (run HolderState.step (.init none) twoUsers).map
        (fun s => ((s.runs runA).pc, (s.runs runA).taken 7)) =
          some (.ended (some "action guard not taken by this task"), true) := by
  have hboth : (run HolderState.step (.init none) bothUserless).map
      (fun s => ((s.runs runA).pc, (s.runs runB).pc)) = some (.fn, .fn) := by decide +kernel
  obtain ⟨s, hs, hpc⟩ := Option.map_eq_some_iff.mp hboth
  rw [Prod.mk.injEq] at hpc
  refine ⟨fun h => ?_, by decide +kernel⟩
  have hsame := (throughout_last h hs).alone runA runB (by rw [hpc.1]; rfl) (by rw [hpc.2]; rfl)
  exact absurd hsame (by decide)

end Robot.Case
