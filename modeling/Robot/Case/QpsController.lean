import Robot.Lib.Machine

/-!
# The token bucket

`QPSController` (`case/qps_controller.go`) limits the rate of a case. A call of `Acquire` takes a
token optimistically: it subtracts first and looks at the result afterwards, and when the result is
negative it adds the token back and waits on a condition variable for the refiller. The refiller
adds tokens on a ticker and cuts the balance to a burst cap, in two atomic additions of which the
second is computed from what the first returned; in between any number of calls may have moved the
balance, so the cut may take it below zero.

The machine has one action for each atomic step: of any call of `Acquire` (`advance i`), of the
refiller (`tick` and `seeStop` are the two cases of its `select`, `refill` is every later step), and
the calls of `SetQPS` and `Stop`. The mutex of the condition variable is a holder or nobody. `Wait`
joins the list of waiters before it releases the mutex; the two are one step here, as a broadcast
between them and one right after them do the same. `lastTime` is set to the tick's time in every
branch, so all that is left of the clock is the time from one tick to the next, which is an
argument of `tick`: the interval of the ticker (`refillerInterval`), or more if the refiller was late.
There is no overflow: the counters are integers.

`added` and `clamped` count what the refiller has added and cut; no step reads them. With them every
token is accounted for,

> `tokens = tokenScale + added - clamped - tokenScale * (granted + inFlight)`,

and a call returns only if its own subtraction left the balance at zero or above. What the other
calls have in flight and what was cut only lowers the balance, so the tokens granted were there
(`never_over_admits`).
-/

namespace Robot.Case

open Robot.Lib List

/-! ## The controller -/

def tokenScale : ℤ := 1000000

def minBurstTokens : ℤ := 2 * tokenScale

/-- `int64(time.Second)`. -/
def second : ℤ := 1000000000

def burstWindow : ℤ := 50000000

def refillerInterval : ℤ := 1000000

/-- Where a call of `Acquire` is: each constructor is the point before an atomic step, the last two
have returned. -/
inductive AcquirePc where
  /-- At the load of `targetQPS`. -/
  | entered
  | subtracting
  | testing (cur : ℤ)
  | rollingBack
  | locking
  /-- At the load of `tokens`, with the mutex. -/
  | checking
  /-- In `Wait`, with the mutex. -/
  | enlisting
  /-- In the list of the condition variable. -/
  | parked
  /-- Woken; `Wait` takes the mutex again. -/
  | relocking
  | unlocking
  /-- Returned with a token. -/
  | returned
  /-- Returned at once, without a limit. -/
  | passed
deriving DecidableEq

/-- Where the refiller is. -/
inductive RefillerPc where
  | selecting
  /-- A tick was received; at the load of `targetQPS`. -/
  | loading (elapsed : ℤ)
  | adding (target add : ℤ)
  | clamping (target cur : ℤ)
  | broadcasting
  /-- `stopCh` was received; at the last broadcast. -/
  | stopping
  | exited
deriving DecidableEq

structure QPSController where
  tokens : ℤ
  targetQPS : ℤ
  /-- `stopCh` is closed. -/
  stopped : Bool
  /-- The call that holds `mu`. -/
  mu : Option ℕ
  calls : List AcquirePc
  refiller : RefillerPc
  added : ℤ
  clamped : ℤ
deriving DecidableEq

/-- `NewQPSController`, for a target that is already scaled. -/
def newQPSController (targetQPS : ℤ) : QPSController where
  tokens := tokenScale
  targetQPS := targetQPS
  stopped := false
  mu := none
  calls := []
  refiller := .selecting
  added := 0
  clamped := 0

/-- What a tick adds. -/
def refillOf (target elapsed : ℤ) : ℤ := (target * elapsed).tdiv second

def burstCap (target : ℤ) : ℤ :=
  if (target * burstWindow).tdiv second < minBurstTokens then minBurstTokens
  else (target * burstWindow).tdiv second

/-- A call that was in the list of the condition variable is woken. -/
def AcquirePc.woken : AcquirePc → AcquirePc
  | .parked => .relocking
  | pc => pc

namespace QPSController

def goto (q : QPSController) (i : ℕ) (pc : AcquirePc) : QPSController :=
  { q with calls := q.calls.set i pc }

def broadcast (q : QPSController) : QPSController :=
  { q with calls := q.calls.map AcquirePc.woken }

/-- The next step of call `i` of `Acquire`, which is at `pc`. -/
def acquireStep (q : QPSController) (i : ℕ) : AcquirePc → Option QPSController
  | .entered => some (q.goto i (if q.targetQPS ≤ 0 then .passed else .subtracting))
  | .subtracting =>
    some ({ q with tokens := q.tokens - tokenScale }.goto i (.testing (q.tokens - tokenScale)))
  | .testing cur => some (q.goto i (if 0 ≤ cur then .returned else .rollingBack))
  | .rollingBack => some ({ q with tokens := q.tokens + tokenScale }.goto i .locking)
  | .locking | .relocking =>
    if q.mu = none then some ({ q with mu := some i }.goto i .checking) else none
  | .checking => some (q.goto i (if q.tokens < tokenScale then .enlisting else .unlocking))
  | .enlisting => some ({ q with mu := none }.goto i .parked)
  | .unlocking => some ({ q with mu := none }.goto i .subtracting)
  | .parked | .returned | .passed => none

/-- The next step of the refiller, which is at `pc`, after its `select`. -/
def refillStep (q : QPSController) : RefillerPc → Option QPSController
  | .loading elapsed =>
    if q.targetQPS ≤ 0 then some { q with refiller := .selecting }
    else if refillOf q.targetQPS elapsed ≤ 0 then some { q with refiller := .selecting }
    else some { q with refiller := .adding q.targetQPS (refillOf q.targetQPS elapsed) }
  | .adding target add =>
    some { q with
      tokens := q.tokens + add
      added := q.added + add
      refiller := .clamping target (q.tokens + add) }
  | .clamping target cur =>
    if burstCap target < cur then
      some { q with
        tokens := q.tokens - (cur - burstCap target)
        clamped := q.clamped + (cur - burstCap target)
        refiller := .broadcasting }
    else some { q with refiller := .broadcasting }
  | .broadcasting => some { q.broadcast with refiller := .selecting }
  | .stopping => some { q.broadcast with refiller := .exited }
  | .selecting | .exited => none

end QPSController

inductive QpsAction where
  /-- `Acquire` is called. -/
  | acquire
  | advance (i : ℕ)
  | tick (elapsed : ℤ)
  | seeStop
  | refill
  | setQPS (target : ℤ)
  | stop
deriving DecidableEq

def QPSController.step (q : QPSController) : QpsAction → Option QPSController
  | .acquire => some { q with calls := q.calls ++ [.entered] }
  | .advance i => q.calls[i]?.bind (q.acquireStep i)
  | .tick elapsed =>
    if q.refiller = .selecting then some { q with refiller := .loading elapsed } else none
  | .seeStop =>
    if q.refiller = .selecting ∧ q.stopped = true then some { q with refiller := .stopping } else none
  | .refill => q.refillStep q.refiller
  | .setQPS target => some { q with targetQPS := target }
  | .stop => some { q with stopped := true }

/-! ## A bucket with optimistic withdrawals

What the controller is for, without its threads: a balance from which tokens worth `u` are taken. A
withdrawal that finds less than `u` is in flight until it is given back. -/

@[ext] structure Bucket where
  balance : ℤ
  added : ℤ
  clamped : ℤ
  granted : ℕ
  inFlight : ℕ

/-- What can happen to a bucket. -/
inductive Bucket.Step (u : ℤ) (b b' : Bucket) : Prop
  | same (h : b' = b)
  | grant (h : u ≤ b.balance)
    (h' : b' = { b with balance := b.balance - u, granted := b.granted + 1 })
  | borrow (h' : b' = { b with balance := b.balance - u, inFlight := b.inFlight + 1 })
  | giveBack (h' : b = { b' with balance := b'.balance - u, inFlight := b'.inFlight + 1 })
  | add (a : ℤ) (ha : 0 < a) (h' : b' = { b with balance := b.balance + a, added := b.added + a })
  | clamp (c : ℤ) (hc : 0 < c)
    (h' : b' = { b with balance := b.balance - c, clamped := b.clamped + c })

/-- Every token is accounted for, and what was granted was there. -/
structure Bucket.Sound (u initial : ℤ) (b : Bucket) : Prop where
  account : b.balance = initial + b.added - b.clamped - u * (b.granted + b.inFlight)
  backed : 0 ≤ b.balance + u * b.inFlight + b.clamped
  clamped : 0 ≤ b.clamped

theorem Bucket.Sound.step {u initial : ℤ} {b b' : Bucket} (hu : 0 ≤ u) (h : b.Sound u initial)
    (hs : Bucket.Step u b b') : b'.Sound u initial := by
  have hflight : 0 ≤ u * (b.inFlight : ℤ) := mul_nonneg hu (Int.natCast_nonneg _)
  have haccount := h.account
  have hbacked := h.backed
  have hclamped := h.clamped
  cases hs with
  | same h' =>
    subst h'
    exact h
  | grant hb h' =>
    -- the balance alone covers it: what is in flight and what was cut are on top
    subst h'
    refine ⟨?_, ?_, hclamped⟩ <;> push_cast <;> linarith
  | borrow h' =>
    subst h'
    refine ⟨?_, ?_, hclamped⟩ <;> push_cast <;> linarith
  | giveBack h' =>
    subst h'
    push_cast at haccount hbacked
    refine ⟨?_, ?_, hclamped⟩ <;> linarith
  | add a ha h' =>
    subst h'
    refine ⟨?_, ?_, hclamped⟩ <;> dsimp only <;> linarith
  | clamp c hc h' =>
    subst h'
    refine ⟨?_, ?_, ?_⟩ <;> dsimp only <;> linarith

/-- **A sound bucket has not granted more** than it had. -/
theorem Bucket.Sound.granted_le {u initial : ℤ} {b : Bucket} (h : b.Sound u initial) :
    u * b.granted ≤ initial + b.added := by
  have haccount := h.account
  have hbacked := h.backed
  linarith

/-! ## Where the tokens are -/

/-- A token was taken for good. -/
def AcquirePc.granted : AcquirePc → Bool
  | .testing cur => decide (0 ≤ cur)
  | .returned => true
  | _ => false

/-- A token is subtracted that was not there. -/
def AcquirePc.inFlight : AcquirePc → Bool
  | .testing cur => decide (cur < 0)
  | .rollingBack => true
  | _ => false

/-- The call is over. -/
def AcquirePc.over : AcquirePc → Bool
  | .returned | .passed => true
  | _ => false

namespace QPSController

def granted (q : QPSController) : ℕ := q.calls.countP AcquirePc.granted

def inFlight (q : QPSController) : ℕ := q.calls.countP AcquirePc.inFlight

/-- How many calls of `Acquire` have returned. -/
def returned (q : QPSController) : ℕ := q.calls.countP AcquirePc.over

variable {q q' : QPSController} {i : ℕ} {pc : AcquirePc}

/-- One call moves from `pc` to `pc'`. -/
theorem countP_goto (h : q.calls[i]? = some pc) (p : AcquirePc → Bool) (pc' : AcquirePc) :
    ((q.goto i pc').calls.countP p : ℤ) + (if p pc then 1 else 0) =
      q.calls.countP p + (if p pc' then 1 else 0) := by
  obtain ⟨hi, rfl⟩ := List.getElem?_eq_some_iff.mp h
  have hpos : p q.calls[i] = true → 0 < q.calls.countP p := fun hp =>
    countP_pos_iff.mpr ⟨_, getElem_mem hi, hp⟩
  show ((q.calls.set i pc').countP p : ℤ) + _ = _
  rw [countP_set hi]
  by_cases hp : p q.calls[i] = true
  · have := hpos hp
    rw [if_pos hp, if_pos hp]
    split_ifs <;> omega
  · rw [if_neg hp, if_neg hp]
    split_ifs <;> omega

theorem countP_broadcast (q : QPSController) {p : AcquirePc → Bool}
    (hp : p .parked = p .relocking) : q.broadcast.calls.countP p = q.calls.countP p := by
  show (q.calls.map AcquirePc.woken).countP p = _
  rw [countP_map]
  refine countP_congr fun pc _ => ?_
  cases pc with
  | parked => rw [Function.comp_apply, AcquirePc.woken, hp]
  | _ => exact Iff.rfl

def bucket (q : QPSController) : Bucket where
  balance := q.tokens
  added := q.added
  clamped := q.clamped
  granted := q.granted
  inFlight := q.inFlight

theorem granted_goto (h : q.calls[i]? = some pc) (pc' : AcquirePc) :
    ((q.goto i pc').granted : ℤ) + (if pc.granted then 1 else 0) =
      q.granted + (if pc'.granted then 1 else 0) :=
  countP_goto h _ pc'

theorem inFlight_goto (h : q.calls[i]? = some pc) (pc' : AcquirePc) :
    ((q.goto i pc').inFlight : ℤ) + (if pc.inFlight then 1 else 0) =
      q.inFlight + (if pc'.inFlight then 1 else 0) :=
  countP_goto h _ pc'

/-- A move of one call that leaves the tokens alone. -/
theorem bucket_goto {pc' : AcquirePc} (h : q.calls[i]? = some pc)
    (hg : pc'.granted = pc.granted) (hf : pc'.inFlight = pc.inFlight) :
    (q.goto i pc').bucket = q.bucket := by
  have hgranted := granted_goto h pc'
  have hflight := inFlight_goto h pc'
  rw [hg] at hgranted
  rw [hf] at hflight
  refine Bucket.ext rfl rfl rfl ?_ ?_
  · exact Int.ofNat.inj (add_right_cancel hgranted)
  · exact Int.ofNat.inj (add_right_cancel hflight)

/-- The subtraction: granted, or in flight. -/
theorem subtract_bucket (h : q.calls[i]? = some .subtracting) :
    Bucket.Step tokenScale q.bucket
      ({ q with tokens := q.tokens - tokenScale }.goto i (.testing (q.tokens - tokenScale))).bucket := by
  have hgranted := granted_goto h (.testing (q.tokens - tokenScale))
  have hflight := inFlight_goto h (.testing (q.tokens - tokenScale))
  simp only [AcquirePc.granted, AcquirePc.inFlight, decide_eq_true_eq] at hgranted hflight
  by_cases hcur : 0 ≤ q.tokens - tokenScale
  · rw [if_pos hcur] at hgranted
    rw [if_neg (not_lt.mpr hcur)] at hflight
    refine .grant (sub_nonneg.mp hcur) (Bucket.ext rfl rfl rfl ?_ ?_)
    · exact Int.ofNat.inj hgranted
    · exact Int.ofNat.inj hflight
  · rw [if_neg hcur] at hgranted
    rw [if_pos (not_le.mp hcur)] at hflight
    refine .borrow (Bucket.ext rfl rfl rfl ?_ ?_)
    · exact Int.ofNat.inj hgranted
    · exact Int.ofNat.inj hflight

/-- The roll back. -/
theorem rollBack_bucket (h : q.calls[i]? = some .rollingBack) :
    Bucket.Step tokenScale q.bucket
      ({ q with tokens := q.tokens + tokenScale }.goto i .locking).bucket := by
  refine .giveBack (Bucket.ext ?_ rfl rfl ?_ ?_)
  · exact (add_sub_cancel_right _ _).symm
  · exact (Int.ofNat.inj (granted_goto h .locking)).symm
  · exact (Int.ofNat.inj (inFlight_goto h .locking)).symm

/-- **One step of a call** is a step of the bucket. -/
theorem acquireStep_bucket (h : q.calls[i]? = some pc) (hstep : q.acquireStep i pc = some q') :
    Bucket.Step tokenScale q.bucket q'.bucket := by
  cases pc with
  | entered | checking =>
    cases hstep
    refine .same (bucket_goto h ?_ ?_) <;> split_ifs <;> rfl
  | subtracting =>
    cases hstep
    exact subtract_bucket h
  | testing cur =>
    cases hstep
    -- the verdict was decided by the subtraction
    refine .same (bucket_goto h ?_ ?_) <;> dsimp only [AcquirePc.granted, AcquirePc.inFlight]
    · split_ifs with hcur
      · exact (decide_eq_true hcur).symm
      · exact (decide_eq_false hcur).symm
    · split_ifs with hcur
      · exact (decide_eq_false (not_lt.mpr hcur)).symm
      · exact (decide_eq_true (not_le.mp hcur)).symm
  | rollingBack =>
    cases hstep
    exact rollBack_bucket h
  | locking | relocking =>
    dsimp only [acquireStep] at hstep
    split at hstep
    · cases hstep
      exact .same (bucket_goto h rfl rfl)
    · cases hstep
  | enlisting | unlocking =>
    cases hstep
    exact .same (bucket_goto h rfl rfl)
  | parked | returned | passed => cases hstep

/-- What the refiller is about to add is positive. -/
def Refilling (q : QPSController) : Prop := ∀ target add, q.refiller = .adding target add → 0 < add

theorem broadcast_bucket (q : QPSController) : q.broadcast.bucket = q.bucket :=
  Bucket.ext rfl rfl rfl (q.countP_broadcast rfl) (q.countP_broadcast rfl)

/-- **One step of the refiller** is a step of the bucket. -/
theorem refillStep_bucket (h : q.Refilling)
    (hstep : q.refillStep q.refiller = some q') : Bucket.Step tokenScale q.bucket q'.bucket := by
  cases hpc : q.refiller with
  | loading elapsed =>
    rw [hpc] at hstep
    dsimp only [refillStep] at hstep
    split_ifs at hstep <;> cases hstep <;> exact .same rfl
  | adding target add =>
    rw [hpc] at hstep
    cases hstep
    exact .add add (h target add hpc) rfl
  | clamping target cur =>
    rw [hpc] at hstep
    dsimp only [refillStep] at hstep
    split_ifs at hstep with hcap
    · cases hstep
      exact .clamp (cur - burstCap target) (sub_pos.mpr hcap) rfl
    · cases hstep
      exact .same rfl
  | broadcasting | stopping =>
    rw [hpc] at hstep
    cases hstep
    exact .same q.broadcast_bucket
  | selecting | exited =>
    rw [hpc] at hstep
    cases hstep

/-- A step of call `i` writes the tokens, the mutex and the call's own position. -/
theorem acquireStep_frame (hstep : q.acquireStep i pc = some q') :
    ∃ tokens mu pc', q' = { q with tokens := tokens, mu := mu, calls := q.calls.set i pc' } ∧
      (pc' = .passed → q.targetQPS ≤ 0) := by
  cases pc with
  | entered =>
    cases hstep
    refine ⟨_, _, _, rfl, ?_⟩
    split_ifs with htarget
    · exact fun _ => htarget
    · exact nofun
  | testing | checking =>
    cases hstep
    refine ⟨_, _, _, rfl, ?_⟩
    split_ifs <;> exact nofun
  | subtracting | rollingBack | enlisting | unlocking =>
    cases hstep
    exact ⟨_, _, _, rfl, nofun⟩
  | locking | relocking =>
    dsimp only [acquireStep] at hstep
    split at hstep
    · cases hstep
      exact ⟨_, _, _, rfl, nofun⟩
    · cases hstep
  | parked | returned | passed => cases hstep

/-- What a tick does. -/
theorem tick_cases {elapsed : ℤ} (hstep : q.step (.tick elapsed) = some q') :
    q.refiller = .selecting ∧ q' = { q with refiller := .loading elapsed } := by
  change (if q.refiller = .selecting then _ else none) = some q' at hstep
  split_ifs at hstep with hsel
  cases hstep
  exact ⟨hsel, rfl⟩

/-- What seeing the closed channel does. -/
theorem seeStop_cases (hstep : q.step .seeStop = some q') :
    (q.refiller = .selecting ∧ q.stopped = true) ∧ q' = { q with refiller := .stopping } := by
  change (if q.refiller = .selecting ∧ q.stopped = true then _ else none) = some q' at hstep
  split_ifs at hstep with hsel
  cases hstep
  exact ⟨hsel, rfl⟩

/-- A step of a call, seen from the outside. -/
theorem advance_frame (hstep : q.step (.advance i) = some q') :
    ∃ tokens mu pc', q' = { q with tokens := tokens, mu := mu, calls := q.calls.set i pc' } ∧
      (pc' = .passed → q.targetQPS ≤ 0) := by
  obtain ⟨pc, -, hq⟩ := Option.bind_eq_some_iff.mp hstep
  exact acquireStep_frame hq

/-- The settings and the mutex are the same, and calls were woken at most. -/
structure Refreshed (q q' : QPSController) : Prop where
  target : q'.targetQPS = q.targetQPS
  stopped : q'.stopped = q.stopped
  mu : q'.mu = q.mu
  calls : q'.calls = q.calls ∨ q'.calls = q.calls.map AcquirePc.woken

theorem refillStep_frame {pc : RefillerPc}
    (hstep : q.refillStep pc = some q') : Refreshed q q' := by
  cases pc with
  | loading | clamping =>
    dsimp only [refillStep] at hstep
    split_ifs at hstep <;> cases hstep <;> exact ⟨rfl, rfl, rfl, .inl rfl⟩
  | adding =>
    cases hstep
    exact ⟨rfl, rfl, rfl, .inl rfl⟩
  | broadcasting | stopping =>
    cases hstep
    exact ⟨rfl, rfl, rfl, .inr rfl⟩
  | selecting | exited => cases hstep

/-- Only a load with a positive result leads to an addition. -/
theorem refillStep_adding {pc : RefillerPc} {target add : ℤ}
    (hstep : q.refillStep pc = some q') (h : q'.refiller = .adding target add) : 0 < add := by
  cases pc with
  | loading elapsed =>
    dsimp only [refillStep] at hstep
    split_ifs at hstep with htarget hadd
    · cases hstep
      cases h
    · cases hstep
      cases h
    · cases hstep
      cases h
      exact not_le.mp hadd
  | clamping =>
    dsimp only [refillStep] at hstep
    split_ifs at hstep <;> cases hstep <;> cases h
  | adding | broadcasting | stopping =>
    cases hstep
    cases h
  | selecting | exited => cases hstep

theorem Refilling.step {a : QpsAction} (h : q.Refilling)
    (hstep : q.step a = some q') : q'.Refilling := by
  cases a with
  | acquire | setQPS | stop =>
    cases hstep
    exact h
  | advance i =>
    obtain ⟨tokens, mu, pc', rfl, -⟩ := advance_frame hstep
    exact h
  | tick elapsed =>
    obtain ⟨-, rfl⟩ := tick_cases hstep
    exact nofun
  | seeStop =>
    obtain ⟨-, rfl⟩ := seeStop_cases hstep
    exact nofun
  | refill => exact fun _ _ hpc => refillStep_adding hstep hpc

/-- **One step** of the controller is a step of the bucket. -/
theorem step_bucket {a : QpsAction} (h : q.Refilling)
    (hstep : q.step a = some q') : Bucket.Step tokenScale q.bucket q'.bucket := by
  cases a with
  | acquire =>
    cases hstep
    refine .same (Bucket.ext rfl rfl rfl ?_ ?_)
    · exact countP_append
    · exact countP_append
  | advance i =>
    obtain ⟨pc, hpc, hq⟩ := Option.bind_eq_some_iff.mp hstep
    exact acquireStep_bucket hpc hq
  | tick elapsed =>
    obtain ⟨-, rfl⟩ := tick_cases hstep
    exact .same rfl
  | seeStop =>
    obtain ⟨-, rfl⟩ := seeStop_cases hstep
    exact .same rfl
  | refill => exact refillStep_bucket h hstep
  | setQPS target | stop =>
    cases hstep
    exact .same rfl

/-- A limited controller: no call has passed without a token. -/
structure Limited (q : QPSController) : Prop where
  positive : 0 < q.targetQPS
  paid : .passed ∉ q.calls

end QPSController

open QPSController

/-- `SetQPS` is only called with positive rates. -/
def KeepsPositive (_ : QPSController) (a : QpsAction) : Prop := ∀ target, a = .setQPS target → 0 < target

theorem AcquirePc.woken_passed {pc : AcquirePc} (h : pc.woken = .passed) : pc = .passed := by
  cases pc with
  | parked => cases h
  | _ => exact h

variable {q : QPSController}

theorem QPSController.Limited.step {q' : QPSController} {a : QpsAction} (h : q.Limited)
    (ha : KeepsPositive q a) (hstep : q.step a = some q') : q'.Limited := by
  cases a with
  | acquire =>
    cases hstep
    refine ⟨h.positive, fun hmem => ?_⟩
    rcases mem_append.mp hmem with hmem | hmem
    · exact h.paid hmem
    · cases mem_singleton.mp hmem
  | advance i =>
    obtain ⟨tokens, mu, pc', rfl, hpassed⟩ := advance_frame hstep
    refine ⟨h.positive, fun hmem => ?_⟩
    rcases mem_or_eq_of_mem_set hmem with hmem | heq
    · exact h.paid hmem
    · exact absurd (hpassed heq.symm) (not_le.mpr h.positive)
  | tick elapsed =>
    obtain ⟨-, rfl⟩ := tick_cases hstep
    exact ⟨h.positive, h.paid⟩
  | seeStop =>
    obtain ⟨-, rfl⟩ := seeStop_cases hstep
    exact ⟨h.positive, h.paid⟩
  | refill =>
    have hframe := refillStep_frame hstep
    refine ⟨hframe.target ▸ h.positive, fun hmem => ?_⟩
    rcases hframe.calls with hcalls | hcalls
    · exact h.paid (hcalls ▸ hmem)
    · rw [hcalls] at hmem
      obtain ⟨pc, hpc, hwoken⟩ := mem_map.mp hmem
      exact h.paid (AcquirePc.woken_passed hwoken ▸ hpc)
  | setQPS target =>
    cases hstep
    exact ⟨ha target rfl, h.paid⟩
  | stop =>
    cases hstep
    exact ⟨h.positive, h.paid⟩

/-- In a limited controller a call that has returned was granted a token. -/
theorem QPSController.Limited.returned_le (h : q.Limited) :
    q.returned ≤ q.granted := by
  refine countP_mono_left fun pc hpc hover => ?_
  cases pc with
  | returned => rfl
  | passed => exact absurd hpc h.paid
  | _ => cases hover

/-- The bucket of every reachable state is sound, whatever the targets are. -/
theorem bucket_sound {target : ℤ} (as : List QpsAction)
    (hrun : run QPSController.step (newQPSController target) as = some q) :
    q.bucket.Sound tokenScale tokenScale := by
  have hstep : ∀ (q : QPSController) a q', q.Refilling ∧ q.bucket.Sound tokenScale tokenScale →
      q.step a = some q' → q'.Refilling ∧ q'.bucket.Sound tokenScale tokenScale :=
    fun _ _ _ h hq => ⟨h.1.step hq, h.2.step (by decide) (step_bucket h.1 hq)⟩
  have hinit : (newQPSController target).bucket.Sound tokenScale tokenScale :=
    ⟨rfl, (by decide : (0 : ℤ) ≤ tokenScale), le_rfl⟩
  have hrefilling : (newQPSController target).Refilling := fun _ _ hpc => nomatch hpc
  exact (run_inv_all hstep as ⟨hrefilling, hinit⟩ hrun).2

/-- **The token bucket never over-admits.** For any number of concurrent calls, any positive rates
and any interleaving, the calls that have returned are covered by the initial token and what the
refiller has added, and every token is accounted for. -/
theorem never_over_admits {target : ℤ} {q : QPSController} (as : List QpsAction)
    (htarget : 0 < target)
    (hpos : Along QPSController.step KeepsPositive (newQPSController target) as)
    (hrun : run QPSController.step (newQPSController target) as = some q) :
    tokenScale * q.returned ≤ tokenScale + q.added ∧
      q.tokens = tokenScale + q.added - q.clamped - tokenScale * (q.granted + q.inFlight) := by
  have hsound := bucket_sound as hrun
  have hinit : (newQPSController target).Limited := ⟨htarget, not_mem_nil⟩
  have hlimited : q.Limited :=
    run_inv (fun _ _ _ h ha hq => QPSController.Limited.step h ha hq) as hinit hpos hrun
  refine ⟨?_, hsound.account⟩
  calc tokenScale * (q.returned : ℤ)
      ≤ tokenScale * q.granted :=
        mul_le_mul_of_nonneg_left (Nat.cast_le.mpr hlimited.returned_le) (by decide)
    _ ≤ tokenScale + q.added := hsound.granted_le

/-- One call takes the initial token, and a second one parks. -/
def onePark : List QpsAction :=
  [.acquire, .acquire, .advance 0, .advance 1, .advance 0, .advance 1, .advance 0, .advance 1,
    .advance 1, .advance 1, .advance 1, .advance 1]

/-- The parked call is served by the refiller. -/
def servedInTurn : List QpsAction :=
  onePark ++ [.tick 3000000000, .refill, .refill, .refill, .refill, .advance 1, .advance 1,
    .advance 1, .advance 1, .advance 1]

theorem served_in_turn_admitted :
    ∃ q, run QPSController.step (newQPSController 1000000) servedInTurn = some q ∧ q.returned = 2 ∧
      tokenScale * q.returned ≤ tokenScale + q.added ∧
      q.tokens = tokenScale + q.added - q.clamped - tokenScale * (q.granted + q.inFlight) := by
  have hserved : (run QPSController.step (newQPSController 1000000) servedInTurn).map
      QPSController.returned = some 2 := by decide +kernel
  obtain ⟨q, hrun, hreturned⟩ := Option.map_eq_some_iff.mp hserved
  refine ⟨q, hrun, hreturned, never_over_admits servedInTurn (by decide) ?_ hrun⟩
  refine along_of_forall servedInTurn _ fun a ha _ target he => ?_
  subst he
  simp [servedInTurn, onePark] at ha

end Robot.Case
