import Robot.Case.QpsController

/-!
# Calls of `Acquire` that wait

A call that finds no token parks on the condition variable, and only a broadcast of the refiller
gets it out. The refiller broadcasts after it has added tokens, and once more when it stops. So a
parked call hangs on two settings that its own wait condition does not look at: the target, since
a target of which a millisecond is worth nothing (zero or below, or less than a thousandth of a call
a second) makes the refiller skip both the addition and the broadcast, and `stopCh`, since the last
broadcast adds nothing and the calls it wakes park again for ever.

`waiting_calls_return` says that these two are all: as long as `Stop` and a `SetQPS` to such a target
are called only while no call is under way, and no call begins with one or after `Stop`, every
waiting call can still return, by steps of the calls and of the refiller alone, with ticks that come
on time. The run is the obvious one: let the refiller finish what it is doing, let the holder of the
mutex go on until it releases it, let the refiller add tokens round by round, and then let the call
itself go.

In the other direction `Abandoned.step` shows that nothing ever gets a parked call out once the
refiller has exited, whatever is called, and `Ignored.ownStep` the same for a target of which a tick
is worth nothing, until somebody calls `SetQPS` or `Stop`.
-/

namespace Robot.Case

open Robot.Lib
open QPSController

/-! ## Returning -/

/-- The steps of the calls and of the refiller, with ticks that come on time; the others are calls
from outside. -/
def QpsAction.own : QpsAction → Bool
  | .tick elapsed => decide (elapsed = refillerInterval)
  | .advance _ | .seeStop | .refill => true
  | .acquire | .setQPS _ | .stop => false

/-- A target that the refiller serves: a tick that comes on time adds something, and the products are
`int64`s. It is a rate between 0.001 and 184467 calls a second. -/
def Refills (target : ℤ) : Prop :=
  second ≤ target * refillerInterval ∧ target * burstWindow < 2 ^ 63

instance (target : ℤ) : Decidable (Refills target) := inferInstanceAs (Decidable (_ ∧ _))

theorem Refills.pos {target : ℤ} (h : Refills target) : 0 < target := by
  have := h.1
  unfold second refillerInterval at this
  omega

/-- What a tick that comes on time adds. -/
theorem Refills.one_le {target : ℤ} (h : Refills target) : 1 ≤ refillOf target refillerInterval := by
  unfold refillOf
  rw [Int.tdiv_eq_ediv_of_nonneg (le_trans (by decide) h.1)]
  exact (Int.le_ediv_iff_mul_le (by decide)).mpr (by rw [one_mul]; exact h.1)

/-- Inside the loop around `Wait`. -/
def AcquirePc.waits : AcquirePc → Bool
  | .checking | .enlisting | .parked | .relocking => true
  | _ => false

/-- Past the load of the target and not back yet. -/
def AcquirePc.underWay : AcquirePc → Bool
  | .entered | .returned | .passed => false
  | _ => true

/-- With the mutex. -/
def AcquirePc.holds : AcquirePc → Bool
  | .checking | .enlisting | .unlocking => true
  | _ => false

namespace QPSController

def ownStep (q : QPSController) (a : QpsAction) : Option QPSController :=
  if a.own then q.step a else none

variable {q q' : QPSController} {i j : ℕ} {pc pc' : AcquirePc} {target : ℤ}

theorem step_of_ownStep {a : QpsAction} (h : q.ownStep a = some q') :
    q.step a = some q' := by
  unfold ownStep at h
  split_ifs at h
  exact h

/-- Some run of the system alone makes call `i` return. -/
def CanReturn (q : QPSController) (i : ℕ) : Prop :=
  ∃ q' pc, Reaches ownStep q q' ∧ q'.calls[i]? = some pc ∧ pc.over = true

/-- No call is stranded in its wait loop. -/
def NoneStranded (q : QPSController) : Prop :=
  ∀ i pc, q.calls[i]? = some pc → pc.waits = true → q.CanReturn i

/-- No call is under way. -/
def Quiet (q : QPSController) : Prop := ∀ pc ∈ q.calls, pc.underWay = false

theorem CanReturn.of_reaches (h : Reaches ownStep q q')
    (hreturn : q'.CanReturn i) : q.CanReturn i := by
  obtain ⟨q'', pc, hreach, hpc, hover⟩ := hreturn
  exact ⟨q'', pc, h.trans hreach, hpc, hover⟩

theorem reaches_refill (h : q.refillStep q.refiller = some q') :
    Reaches ownStep q q' :=
  (Reaches.refl q').head .refill h

theorem reaches_advance
    (hpc : q.calls[i]? = some pc) (h : q.acquireStep i pc = some q') : Reaches ownStep q q' :=
  (Reaches.refl q').head (.advance i) (Option.bind_eq_some_iff.mpr ⟨pc, hpc, h⟩)

theorem CanReturn.advance
    (hpc : q.calls[j]? = some pc) (h : q.acquireStep j pc = some q') (hreturn : q'.CanReturn i) :
    q.CanReturn i :=
  hreturn.of_reaches (reaches_advance hpc h)

theorem getElem?_goto (h : q.calls[i]? = some pc)
    (pc' : AcquirePc) : (q.goto i pc').calls[i]? = some pc' := by
  obtain ⟨hi, -⟩ := List.getElem?_eq_some_iff.mp h
  exact List.getElem?_set_self hi

theorem getElem?_goto_of_ne (h : i ≠ j) (pc' : AcquirePc) :
    (q.goto i pc').calls[j]? = q.calls[j]? :=
  List.getElem?_set_ne h

/-! ### The call by itself, when there is a token -/

theorem canReturn_of_testing {cur : ℤ}
    (h : q.calls[i]? = some (.testing cur)) (hcur : 0 ≤ cur) : q.CanReturn i := by
  refine CanReturn.advance h rfl ?_
  rw [if_pos hcur]
  exact ⟨_, .returned, Reaches.refl _, getElem?_goto h _, rfl⟩

theorem canReturn_of_subtracting (h : q.calls[i]? = some .subtracting)
    (htokens : tokenScale ≤ q.tokens) : q.CanReturn i :=
  CanReturn.advance h rfl (canReturn_of_testing (getElem?_goto h _) (sub_nonneg.mpr htokens))

/-- The wait condition, when there is a token. -/
theorem check_passes (htokens : tokenScale ≤ q.tokens) :
    q.acquireStep i .checking = some (q.goto i .unlocking) := by
  dsimp only [acquireStep]
  rw [if_neg (not_lt.mpr htokens)]

/-- From the mutex on: lock, look, unlock, subtract. -/
theorem canReturn_of_locking
    (h : q.calls[i]? = some .locking ∨ q.calls[i]? = some .relocking) (hmu : q.mu = none)
    (htokens : tokenScale ≤ q.tokens) : q.CanReturn i := by
  have hlocked : ({ q with mu := some i }.goto i .checking).CanReturn i := by
    have hchecking : ({ q with mu := some i }.goto i .checking).calls[i]? = some .checking := by
      rcases h with h | h <;> exact getElem?_goto h _
    have hunlocking := getElem?_goto hchecking .unlocking
    refine CanReturn.advance hchecking (check_passes htokens) ?_
    exact CanReturn.advance hunlocking rfl
      (canReturn_of_subtracting (getElem?_goto hunlocking _) htokens)
  rcases h with h | h
  · exact CanReturn.advance h (if_pos hmu) hlocked
  · exact CanReturn.advance h (if_pos hmu) hlocked

theorem canReturn_of_rollingBack (h : q.calls[i]? = some .rollingBack)
    (hmu : q.mu = none) (htokens : 0 ≤ q.tokens) : q.CanReturn i :=
  CanReturn.advance h rfl (canReturn_of_locking (.inl (getElem?_goto h _)) hmu
    (le_add_of_nonneg_left htokens))

/-- **A call that is neither parked nor holds the mutex returns** when the mutex is free and there
is a token. -/
theorem canReturn_of_tokens
    (hpc : q.calls[i]? = some pc) (hunder : pc.underWay = true) (hparked : pc ≠ .parked)
    (hholds : pc.holds = false) (hmu : q.mu = none) (htokens : tokenScale ≤ q.tokens) :
    q.CanReturn i := by
  cases pc with
  | entered | returned | passed => cases hunder
  | subtracting => exact canReturn_of_subtracting hpc htokens
  | testing cur =>
    by_cases hcur : 0 ≤ cur
    · exact canReturn_of_testing hpc hcur
    · refine CanReturn.advance hpc rfl ?_
      rw [if_neg hcur]
      exact canReturn_of_rollingBack (getElem?_goto hpc _) hmu (le_trans (by decide) htokens)
  | rollingBack => exact canReturn_of_rollingBack hpc hmu (le_trans (by decide) htokens)
  | locking => exact canReturn_of_locking (.inl hpc) hmu htokens
  | relocking => exact canReturn_of_locking (.inr hpc) hmu htokens
  | parked => exact absurd rfl hparked
  | checking | enlisting | unlocking => cases hholds

/-! ### Until there is a token -/

/-- Waking twice is waking once. -/
theorem map_woken_woken (calls : List AcquirePc) :
    (calls.map AcquirePc.woken).map AcquirePc.woken = calls.map AcquirePc.woken := by
  rw [List.map_map]
  refine List.map_congr_left fun pc _ => ?_
  cases pc <;> rfl

theorem Refreshed.refl (q : QPSController) : Refreshed q q := ⟨rfl, rfl, rfl, .inl rfl⟩

theorem Refreshed.trans {q'' : QPSController} (h : Refreshed q q') (h' : Refreshed q' q'') :
    Refreshed q q'' := by
  refine ⟨h'.target.trans h.target, h'.stopped.trans h.stopped, h'.mu.trans h.mu, ?_⟩
  rcases h'.calls with hc' | hc'
  · rw [hc']
    exact h.calls
  · right
    rcases h.calls with hc | hc
    · rw [hc', hc]
    · rw [hc', hc, map_woken_woken]

/-- The refiller runs, and its rounds add tokens. -/
structure Serving (q : QPSController) : Prop where
  refills : Refills q.targetQPS
  running : q.refiller ≠ .stopping ∧ q.refiller ≠ .exited

/-- Some run of the refiller alone takes it back to its `select`. -/
def Settles (q : QPSController) : Prop :=
  ∃ q', Reaches ownStep q q' ∧ Refreshed q q' ∧ q'.refiller = .selecting

theorem Settles.refill (h : q.refillStep q.refiller = some q') (hs : q'.Settles) : q.Settles := by
  obtain ⟨q'', hreach, hframe, hsel⟩ := hs
  exact ⟨q'', (reaches_refill h).trans hreach, (refillStep_frame h).trans hframe, hsel⟩

theorem settles_of_selecting (h : q.refiller = .selecting) : q.Settles :=
  ⟨q, Reaches.refl q, Refreshed.refl q, h⟩

theorem settles_of_broadcasting (h : q.refiller = .broadcasting) : q.Settles :=
  Settles.refill (by rw [h]; rfl) (settles_of_selecting rfl)

theorem settles_of_clamping {cur : ℤ} (h : q.refiller = .clamping target cur) : q.Settles := by
  by_cases hcap : burstCap target < cur
  · exact Settles.refill (by rw [h]; exact if_pos hcap) (settles_of_broadcasting rfl)
  · exact Settles.refill (by rw [h]; exact if_neg hcap) (settles_of_broadcasting rfl)

theorem settles_of_adding {add : ℤ} (h : q.refiller = .adding target add) : q.Settles :=
  Settles.refill (by rw [h]; rfl) (settles_of_clamping rfl)

theorem Serving.settles (h : q.Serving) : q.Settles := by
  have hpos := h.refills.pos
  cases hpc : q.refiller with
  | selecting => exact settles_of_selecting hpc
  | loading elapsed =>
    by_cases hadd : refillOf q.targetQPS elapsed ≤ 0
    · exact Settles.refill
        (by rw [hpc]; exact (if_neg (not_le.mpr hpos)).trans (if_pos hadd))
        (settles_of_selecting rfl)
    · exact Settles.refill
        (by rw [hpc]; exact (if_neg (not_le.mpr hpos)).trans (if_neg hadd))
        (settles_of_adding rfl)
  | adding target add => exact settles_of_adding hpc
  | clamping target cur => exact settles_of_clamping hpc
  | broadcasting => exact settles_of_broadcasting hpc
  | stopping => exact absurd hpc h.running.1
  | exited => exact absurd hpc h.running.2

theorem tokenScale_le_burstCap (target : ℤ) : tokenScale ≤ burstCap target := by
  have hmin : tokenScale ≤ minBurstTokens := by decide
  unfold burstCap
  split_ifs with h
  · exact hmin
  · exact hmin.trans (not_lt.mp h)

/-- The refiller is back in its `select` with the same settings, and has woken the parked calls. -/
structure Rounded (q q' : QPSController) : Prop where
  reaches : Reaches ownStep q q'
  selecting : q'.refiller = .selecting
  target : q'.targetQPS = q.targetQPS
  mu : q'.mu = q.mu
  calls : q'.calls = q.calls.map AcquirePc.woken

theorem Rounded.trans {q'' : QPSController} (h : Rounded q q') (h' : Rounded q' q'') :
    Rounded q q'' where
  reaches := h.reaches.trans h'.reaches
  selecting := h'.selecting
  target := h'.target.trans h.target
  mu := h'.mu.trans h.mu
  calls := by rw [h'.calls, h.calls, map_woken_woken]

/-- The end of a round: what is not above the cap stays. -/
theorem rounded_of_clamping (h : q.refiller = .clamping target q.tokens) :
    ∃ q', Rounded q q' ∧ min tokenScale q.tokens ≤ q'.tokens := by
  by_cases hcap : burstCap target < q.tokens
  · have hstep := (congrArg q.refillStep h).trans (if_pos hcap)
    refine ⟨_, ⟨(reaches_refill hstep).trans (reaches_refill rfl), rfl, rfl, rfl, rfl⟩, ?_⟩
    show min tokenScale q.tokens ≤ q.tokens - (q.tokens - burstCap target)
    rw [sub_sub_cancel]
    exact (min_le_left _ _).trans (tokenScale_le_burstCap target)
  · have hstep := (congrArg q.refillStep h).trans (if_neg hcap)
    exact ⟨_, ⟨(reaches_refill hstep).trans (reaches_refill rfl), rfl, rfl, rfl, rfl⟩,
      min_le_right _ _⟩

/-- **A round of the refiller**, on time, adds something unless there is a token already. -/
theorem reaches_round (hsel : q.refiller = .selecting) (htarget : Refills q.targetQPS) :
    ∃ q', Rounded q q' ∧ min tokenScale (q.tokens + 1) ≤ q'.tokens := by
  have hadd := htarget.one_le
  have htick : Reaches ownStep q { q with refiller := .loading refillerInterval } :=
    (Reaches.refl _).head (.tick refillerInterval) (if_pos hsel)
  have hload : Reaches ownStep { q with refiller := .loading refillerInterval }
      { q with refiller := .adding q.targetQPS (refillOf q.targetQPS refillerInterval) } :=
    reaches_refill ((if_neg (not_le.mpr htarget.pos)).trans
      (if_neg (not_le.mpr (zero_lt_one.trans_le hadd))))
  obtain ⟨q', hround, htokens⟩ := rounded_of_clamping
    (q := { q with
      tokens := q.tokens + refillOf q.targetQPS refillerInterval
      added := q.added + refillOf q.targetQPS refillerInterval
      refiller := .clamping q.targetQPS (q.tokens + refillOf q.targetQPS refillerInterval) }) rfl
  have hreach := ((htick.trans hload).trans (reaches_refill rfl)).trans hround.reaches
  refine ⟨q', ⟨hreach, hround.selecting, hround.target, hround.mu, hround.calls⟩,
    le_trans (min_le_min_left _ ?_) htokens⟩
  exact add_le_add_right hadd q.tokens

/-- **Round by round there is a token**, and every parked call is woken. -/
theorem reaches_refilled : ∀ (n : ℕ) {q : QPSController}, q.refiller = .selecting →
    Refills q.targetQPS → tokenScale ≤ q.tokens + 1 + n →
    ∃ q', Rounded q q' ∧ tokenScale ≤ q'.tokens := by
  intro n
  induction n with
  | zero =>
    intro q hsel htarget hn
    obtain ⟨q', hround, htokens⟩ := reaches_round hsel htarget
    exact ⟨q', hround, (le_min le_rfl (by simpa using hn)).trans htokens⟩
  | succ n ih =>
    intro q hsel htarget hn
    obtain ⟨q₁, hround, htokens⟩ := reaches_round hsel htarget
    by_cases hdone : tokenScale ≤ q₁.tokens
    · exact ⟨q₁, hround, hdone⟩
    · -- short of a token, the round has added one unit at least
      rcases min_le_iff.mp htokens with h | h
      · exact absurd h hdone
      · obtain ⟨q', hround', hdone'⟩ := ih hround.selecting (hround.target ▸ htarget)
          (by push_cast at hn; linarith)
        exact ⟨q', hround.trans hround', hdone'⟩

/-! ### The mutex -/

/-- The mutex is held by the call that is between its lock and its unlock. -/
def Held (q : QPSController) : Prop :=
  ∀ j, q.mu = some j ↔ ∃ pc, q.calls[j]? = some pc ∧ pc.holds = true

/-- Call `i` is past the load of the target and not back yet. -/
def UnderWay (q : QPSController) (i : ℕ) : Prop :=
  ∃ pc, q.calls[i]? = some pc ∧ pc.underWay = true

/-- A property of positions that waking does not change. -/
theorem Refreshed.getElem? (h : Refreshed q q') {p : AcquirePc → Bool}
    (hp : p .parked = p .relocking) (j : ℕ) :
    (∃ pc, q'.calls[j]? = some pc ∧ p pc = true) ↔ ∃ pc, q.calls[j]? = some pc ∧ p pc = true := by
  have hwoken : ∀ pc : AcquirePc, p pc.woken = p pc := by
    intro pc
    cases pc with
    | parked => exact hp.symm
    | _ => rfl
  rcases h.calls with hcalls | hcalls
  · rw [hcalls]
  · rw [hcalls, List.getElem?_map]
    constructor
    · intro ⟨pc, hpc, hp⟩
      obtain ⟨pc₀, hpc₀, rfl⟩ := Option.map_eq_some_iff.mp hpc
      exact ⟨pc₀, hpc₀, (hwoken pc₀).symm.trans hp⟩
    · intro ⟨pc, hpc, hp⟩
      exact ⟨pc.woken, Option.map_eq_some_iff.mpr ⟨pc, hpc, rfl⟩, (hwoken pc).trans hp⟩

theorem Held.refreshed (h : q.Held) (hr : Refreshed q q') : q'.Held := by
  intro j
  rw [hr.mu, hr.getElem? rfl j]
  exact h j

theorem UnderWay.goto (hi : q.UnderWay i)
    (hj : ∃ pc₀, q.calls[j]? = some pc₀) (hpc : pc.underWay = true) : (q.goto j pc).UnderWay i := by
  by_cases hij : j = i
  · subst hij
    obtain ⟨pc₀, hpc₀⟩ := hj
    exact ⟨pc, getElem?_goto hpc₀ pc, hpc⟩
  · obtain ⟨pc', hpc', hunder⟩ := hi
    exact ⟨pc', (getElem?_goto_of_ne hij pc).trans hpc', hunder⟩

/-- A call moves while the mutex stays where it is. -/
theorem Held.goto (h : q.Held)
    (hpc : q.calls[i]? = some pc) (hsame : pc'.holds = pc.holds) : (q.goto i pc').Held := by
  intro j
  show q.mu = some j ↔ _
  rw [h j]
  by_cases hij : i = j
  · subst hij
    rw [getElem?_goto hpc, hpc]
    simp only [Option.some.injEq, exists_eq_left', hsame]
  · rw [getElem?_goto_of_ne hij]

/-- A call takes the free mutex. -/
theorem Held.lock (h : q.Held) (hmu : q.mu = none)
    (hpc : q.calls[i]? = some pc) (hholds : pc'.holds = true) :
    ({ q with mu := some i }.goto i pc').Held := by
  intro j
  show some i = some j ↔ _
  by_cases hij : i = j
  · subst hij
    exact ⟨fun _ => ⟨pc', getElem?_goto hpc pc', hholds⟩, fun _ => rfl⟩
  · rw [getElem?_goto_of_ne hij]
    refine ⟨fun he => absurd (Option.some.inj he) hij, fun hj => ?_⟩
    have hheld := (h j).mpr hj
    rw [hmu] at hheld
    cases hheld

/-- The holder releases the mutex. -/
theorem Held.unlock (h : q.Held)
    (hpc : q.calls[i]? = some pc) (hholds : pc.holds = true) (hfree : pc'.holds = false) :
    ({ q with mu := none }.goto i pc').Held := by
  intro j
  refine ⟨nofun, fun ⟨pcj, hpcj, hj⟩ => ?_⟩
  by_cases hij : i = j
  · subst hij
    have hself := getElem?_goto (q := { q with mu := none }) hpc pc'
    rw [hself] at hpcj
    cases hpcj
    rw [hfree] at hj
    cases hj
  · rw [getElem?_goto_of_ne hij] at hpcj
    have hmui := (h i).mpr ⟨pc, hpc, hholds⟩
    rw [(h j).mpr ⟨pcj, hpcj, hj⟩] at hmui
    exact absurd (Option.some.inj hmui).symm hij

theorem Held.acquireStep (h : q.Held)
    (hpc : q.calls[i]? = some pc) (hstep : q.acquireStep i pc = some q') : q'.Held := by
  cases pc with
  | entered | testing | checking =>
    cases hstep
    refine h.goto hpc ?_
    split_ifs <;> rfl
  | subtracting | rollingBack =>
    cases hstep
    exact Held.goto (q := { q with tokens := _ }) h hpc rfl
  | locking | relocking =>
    dsimp only [QPSController.acquireStep] at hstep
    split_ifs at hstep with hmu
    cases hstep
    exact h.lock hmu hpc rfl
  | enlisting | unlocking =>
    cases hstep
    exact h.unlock hpc rfl rfl
  | parked | returned | passed => cases hstep

/-- A new call is at the load of the target. -/
theorem getElem?_acquire {p : AcquirePc → Bool} (hp : p .entered = false) (j : ℕ) :
    (∃ pc, (q.calls ++ [.entered])[j]? = some pc ∧ p pc = true) ↔
      ∃ pc, q.calls[j]? = some pc ∧ p pc = true := by
  rcases lt_or_ge j q.calls.length with hj | hj
  · rw [List.getElem?_append_left hj]
  · rw [List.getElem?_append_right hj, List.getElem?_eq_none hj]
    refine ⟨fun ⟨pc, hpc, hpp⟩ => ?_, nofun⟩
    rw [List.mem_singleton.mp (List.mem_of_getElem? hpc), hp] at hpp
    cases hpp

theorem Held.step {a : QpsAction} (h : q.Held) (hstep : q.step a = some q') : q'.Held := by
  cases a with
  | acquire =>
    cases hstep
    intro j
    rw [getElem?_acquire rfl]
    exact h j
  | advance i =>
    obtain ⟨pc, hpc, hq⟩ := Option.bind_eq_some_iff.mp hstep
    exact h.acquireStep hpc hq
  | tick elapsed =>
    obtain ⟨-, rfl⟩ := tick_cases hstep
    exact h
  | seeStop =>
    obtain ⟨-, rfl⟩ := seeStop_cases hstep
    exact h
  | refill => exact h.refreshed (refillStep_frame hstep)
  | setQPS | stop =>
    cases hstep
    exact h

theorem Held.reaches (h : q.Held) (hreach : Reaches ownStep q q') :
    q'.Held := by
  obtain ⟨as, hrun⟩ := hreach
  exact run_inv_all (fun _ _ _ hq hstep => Held.step hq (step_of_ownStep hstep)) as h hrun

/-- The holder of the mutex goes on until it has released it. -/
theorem reaches_unlocked (h : q.Held) (hi : q.UnderWay i) :
    ∃ q', Reaches ownStep q q' ∧ q'.mu = none ∧ q'.UnderWay i ∧ q'.targetQPS = q.targetQPS ∧
      q'.refiller = q.refiller := by
  cases hmu : q.mu with
  | none => exact ⟨q, Reaches.refl q, hmu, hi, rfl, rfl⟩
  | some j =>
    have hrelease : ∀ {q : QPSController}, q.calls[j]? = some .enlisting ∨
        q.calls[j]? = some .unlocking → q.UnderWay i → ∃ q', Reaches ownStep q q' ∧ q'.mu = none ∧
        q'.UnderWay i ∧ q'.targetQPS = q.targetQPS ∧ q'.refiller = q.refiller := by
      intro q hj hi
      rcases hj with hj | hj
      · exact ⟨_, reaches_advance hj rfl, rfl, UnderWay.goto hi ⟨_, hj⟩ rfl, rfl, rfl⟩
      · exact ⟨_, reaches_advance hj rfl, rfl, UnderWay.goto hi ⟨_, hj⟩ rfl, rfl, rfl⟩
    obtain ⟨pc, hpc, hholds⟩ := (h j).mp hmu
    cases pc with
    | enlisting => exact hrelease (.inl hpc) hi
    | unlocking => exact hrelease (.inr hpc) hi
    | checking =>
      by_cases htokens : q.tokens < tokenScale
      · have hstep : q.acquireStep j .checking = some (q.goto j .enlisting) := by
          dsimp only [QPSController.acquireStep]
          rw [if_pos htokens]
        obtain ⟨q', hreach, hrest⟩ :=
          hrelease (.inl (getElem?_goto hpc .enlisting)) (hi.goto ⟨_, hpc⟩ rfl)
        exact ⟨q', (reaches_advance hpc hstep).trans hreach, hrest⟩
      · obtain ⟨q', hreach, hrest⟩ :=
          hrelease (.inr (getElem?_goto hpc .unlocking)) (hi.goto ⟨_, hpc⟩ rfl)
        exact ⟨q', (reaches_advance hpc (check_passes (not_lt.mp htokens))).trans hreach, hrest⟩
    | _ => cases hholds

/-- **A call under way can return** while the refiller serves it. -/
theorem Serving.canReturn (h : q.Serving) (hheld : q.Held) (hi : q.UnderWay i) : q.CanReturn i := by
  -- the refiller finishes its round,
  obtain ⟨q₁, hreach₁, hframe, hsel⟩ := h.settles
  refine CanReturn.of_reaches hreach₁ ?_
  -- the mutex comes free,
  obtain ⟨q₂, hreach₂, hmu, hi₂, htarget, hrefiller⟩ :=
    reaches_unlocked (hheld.refreshed hframe) ((hframe.getElem? rfl i).mpr hi)
  refine CanReturn.of_reaches hreach₂ ?_
  have hheld₂ : q₂.Held := (hheld.refreshed hframe).reaches hreach₂
  -- and further rounds make a token and wake the call
  obtain ⟨q₃, hround, htokens⟩ := reaches_refilled (tokenScale - q₂.tokens).toNat
    (hrefiller.trans hsel) (by rw [htarget, hframe.target]; exact h.refills) (by omega)
  refine CanReturn.of_reaches hround.reaches ?_
  obtain ⟨pc, hpc, hunder⟩ := hi₂
  have hfree : pc.holds = false := by
    refine Bool.eq_false_iff.mpr fun hholds => ?_
    have := (hheld₂ i).mpr ⟨pc, hpc, hholds⟩
    rw [hmu] at this
    cases this
  have hpc₃ : q₃.calls[i]? = some pc.woken := by
    rw [hround.calls, List.getElem?_map, hpc]
    rfl
  refine canReturn_of_tokens hpc₃ ?_ ?_ ?_ (hround.mu.trans hmu) htokens
  · cases pc <;> first | rfl | exact hunder
  · cases pc <;> exact nofun
  · cases pc <;> first | rfl | exact hfree

/-! ## Runs -/

/-- While a call is under way the target is served and nobody has called `Stop`. -/
structure Attended (q : QPSController) : Prop where
  held : q.Held
  stops : q.refiller = .stopping ∨ q.refiller = .exited → q.stopped = true
  served : ∀ i, q.UnderWay i → Refills q.targetQPS ∧ q.stopped = false

theorem Attended.canReturn (h : q.Attended) (hi : q.UnderWay i) : q.CanReturn i := by
  obtain ⟨hrefills, hstopped⟩ := h.served i hi
  have hrunning : ¬ (q.refiller = .stopping ∨ q.refiller = .exited) := by
    intro hgone
    rw [h.stops hgone] at hstopped
    cases hstopped
  exact Serving.canReturn ⟨hrefills, not_or.mp hrunning⟩ h.held hi

theorem Attended.noneStranded (h : q.Attended) : q.NoneStranded := by
  intro i pc hpc hwaits
  refine h.canReturn ⟨pc, hpc, ?_⟩
  cases pc <;> first | rfl | exact hwaits

theorem not_underWay_of_quiet (h : q.Quiet) (i : ℕ) : ¬ q.UnderWay i := by
  intro ⟨pc, hpc, hunder⟩
  rw [h pc (List.mem_of_getElem? hpc)] at hunder
  cases hunder

/-- A step of call `i` that begins its way finds a limit. -/
theorem acquireStep_underWay
    (hpc : q.calls[i]? = some pc) (hstep : q.acquireStep i pc = some q') (hi : q'.UnderWay i) :
    q.UnderWay i ∨ pc = .entered ∧ 0 < q.targetQPS := by
  cases pc with
  | entered =>
    cases hstep
    obtain ⟨pc', hpc', hunder⟩ := hi
    rw [getElem?_goto hpc] at hpc'
    by_cases htarget : q.targetQPS ≤ 0
    · rw [if_pos htarget] at hpc'
      cases hpc'
      cases hunder
    · exact .inr ⟨rfl, not_le.mp htarget⟩
  | returned | passed => cases hstep
  | _ => exact .inl ⟨_, hpc, rfl⟩

end QPSController

/-- The calls from outside that respect the calls under way: `Stop` and a `SetQPS` to a target that
is not served come while there are none, and no call begins with such a limit or after `Stop`. -/
def Considerate (q : QPSController) : QpsAction → Prop
  | .setQPS target => Refills target ∨ q.Quiet
  | .stop => q.Quiet
  | .advance i => q.calls[i]? = some .entered →
      q.targetQPS ≤ 0 ∨ Refills q.targetQPS ∧ q.stopped = false
  | .acquire | .tick _ | .seeStop | .refill => True

namespace QPSController

variable {q q' : QPSController}

theorem Attended.advance {i : ℕ} {pc : AcquirePc} (h : q.Attended)
    (ha : Considerate q (.advance i)) (hpc : q.calls[i]? = some pc)
    (hstep : q.acquireStep i pc = some q') : q'.Attended := by
  have hheld := h.held.acquireStep hpc hstep
  have hbegins : q'.UnderWay i → Refills q.targetQPS ∧ q.stopped = false := by
    intro hi
    rcases acquireStep_underWay hpc hstep hi with hi | ⟨rfl, hpos⟩
    · exact h.served i hi
    · exact (ha hpc).resolve_left (not_le.mpr hpos)
  obtain ⟨tokens, mu, pc', rfl, -⟩ := acquireStep_frame hstep
  refine ⟨hheld, h.stops, fun j hj => ?_⟩
  by_cases hij : i = j
  · subst hij
    exact hbegins hj
  · obtain ⟨pcj, hpcj, hunder⟩ := hj
    exact h.served j ⟨pcj, (getElem?_goto_of_ne hij pc').symm.trans hpcj, hunder⟩

/-- The refiller goes to its last broadcast by `seeStop` only. -/
theorem refillStep_gone {pc : RefillerPc} (hstep : q.refillStep pc = some q')
    (h : q'.refiller = .stopping ∨ q'.refiller = .exited) : pc = .stopping := by
  cases pc with
  | stopping => rfl
  | loading | clamping =>
    dsimp only [refillStep] at hstep
    split_ifs at hstep <;> cases hstep <;> rcases h with h | h <;> cases h
  | adding | broadcasting =>
    cases hstep
    rcases h with h | h <;> cases h
  | selecting | exited => cases hstep

theorem Attended.step {a : QpsAction} (h : q.Attended)
    (ha : Considerate q a) (hstep : q.step a = some q') : q'.Attended := by
  cases a with
  | acquire =>
    have hheld := h.held.step hstep
    cases hstep
    exact ⟨hheld, h.stops, fun i hi => h.served i ((getElem?_acquire rfl i).mp hi)⟩
  | advance i =>
    obtain ⟨pc, hpc, hq⟩ := Option.bind_eq_some_iff.mp hstep
    exact h.advance ha hpc hq
  | tick elapsed =>
    obtain ⟨-, rfl⟩ := tick_cases hstep
    exact ⟨h.held, fun hgone => (by rcases hgone with hgone | hgone <;> cases hgone), h.served⟩
  | seeStop =>
    obtain ⟨hsel, rfl⟩ := seeStop_cases hstep
    exact ⟨h.held, fun _ => hsel.2, h.served⟩
  | refill =>
    have hframe := refillStep_frame hstep
    refine ⟨h.held.refreshed hframe, fun hgone => ?_, fun i hi => ?_⟩
    · rw [hframe.stopped]
      exact h.stops (.inl (refillStep_gone hstep hgone))
    · rw [hframe.target, hframe.stopped]
      exact h.served i ((hframe.getElem? rfl i).mp hi)
  | setQPS target =>
    cases hstep
    refine ⟨h.held, h.stops, fun i hi => ⟨?_, (h.served i hi).2⟩⟩
    exact ha.resolve_right fun hquiet => not_underWay_of_quiet hquiet i hi
  | stop =>
    cases hstep
    exact ⟨h.held, fun _ => rfl, fun i hi => absurd hi (not_underWay_of_quiet ha i)⟩

theorem attended_init (target : ℤ) : (newQPSController target).Attended where
  held _ := ⟨nofun, nofun⟩
  stops := nofun
  served _ := nofun

end QPSController

/-- **No waiting call is stranded** in a run whose calls from outside are considerate. -/
theorem waiting_calls_return (target : ℤ) (as : List QpsAction)
    (h : Along QPSController.step Considerate (newQPSController target) as) :
    Throughout QPSController.step NoneStranded (newQPSController target) as :=
  throughout_of_inv (fun _ hq => Attended.noneStranded hq) (fun _ _ _ hq ha hstep => hq.step ha hstep)
    as (attended_init target) h

instance QPSController.Quiet.decidable (q : QPSController) : Decidable q.Quiet :=
  inferInstanceAs (Decidable (∀ pc ∈ q.calls, pc.underWay = false))

instance Considerate.decidable (q : QPSController) : ∀ a, Decidable (Considerate q a)
  | .setQPS target => inferInstanceAs (Decidable (Refills target ∨ q.Quiet))
  | .stop => inferInstanceAs (Decidable q.Quiet)
  | .advance i => inferInstanceAs
      (Decidable (q.calls[i]? = some .entered →
        q.targetQPS ≤ 0 ∨ Refills q.targetQPS ∧ q.stopped = false))
  | .acquire | .tick _ | .seeStop | .refill => inferInstanceAs (Decidable True)

theorem served_in_turn_return :
    Throughout QPSController.step NoneStranded (newQPSController 1000000) (servedInTurn ++ [.stop]) :=
  waiting_calls_return 1000000 (servedInTurn ++ [.stop]) (by decide +kernel)

/-! ## Stranded calls -/

namespace QPSController

variable {q q' : QPSController} {i : ℕ}

/-- A parked call has no step of its own. -/
theorem parked_advance {j : ℕ} (h : q.calls[i]? = some .parked)
    (hstep : q.step (.advance j) = some q') : q'.calls[i]? = some .parked := by
  obtain ⟨pc, hpc, hq⟩ := Option.bind_eq_some_iff.mp hstep
  by_cases hij : j = i
  · subst hij
    rw [h] at hpc
    cases hpc
    cases hq
  · obtain ⟨tokens, mu, pc', rfl, -⟩ := acquireStep_frame hq
    exact (getElem?_goto_of_ne hij pc').trans h

/-- A call is parked and the refiller is gone. -/
structure Abandoned (q : QPSController) (i : ℕ) : Prop where
  exited : q.refiller = .exited
  parked : q.calls[i]? = some .parked

/-- **Nothing gets an abandoned call out**, whatever is called. -/
theorem Abandoned.step {a : QpsAction} (h : q.Abandoned i)
    (hstep : q.step a = some q') : q'.Abandoned i := by
  cases a with
  | acquire =>
    cases hstep
    exact ⟨h.exited, (List.getElem?_append_left (List.getElem?_eq_some_iff.mp h.parked).1).trans h.parked⟩
  | advance j =>
    have hparked := parked_advance h.parked hstep
    obtain ⟨tokens, mu, pc', rfl, -⟩ := advance_frame hstep
    exact ⟨h.exited, hparked⟩
  | tick elapsed => exact nomatch h.exited.symm.trans (tick_cases hstep).1
  | seeStop => exact nomatch h.exited.symm.trans (seeStop_cases hstep).1.1
  | refill =>
    dsimp only [QPSController.step] at hstep
    rw [h.exited] at hstep
    cases hstep
  | setQPS | stop =>
    cases hstep
    exact ⟨h.exited, h.parked⟩

/-- A call is parked, a tick is worth nothing, and the refiller has nothing to announce. -/
structure Ignored (q : QPSController) (i : ℕ) : Prop where
  nothing : refillOf q.targetQPS refillerInterval ≤ 0
  stopped : q.stopped = false
  refiller : q.refiller = .selecting ∨ q.refiller = .loading refillerInterval
  parked : q.calls[i]? = some .parked

/-- **The system alone does not get an ignored call out.** -/
theorem Ignored.ownStep {a : QpsAction} (h : q.Ignored i)
    (hstep : q.ownStep a = some q') : q'.Ignored i := by
  cases a with
  | acquire | setQPS | stop => cases hstep
  | advance j =>
    have hparked := parked_advance h.parked hstep
    obtain ⟨tokens, mu, pc', rfl, -⟩ := advance_frame hstep
    exact ⟨h.nothing, h.stopped, h.refiller, hparked⟩
  | tick elapsed =>
    obtain ⟨-, rfl⟩ := tick_cases (step_of_ownStep hstep)
    refine ⟨h.nothing, h.stopped, .inr ?_, h.parked⟩
    unfold QPSController.ownStep at hstep
    split_ifs at hstep with hown
    exact congrArg RefillerPc.loading (of_decide_eq_true hown)
  | seeStop =>
    exact nomatch h.stopped.symm.trans (seeStop_cases hstep).1.2
  | refill =>
    change q.refillStep q.refiller = some q' at hstep
    rcases h.refiller with hsel | hload
    · rw [hsel] at hstep
      cases hstep
    · rw [hload] at hstep
      dsimp only [refillStep] at hstep
      rw [if_pos h.nothing, ite_self] at hstep
      cases hstep
      exact ⟨h.nothing, h.stopped, .inl rfl, h.parked⟩

/-- A call that stays parked does not return. -/
theorem not_canReturn {P : QPSController → Prop}
    (hstep : ∀ q a q', P q → q.ownStep a = some q' → P q')
    (hparked : ∀ q, P q → q.calls[i]? = some .parked) (h : P q) : ¬ q.CanReturn i := by
  intro ⟨q', pc, ⟨as, hrun⟩, hpc, hover⟩
  rw [hparked q' (run_inv_all hstep as h hrun)] at hpc
  cases hpc
  cases hover

theorem Abandoned.stranded (h : q.Abandoned i) : ¬ q.CanReturn i :=
  not_canReturn (P := fun q => q.Abandoned i)
    (fun _ _ _ hq hstep => hq.step (step_of_ownStep hstep)) (fun _ hq => hq.parked) h

theorem Ignored.stranded (h : q.Ignored i) : ¬ q.CanReturn i :=
  not_canReturn (P := fun q => q.Ignored i)
    (fun _ _ _ hq hstep => hq.ownStep hstep) (fun _ hq => hq.parked) h

end QPSController

/-- `Stop` while a call waits: the last broadcast wakes it, it finds no token and parks again. -/
def stoppedOverWaiter : List QpsAction :=
  onePark ++ [.stop, .seeStop, .refill, .advance 1, .advance 1, .advance 1]

/-- `SetQPS(0)` while a call waits. -/
def unlimitedOverWaiter : List QpsAction := onePark ++ [.setQPS 0]

/-- A call that parks where a tick is worth nothing is ignored. -/
theorem not_noneStranded_of_ignored {target : ℤ} {as : List QpsAction}
    (hend : (run QPSController.step (newQPSController target) as).map
      (fun q => (decide (refillOf q.targetQPS refillerInterval ≤ 0), q.stopped, q.refiller, q.calls[1]?))
        = some (true, false, .selecting, some .parked)) :
    ∃ q, run QPSController.step (newQPSController target) as = some q ∧ ¬ q.NoneStranded := by
  obtain ⟨q, hrun, hq⟩ := Option.map_eq_some_iff.mp hend
  simp only [Prod.mk.injEq] at hq
  obtain ⟨hnothing, hstopped, hsel, hparked⟩ := hq
  have hignored : q.Ignored 1 := ⟨of_decide_eq_true hnothing, hstopped, .inl hsel, hparked⟩
  exact ⟨q, hrun, fun hnone => hignored.stranded (hnone 1 .parked hignored.parked rfl)⟩

/-- After `Stop` the waiting call never returns, whatever is called later; after `SetQPS(0)`, or with
a target of a millionth of a call a second, it does not return by itself. -/
theorem waiting_calls_stranded :
    (∃ q, run QPSController.step (newQPSController 1000000) stoppedOverWaiter = some q ∧
      ¬ q.NoneStranded ∧
      ∀ as q', run QPSController.step q as = some q' → q'.calls[1]? = some .parked) ∧
    (∃ q, run QPSController.step (newQPSController 1000000) unlimitedOverWaiter = some q ∧
      ¬ q.NoneStranded) ∧
    ∃ q, run QPSController.step (newQPSController 1) onePark = some q ∧ ¬ q.NoneStranded := by
  refine ⟨?_, not_noneStranded_of_ignored (by decide +kernel),
    not_noneStranded_of_ignored (by decide +kernel)⟩
  have hend : (run QPSController.step (newQPSController 1000000) stoppedOverWaiter).map
      (fun q => (q.refiller, q.calls[1]?)) = some (.exited, some .parked) := by decide +kernel
  obtain ⟨q, hrun, hq⟩ := Option.map_eq_some_iff.mp hend
  have habandoned : q.Abandoned 1 := ⟨congrArg Prod.fst hq, congrArg Prod.snd hq⟩
  refine ⟨q, hrun, fun hnone => habandoned.stranded (hnone 1 .parked habandoned.parked rfl), ?_⟩
  intro as q' has
  have hkept : ∀ (q : QPSController) a q', q.Abandoned 1 → q.step a = some q' → q'.Abandoned 1 :=
    fun _ _ _ h hstep => h.step hstep
  exact (run_inv_all hkept as habandoned has).parked

end Robot.Case
