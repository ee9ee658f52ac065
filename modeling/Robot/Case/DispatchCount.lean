import Robot.Lib.Ledger
import Robot.Case.Placement

/-!
# Counting the dispatches of a user

Where the holder of a user is, as numbers: how often it is in the channel, in the worker's
hand or in a task that `onFinishFunc` has not counted yet, and in a task that has counted
and still has to send. With the dispatches counted beyond the first batch as the finished
ones, these are the fields of a `Ledger`, and a step of the run moves one credit of one user
or none (`ledger_step`): the run refines the window of credits, with `batchSize` as the
window and `runTime` as the quota.

`Working` is what holds once the workers run. Beside the balance of every user's ledger it
has the two counters of a worker: `totalTaskCount` is all runs of its users, and
`runTaskCount` is the sum of what has been dispatched to them.
-/

namespace Robot.Case

open Robot.Lib Function List TaskPhase WorkerPc

/-- The callback has not counted the task yet. -/
def TaskPhase.uncounted : TaskPhase → Bool
  | .running => true
  | .loaded _ => true
  | _ => false

/-- The callback has counted the task and sends the holder back. -/
def TaskPhase.sends : TaskPhase → Bool
  | .sending => true
  | _ => false

theorem RunPlan.openId_eq_iff {plan : RunPlan} {i j : Nat} (hi : i < plan.userCount)
    (hj : j < plan.userCount) : plan.openId j = plan.openId i ↔ j = i :=
  ⟨plan.openId_inj j hj i hi, fun h => by rw [h]⟩

namespace Exec

variable (plan : RunPlan)

def queued (s : Exec) (i : Nat) : Nat :=
  (s.userHolderChannel (i % plan.workers)).count (plan.openId i)

def held (s : Exec) (i : Nat) : Nat :=
  if s.pc (i % plan.workers) = .holding (plan.openId i) then 1 else 0

/-- The tasks of user `i` in one of the phases. -/
def tasksOf (s : Exec) (i : Nat) (p : TaskPhase → Bool) : Nat :=
  s.tasks.countP fun t => t.holder = plan.openId i && p t.phase

/-- How often user `i` has been dispatched. -/
def dispatched (s : Exec) (i : Nat) : Nat := s.history.count (plan.openId i)

/-- The credits of user `i`. -/
def ledger (s : Exec) (i : Nat) : Ledger :=
  { queued := s.queued plan i
    taken := s.held plan i + s.tasksOf plan i TaskPhase.uncounted
    returning := s.tasksOf plan i TaskPhase.sends
    finished := (s.dispatchTaskCount i - plan.batchSize).toNat }

variable {plan} {index : String → Int} {s s' : Exec} {a : DispatchAct} {i j w : Nat}

/-! ## What the parts of a step do to the numbers -/

theorem queued_push (hi : i < plan.userCount) (hj : j < plan.userCount) :
    (s.push (j % plan.workers) (plan.openId j)).queued plan i
      = s.queued plan i + if j = i then 1 else 0 := by
  unfold queued push
  by_cases hw : i % plan.workers = j % plan.workers
  · have hbeq : (plan.openId j == plan.openId i) = decide (j = i) := by
      rw [Bool.beq_eq_decide_eq]
      exact decide_eq_decide.mpr (RunPlan.openId_eq_iff hi hj)
    simp only [hw, update_self, count_append, count_singleton, hbeq,
      decide_eq_true_eq]
  · have hne : j ≠ i := fun h => hw (by rw [h])
    simp only [update_of_ne hw, if_neg hne, Nat.add_zero]

theorem held_setPc (v : WorkerPc) : (s.setPc w v).held plan i
    = if i % plan.workers = w then (if v = .holding (plan.openId i) then 1 else 0)
      else s.held plan i := by
  unfold held setPc
  by_cases hw : i % plan.workers = w
  · simp only [hw, update_self, if_true]
  · simp only [update_of_ne hw, if_neg hw]

variable {v : WorkerPc} {t : Task}

/-- A worker with nothing in hand before and after. -/
theorem held_setPc_empty (hv : ∀ holder, v ≠ .holding holder)
    (hpc : ∀ holder, s.pc w ≠ .holding holder) : (s.setPc w v).held plan i = s.held plan i := by
  rw [held_setPc, if_neg (hv _)]
  split
  next hw =>
    unfold held
    rw [hw, if_neg (hpc _)]
  next => rfl

theorem held_take {holder : String} (hi : i < plan.userCount) (hj : j < plan.userCount)
    (hw : j % plan.workers = w) (ho : holder = plan.openId j)
    (hpc : ∀ holder, s.pc w ≠ .holding holder) :
    (s.setPc w (.holding holder)).held plan i = s.held plan i + if j = i then 1 else 0 := by
  rw [held_setPc]
  have hiff : holding holder = .holding (plan.openId i) ↔ j = i := by
    rw [holding.injEq, ho, RunPlan.openId_eq_iff hi hj]
  by_cases hiw : i % plan.workers = w
  · have h0 : s.held plan i = 0 := by
      unfold held
      rw [hiw, if_neg (hpc _)]
    simp only [hiw, if_true, hiff, h0, Nat.zero_add]
  · have hne : j ≠ i := fun h => hiw (by rw [← h, hw])
    simp only [if_neg hiw, if_neg hne, Nat.add_zero]

theorem held_put {holder : String} (hi : i < plan.userCount)
    (hj : j < plan.userCount) (hw : j % plan.workers = w) (ho : holder = plan.openId j)
    (hpc : s.pc w = .holding holder) (hv : ∀ holder, v ≠ .holding holder) :
    (s.setPc w v).held plan i + (if j = i then 1 else 0) = s.held plan i := by
  rw [held_setPc, if_neg (hv _)]
  by_cases hiw : i % plan.workers = w
  · unfold held
    have hiff : holding holder = .holding (plan.openId i) ↔ j = i := by
      rw [holding.injEq, ho, RunPlan.openId_eq_iff hi hj]
    simp only [hiw, if_true, hpc, hiff, Nat.zero_add]
  · have hne : j ≠ i := fun h => hiw (by rw [← h, hw])
    simp only [if_neg hiw, if_neg hne, Nat.add_zero]

/-- A task of user `j` changes its phase. -/
theorem tasksOf_setPhase (phase : TaskPhase) (p : TaskPhase → Bool)
    (hi : i < plan.userCount) (hj : j < plan.userCount) (ht : t ∈ s.tasks)
    (ho : t.holder = plan.openId j) :
    (s.setPhase t phase).tasksOf plan i p + (if j = i ∧ p t.phase then 1 else 0)
      = s.tasksOf plan i p + if j = i ∧ p phase then 1 else 0 := by
  unfold tasksOf setPhase
  have hperm := (perm_cons_erase ht).countP_eq (fun t => t.holder = plan.openId i && p t.phase)
  rw [hperm]
  simp only [countP_cons, ho, Bool.and_eq_true, decide_eq_true_eq,
    RunPlan.openId_eq_iff hi hj]
  omega

/-- A task that no phase of interest counts goes away. -/
theorem tasksOf_erase (p : TaskPhase → Bool) (ht : t ∈ s.tasks) (hp : p t.phase = false) :
    (s.tasks.erase t).countP (fun t => t.holder = plan.openId i && p t.phase)
      = s.tasksOf plan i p := by
  have hperm := (perm_cons_erase ht).countP_eq (fun t => t.holder = plan.openId i && p t.phase)
  unfold tasksOf
  rw [hperm, countP_cons, hp]
  simp

/-- The first holder leaves the channel. -/
theorem queued_pop {rest : List String} (hi : i < plan.userCount) (hj : j < plan.userCount)
    (hw : j % plan.workers = w) (hq : s.userHolderChannel w = plan.openId j :: rest) (pc : Nat → WorkerPc) :
    ({ s with pc := pc, userHolderChannel := update s.userHolderChannel w rest } : Exec).queued
      plan i + (if j = i then 1 else 0) = s.queued plan i := by
  unfold queued
  by_cases hiw : i % plan.workers = w
  · simp only [hiw, update_self, hq, count_cons, beq_iff_eq,
      RunPlan.openId_eq_iff hi hj]
  · have hne : j ≠ i := fun h => hiw (by rw [← h, hw])
    simp only [update_of_ne hiw, if_neg hne, Nat.add_zero]

/-! ## One step of the run is one move of a credit -/

/-- What is known of user `i` while the workers run. -/
structure UserTally (plan : RunPlan) (s : Exec) (i : Nat) : Prop where
  counter : s.dispatchTaskCount i = plan.batchSize + (s.ledger plan i).finished
  balanced : (s.ledger plan i).Balanced plan.batchSize plan.runTime
  history : s.dispatched plan i = (s.ledger plan i).finished + s.tasksOf plan i TaskPhase.uncounted

/-- The ledger only sees the channels, the hands, the tasks and the counters. -/
theorem UserTally.congr (h : s.UserTally plan i) (hl : s'.ledger plan i = s.ledger plan i)
    (hd : s'.dispatchTaskCount i = s.dispatchTaskCount i)
    (ht : s'.tasksOf plan i uncounted = s.tasksOf plan i uncounted)
    (hh : s'.dispatched plan i = s.dispatched plan i) : s'.UserTally plan i :=
  { counter := by rw [hl, hd]; exact h.counter
    balanced := by rw [hl]; exact h.balanced
    history := by rw [hl, hh, ht]; exact h.history }

theorem UserTally.setPc (h : s.UserTally plan i)
    (hv : ∀ holder, v ≠ .holding holder) (hpc : ∀ holder, s.pc w ≠ .holding holder) :
    (s.setPc w v).UserTally plan i := by
  refine h.congr ?_ rfl rfl rfl
  unfold ledger
  rw [held_setPc_empty hv hpc]
  rfl

/-- The counter has not passed its type: the request that finishes is one of the
`runTime`. -/
theorem UserTally.next_count (hfits : plan.Fits) (h : s.UserTally plan i)
    (hpos : 0 < s.tasksOf plan i uncounted) :
    i64 (s.dispatchTaskCount i + 1) = plan.batchSize + ((s.ledger plan i).finished + 1) := by
  have hquota : (s.ledger plan i).finished + (s.held plan i + s.tasksOf plan i uncounted)
      ≤ plan.runTime := h.balanced.le_quota
  have hbound := hfits.dispatches
  rw [h.counter, Int.add_assoc]
  exact i64_of_lt (by omega) (by omega)

theorem UserTally.close (errorBreakState : Bool) (h : s.UserTally plan i)
    (ht : t ∈ s.tasks) (hp : t.phase = .closing) :
    ({ s with tasks := s.tasks.erase t, errorBreakState := errorBreakState } : Exec).UserTally
      plan i := by
  have hu : ∀ p : TaskPhase → Bool, p .closing = false →
      ({ s with tasks := s.tasks.erase t, errorBreakState := errorBreakState } : Exec).tasksOf plan i p
        = s.tasksOf plan i p :=
    fun p hclosing => tasksOf_erase p ht (by rw [hp]; exact hclosing)
  refine h.congr (Ledger.ext rfl ?_ (hu _ rfl) rfl) rfl (hu _ rfl) rfl
  exact congrArg (s.held plan i + ·) (hu _ rfl)

section User

variable (h : s.UserTally plan i) (hi : i < plan.userCount) (hj : j < plan.userCount)

include h hi hj

theorem UserTally.receive {rest : List String} (hw : j % plan.workers = w) (hpc : s.pc w = .waiting)
    (hq : s.userHolderChannel w = plan.openId j :: rest) :
    ({ s.setPc w (.holding (plan.openId j)) with
      userHolderChannel := update s.userHolderChannel w rest } : Exec).UserTally plan i := by
  have hempty : ∀ holder, s.pc w ≠ .holding holder := by
    rw [hpc]
    exact fun _ hc => WorkerPc.noConfusion hc
  have hqueued := queued_pop hi hj hw hq (update s.pc w (.holding (plan.openId j)))
  have hheld := held_take hi hj hw rfl hempty
  refine ⟨h.counter, h.balanced.step (.take_if hqueued ?_ rfl rfl), h.history⟩
  show (s.setPc w (.holding (plan.openId j))).held plan i + s.tasksOf plan i uncounted
    = s.held plan i + s.tasksOf plan i uncounted + _
  rw [hheld]
  omega

theorem UserTally.startTask (hw : j % plan.workers = w)
    (hpc : s.pc w = .holding (plan.openId j)) : (s.startTask w (plan.openId j)).UserTally plan i := by
  have hheld : (s.startTask w (plan.openId j)).held plan i + (if j = i then 1 else 0)
      = s.held plan i :=
    held_put hi hj hw rfl hpc (fun holder hv => by split at hv <;> exact WorkerPc.noConfusion hv)
  have huncounted : (s.startTask w (plan.openId j)).tasksOf plan i uncounted
      = s.tasksOf plan i uncounted + if j = i then 1 else 0 := by
    unfold tasksOf Exec.startTask
    simp only [countP_cons, uncounted, Bool.and_true, decide_eq_true_eq,
      RunPlan.openId_eq_iff hi hj]
  have hsends : (s.startTask w (plan.openId j)).tasksOf plan i sends
      = s.tasksOf plan i sends := by
    unfold tasksOf Exec.startTask
    simp only [countP_cons, sends, Bool.and_false, Bool.false_eq_true, if_false,
      Nat.add_zero]
  have hhistory : (s.startTask w (plan.openId j)).dispatched plan i
      = s.dispatched plan i + if j = i then 1 else 0 := by
    unfold dispatched Exec.startTask
    simp only [count_cons, beq_iff_eq, RunPlan.openId_eq_iff hi hj]
  have hl : (s.startTask w (plan.openId j)).ledger plan i = s.ledger plan i := by
    refine Ledger.ext rfl ?_ hsends rfl
    show (s.startTask w (plan.openId j)).held plan i
        + (s.startTask w (plan.openId j)).tasksOf plan i uncounted
      = s.held plan i + s.tasksOf plan i uncounted
    omega
  refine ⟨by rw [hl]; exact h.counter, by rw [hl]; exact h.balanced, ?_⟩
  rw [hl, hhistory, huncounted, h.history]
  omega

theorem UserTally.load {k : Int} (ht : t ∈ s.tasks) (ho : t.holder = plan.openId j)
    (hp : t.phase = .running) : (s.setPhase t (.loaded k)).UserTally plan i := by
  have huncounted : (s.setPhase t (.loaded k)).tasksOf plan i uncounted
      = s.tasksOf plan i uncounted := by
    have hset := tasksOf_setPhase (.loaded k) uncounted hi hj ht ho
    rw [hp] at hset
    exact Nat.add_right_cancel hset
  have hsends : (s.setPhase t (.loaded k)).tasksOf plan i sends
      = s.tasksOf plan i sends := by
    have hset := tasksOf_setPhase (.loaded k) sends hi hj ht ho
    rw [hp] at hset
    exact Nat.add_right_cancel hset
  refine h.congr (Ledger.ext rfl ?_ hsends rfl) rfl huncounted rfl
  show s.held plan i + (s.setPhase t (.loaded k)).tasksOf plan i uncounted = _
  rw [huncounted]
  rfl

/-- The count of the callback is the one step that finishes a request. `phase` is what the
test of the count decides. -/
theorem UserTally.settle {phase : TaskPhase} (ht : t ∈ s.tasks)
    (ho : t.holder = plan.openId j) (hp : t.phase.uncounted = true ∧ t.phase.sends = false)
    (hcount : j = i → i64 (s.dispatchTaskCount i + 1)
      = plan.batchSize + ((s.ledger plan i).finished + 1)) (huncounted : phase.uncounted = false)
    (hsends : j = i → (phase.sends = true
      ↔ plan.batchSize + ((s.ledger plan i).finished + 1) ≤ plan.runTime)) :
    ((s.countDispatch j).setPhase t phase).UserTally plan i := by
  have hu : ((s.countDispatch j).setPhase t phase).tasksOf plan i uncounted
      + (if j = i then 1 else 0) = s.tasksOf plan i uncounted := by
    have hset := tasksOf_setPhase (s := s.countDispatch j) phase uncounted hi hj ht ho
    simp only [hp.1, huncounted, and_true, Bool.false_eq_true, and_false, if_false, Nat.add_zero] at hset
    exact hset
  have hr : ((s.countDispatch j).setPhase t phase).tasksOf plan i sends
      = s.tasksOf plan i sends
        + if j = i ∧ plan.batchSize + ((s.ledger plan i).finished + 1) ≤ plan.runTime then 1 else 0 := by
    have hset := tasksOf_setPhase (s := s.countDispatch j) phase sends hi hj ht ho
    simp only [hp.2, Bool.false_eq_true, and_false, if_false, Nat.add_zero,
      and_congr_right hsends] at hset
    exact hset
  have hc : ((s.countDispatch j).setPhase t phase).dispatchTaskCount i
      = s.dispatchTaskCount i + if j = i then 1 else 0 := by
    show update s.dispatchTaskCount j (i64 (s.dispatchTaskCount j + 1)) i = _
    by_cases hji : j = i
    · subst hji
      rw [update_self, hcount rfl, h.counter, if_pos rfl, Int.add_assoc]
    · rw [update_of_ne fun h => hji h.symm, if_neg hji, Int.add_zero]
  have hold := h.counter
  have hfin : (((s.countDispatch j).setPhase t phase).ledger plan i).finished
      = (s.ledger plan i).finished + if j = i then 1 else 0 := by
    show (((s.countDispatch j).setPhase t phase).dispatchTaskCount i - plan.batchSize).toNat = _
    rw [hc, hold]
    split <;> omega
  refine ⟨?_, h.balanced.step (.settle_if (c := j = i) rfl ?_ hr hfin), ?_⟩
  · rw [hc, hold, hfin]
    split <;> push_cast <;> omega
  · show s.held plan i + ((s.countDispatch j).setPhase t phase).tasksOf plan i uncounted
      + _ = s.held plan i + s.tasksOf plan i uncounted
    omega
  · show s.dispatched plan i = _
    rw [h.history, hfin]
    omega

theorem UserTally.send (hw : j % plan.workers = t.worker) (ht : t ∈ s.tasks)
    (ho : t.holder = plan.openId j) (hp : t.phase = .sending) :
    ((s.push t.worker t.holder).setPhase t .closing).UserTally plan i := by
  have hu : ((s.push t.worker t.holder).setPhase t .closing).tasksOf plan i uncounted
      = s.tasksOf plan i uncounted := by
    have hset := tasksOf_setPhase (s := s.push t.worker t.holder) .closing uncounted
      hi hj ht ho
    simp only [hp, uncounted, Bool.false_eq_true, and_false, if_false, Nat.add_zero] at hset
    exact hset
  have hr : ((s.push t.worker t.holder).setPhase t .closing).tasksOf plan i sends
      + (if j = i then 1 else 0) = s.tasksOf plan i sends := by
    have hset := tasksOf_setPhase (s := s.push t.worker t.holder) .closing sends
      hi hj ht ho
    simp only [hp, sends, and_true, Bool.false_eq_true, and_false, if_false,
      Nat.add_zero] at hset
    exact hset
  have hq : ((s.push t.worker t.holder).setPhase t .closing).queued plan i
      = s.queued plan i + if j = i then 1 else 0 := by
    rw [ho, ← hw]
    exact queued_push hi hj
  refine ⟨h.counter, h.balanced.step (.give_if hq ?_ hr rfl), ?_⟩
  · show s.held plan i + ((s.push t.worker t.holder).setPhase t .closing).tasksOf plan i
      uncounted = s.held plan i + s.tasksOf plan i uncounted
    rw [hu]
  · rw [hu]
    exact h.history

end User

/-- **The run refines the window of credits**: whatever step is taken while the workers
run, it moves one credit of one user, or none, and the counters follow. -/
theorem UserTally.step (hfits : plan.Fits) (hrun : s.main = .running) (hp : s.Placed plan index)
    (hall : ∀ i < plan.userCount, s.UserTally plan i) (hs : s.Stepped plan index a s')
    (hi : i < plan.userCount) : s'.UserTally plan i := by
  have h := hall i hi
  have hlt : ∀ {j}, j < plan.stored s.main → j < plan.userCount := fun hj =>
    Nat.lt_of_lt_of_le hj hp.le
  cases hs with
  | store hm | setupDone hm | enqueue hm | fill hm | fillRound hm | start hm =>
    rw [hrun] at hm
    exact MainPc.noConfusion hm
  | cancel => exact ⟨h.counter, h.balanced, h.history⟩
  | @leave w hw hpc =>
    exact h.setPc (fun _ hv => WorkerPc.noConfusion hv) fun _ hc => by
      rw [hpc] at hc; exact WorkerPc.noConfusion hc
  | @check w hw hpc =>
    exact h.setPc (fun _ hv => WorkerPc.noConfusion hv) fun _ hc => by
      rw [hpc] at hc; exact WorkerPc.noConfusion hc
  | @waitAll w hw hpc =>
    exact h.setPc (fun _ hv => WorkerPc.noConfusion hv) fun _ hc => by
      rw [hpc] at hc; exact WorkerPc.noConfusion hc
  | @receive w holder rest hw hpc hq =>
    have hmem : holder ∈ s.userHolderChannel w := by rw [hq]; exact mem_cons_self
    obtain ⟨j, hj, hjw, ho⟩ := hp.housed.channel w holder hmem
    subst ho
    exact h.receive hi (hlt hj) hjw hpc hq
  | @runTask w holder hw hpc =>
    obtain ⟨j, hj, hjw, ho⟩ := hp.housed.hand w holder hpc
    subst ho
    exact h.startTask hi (hlt hj) hjw hpc
  | @load t ht hphase =>
    obtain ⟨j, hj, _, ho, _⟩ := hp.housed.task t ht
    exact h.load hi (hlt hj) ht ho hphase
  | @add t k ht hphase hk =>
    obtain ⟨j, hj, _, ho, hload⟩ := hp.housed.task t ht
    have hkj : k = j := by
      have := hload k hphase
      omega
    subst hkj
    have hpos : 0 < s.tasksOf plan k uncounted := by
      refine countP_pos_iff.mpr ⟨t, ht, ?_⟩
      simp [ho, hphase, uncounted]
    have hcount := (hall k hk).next_count hfits hpos
    refine h.settle hi hk ht ho (by rw [hphase]; exact ⟨rfl, rfl⟩) (fun hki => hki ▸ hcount) ?_ ?_
    · split <;> rfl
    · intro hki
      rw [← hki, hcount]
      split
      next hle => exact ⟨fun _ => by omega, fun _ => rfl⟩
      next hle => exact ⟨fun hc => Bool.noConfusion hc, fun hle' => absurd (by omega) hle⟩
  | @send t ht hphase hr =>
    obtain ⟨j, hj, hjw, ho, _⟩ := hp.housed.task t ht
    exact h.send hi (hlt hj) hjw ht ho hphase
  | close failed ht hphase => exact h.close _ ht hphase

end Exec

/-! ## The counters of the workers -/

/-- The worker has left its loop. -/
def WorkerPc.isDone : WorkerPc → Bool
  | .draining => true
  | .returned => true
  | _ => false

/-- Not a failure that breaks the run, and not a cancellation. -/
def DispatchAct.quiet (plan : RunPlan) : DispatchAct → Prop
  | .close _ failed => (failed && plan.errorBreak) = false
  | .cancel => False
  | _ => True

instance (plan : RunPlan) : (a : DispatchAct) → Decidable (a.quiet plan)
  | .close _ failed => inferInstanceAs (Decidable ((failed && plan.errorBreak) = false))
  | .cancel => inferInstanceAs (Decidable False)
  | .main | .check _ | .receive _ | .runTask _ | .load _ | .add _ | .send _ | .waitAll _ =>
    isTrue trivial

namespace Exec

variable {plan : RunPlan} {index : String → Int} {s s' : Exec} {a : DispatchAct} {i j w : Nat}

/-- What holds while the workers run. -/
structure Working (plan : RunPlan) (s : Exec) : Prop where
  main : s.main = .running
  calm : s.errorBreakState = false ∧ s.cancelled = false
  user : ∀ i < plan.userCount, s.UserTally plan i
  total : ∀ w < plan.workers, s.totalTaskCount w = (plan.runTime * (plan.usersOf w).card : Nat)
  ran : ∀ w < plan.workers, s.runTaskCount w = (∑ i ∈ plan.usersOf w, s.dispatched plan i : Nat)
  stops : ∀ w < plan.workers, (s.pc w).isDone = true ↔ s.totalTaskCount w ≤ s.runTaskCount w

/-- A step of a working run starts a task, or leaves the counts and the ends of the workers
as they are. -/
theorem Stepped.counts (hrun : s.main = .running)
    (hcalm : s.errorBreakState = false ∧ s.cancelled = false) (hs : s.Stepped plan index a s') :
    (∃ w holder, w < plan.workers ∧ s.pc w = .holding holder ∧ s' = s.startTask w holder) ∨
    (s'.history = s.history ∧ s'.runTaskCount = s.runTaskCount ∧
      ∀ v, (s'.pc v).isDone = (s.pc v).isDone) := by
  have hset : ∀ {w : Nat} {pc : WorkerPc}, (s.pc w).isDone = pc.isDone → ∀ v,
      (update s.pc w pc v).isDone = (s.pc v).isDone := by
    intro w pc hpc v
    by_cases hv : v = w
    · rw [hv, update_self, hpc]
    · rw [update_of_ne hv]
  cases hs with
  | store hm | setupDone hm | enqueue hm | fill hm | fillRound hm | start hm =>
    rw [hrun] at hm
    exact MainPc.noConfusion hm
  | leave hw hpc hbreak =>
    rw [hcalm.1, hcalm.2] at hbreak
    simp at hbreak
  | check hw hpc => exact Or.inr ⟨rfl, rfl, hset (by rw [hpc]; rfl)⟩
  | receive hw hpc => exact Or.inr ⟨rfl, rfl, hset (by rw [hpc]; rfl)⟩
  | waitAll hw hpc => exact Or.inr ⟨rfl, rfl, hset (by rw [hpc]; rfl)⟩
  | @runTask w holder hw hpc => exact Or.inl ⟨w, holder, hw.2, hpc, rfl⟩
  | load | add | send | close | cancel => exact Or.inr ⟨rfl, rfl, fun _ => rfl⟩

/-- One more dispatch of user `j` is one more of its worker, and of no other. -/
theorem sum_dispatched_startTask (hj : j < plan.userCount) (v : Nat) :
    ∑ i ∈ plan.usersOf v, (s.startTask w (plan.openId j)).dispatched plan i
      = ∑ i ∈ plan.usersOf v, s.dispatched plan i + if j % plan.workers = v then 1 else 0 := by
  by_cases hv : j % plan.workers = v
  · rw [if_pos hv]
    exact sum_count_cons (RunPlan.openId_injOn v) s.history (RunPlan.mem_usersOf.mpr ⟨hj, hv⟩)
  · rw [if_neg hv, Nat.add_zero]
    refine Finset.sum_congr rfl fun i hi => ?_
    obtain ⟨hi, hiv⟩ := RunPlan.mem_usersOf.mp hi
    have hne : plan.openId j ≠ plan.openId i := by
      rw [Ne, RunPlan.openId_eq_iff hi hj]
      exact fun h => hv (by rw [h, hiv])
    exact count_cons_of_ne hne

/-- Starting a task keeps the worker's counters in step with its users. -/
theorem Working.startTask (hfits : plan.Fits) (h : s.Working plan) (hp : s.Placed plan index)
    {holder : String} (hw : w < plan.workers) (hpc : s.pc w = .holding holder)
    (huser : ∀ i < plan.userCount, (s.startTask w holder).UserTally plan i) :
    (s.startTask w holder).Working plan := by
  obtain ⟨j, hj, hjw, ho⟩ := hp.housed.hand w holder hpc
  have hj' : j < plan.userCount := Nat.lt_of_lt_of_le hj hp.le
  subst ho
  have hlt : s.runTaskCount w < s.totalTaskCount w := by
    have hstops := h.stops w hw
    rw [hpc] at hstops
    exact Int.not_le.mp fun hle => Bool.noConfusion (hstops.mpr hle)
  have hcount : i64 (s.runTaskCount w + 1) = s.runTaskCount w + 1 := by
    have hran := h.ran w hw
    have htotal := h.total w hw
    have hbound := hfits.workerTasks hw
    exact i64_of_lt (by omega) (by omega)
  refine ⟨h.main, h.calm, huser, h.total, ?_, ?_⟩
  · intro v hv
    rw [sum_dispatched_startTask hj' v, Nat.cast_add, ← h.ran v hv]
    show update s.runTaskCount w (i64 (s.runTaskCount w + 1)) v = _
    by_cases hvw : v = w
    · rw [hvw, update_self, hcount, if_pos hjw]
      rfl
    · rw [update_of_ne hvw, if_neg fun h => hvw (by rw [← h, hjw])]
      simp
  · intro v hv
    by_cases hvw : v = w
    · subst hvw
      show (update s.pc v _ v).isDone = true
        ↔ s.totalTaskCount v ≤ update s.runTaskCount v (i64 (s.runTaskCount v + 1)) v
      rw [update_self, update_self]
      split
      next hle => exact ⟨fun _ => hle, fun _ => rfl⟩
      next hle => exact ⟨fun hc => Bool.noConfusion hc, fun hle' => absurd hle' hle⟩
    · show (update s.pc w _ v).isDone = true
        ↔ s.totalTaskCount v ≤ update s.runTaskCount w (i64 (s.runTaskCount w + 1)) v
      rw [update_of_ne hvw, update_of_ne hvw]
      exact h.stops v hv

/-- **What a step of a working run keeps.** -/
theorem Working.step (hfits : plan.Fits) (h : s.Working plan) (hp : s.Placed plan index)
    (hquiet : a.quiet plan) (hs : s.Stepped plan index a s') : s'.Working plan := by
  have huser : ∀ i < plan.userCount, s'.UserTally plan i := fun i hi =>
    UserTally.step hfits h.main hp h.user hs hi
  rcases hs.counts h.main h.calm with ⟨w, holder, hw, hpc, hs'⟩ | ⟨hhistory, hran, hdone⟩
  · subst hs'
    exact h.startTask hfits hp hw hpc huser
  · have hkeep : s'.main = s.main ∧ s'.totalTaskCount = s.totalTaskCount ∧
        s'.errorBreakState = false ∧ s'.cancelled = false := by
      cases hs with
      | store hm | setupDone hm | enqueue hm | fill hm | fillRound hm | start hm =>
        rw [h.main] at hm
        exact MainPc.noConfusion hm
      | @close t failed =>
        refine ⟨rfl, rfl, ?_, h.calm.2⟩
        show (s.errorBreakState || (failed && plan.errorBreak)) = false
        rw [h.calm.1, hquiet]
        rfl
      | cancel => exact hquiet.elim
      | _ => exact ⟨rfl, rfl, h.calm⟩
    obtain ⟨hmain, htotal, hcalm⟩ := hkeep
    refine ⟨hmain.trans h.main, hcalm, huser, by rw [htotal]; exact h.total, ?_, ?_⟩
    · intro w hw
      rw [hran, h.ran w hw]
      unfold dispatched
      rw [hhistory]
    · intro w hw
      rw [hdone, htotal, hran]
      exact h.stops w hw

end Exec

end Robot.Case
