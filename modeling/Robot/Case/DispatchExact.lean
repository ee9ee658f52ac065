import Robot.Case.DispatchFill

/-!
# Dispatch is exact

What the counting of `DispatchCount` and `DispatchFill` says about a run of `RunCaseInner`
in which no failure breaks the run and the context is not cancelled. In every state of
every interleaving (`DispatchSound`):

* no user is dispatched more than `runTime` times, and no more than `batchSize` of its
  tasks are in flight;
* a send into a channel has room, in the setup, in the prefill and in `onFinishFunc`;
* a worker at an empty channel has a task in flight, whose callback will feed it;
* and when all workers have returned every user has been dispatched exactly `runTime` times.

That the workers do return is `progress` and `work_lt`: a run that is not finished can take
a step, and every step takes away from the work that is left, so that no interleaving is
longer than `maxSteps`.

All of it needs the counters to stay inside their types (`RunPlan.Fits`). They are sums and
products of the parameters and nothing checks them.
-/

namespace Robot.Case

open Robot.Lib List

namespace Exec

variable {plan : RunPlan} {index : String → Int} {s s' : Exec} {a : DispatchAct} {i j w : Nat}

/-- How many tasks of user `i` are in flight. -/
def inFlight (plan : RunPlan) (s : Exec) (i : Nat) : Nat :=
  s.tasks.countP fun t => t.holder = plan.openId i && t.inFlight

/-- All workers have returned. -/
def Finished (plan : RunPlan) (s : Exec) : Prop :=
  s.main = .running ∧ ∀ w < plan.workers, s.pc w = .returned

/-- Somebody is at a send into the channel of worker `w`. -/
def Sends (plan : RunPlan) (s : Exec) (w : Nat) : Prop :=
  (∃ i, s.MainSends plan i ∧ i % plan.workers = w) ∨
    ∃ t ∈ s.tasks, t.phase = .sending ∧ t.worker = w

/-- What is to be shown of every state. -/
structure DispatchSound (plan : RunPlan) (s : Exec) : Prop where
  atMost : ∀ i < plan.userCount, s.dispatched plan i ≤ plan.runTime
  window : ∀ i < plan.userCount, s.inFlight plan i ≤ plan.batchSize
  room : ∀ w, s.Sends plan w → s.hasRoom plan w
  fed : ∀ w < plan.workers, s.pc w = .waiting → s.userHolderChannel w = [] →
    ∃ t ∈ s.tasks, t.worker = w ∧ t.inFlight = true
  finished : s.Finished plan → ∀ i < plan.userCount, s.dispatched plan i = plan.runTime

/-- What holds at every point of a quiet run. -/
structure Inv (plan : RunPlan) (index : String → Int) (s : Exec) : Prop where
  placed : s.Placed plan index
  phase : s.Filling plan ∨ s.Working plan

theorem inv_init (plan : RunPlan) (index : String → Int) : Exec.init.Inv plan index :=
  ⟨placed_init plan index, Or.inl (filling_init plan)⟩

theorem Inv.step (hfits : plan.Fits) (h : s.Inv plan index) (hquiet : a.quiet plan)
    (hs : s.Stepped plan index a s') : s'.Inv plan (storeIndex index (s.writes plan a)) := by
  refine ⟨h.placed.step hfits.users hs, ?_⟩
  rcases h.phase with hf | hw
  · exact hf.step hfits hquiet hs
  · exact Or.inr (hw.step hfits h.placed hquiet hs)

/-! ## What the invariant says -/

/-- A task in flight is one the callback has not counted, or one that still sends. -/
theorem inFlight_eq : s.inFlight plan i
    = s.tasksOf plan i TaskPhase.uncounted + s.tasksOf plan i TaskPhase.sends := by
  unfold inFlight tasksOf
  induction s.tasks with
  | nil => rfl
  | cons t ts ih =>
    simp only [countP_cons, ih]
    cases hp : t.phase <;> simp [Task.inFlight, TaskPhase.uncounted, TaskPhase.sends, hp] <;> omega

/-- A task in flight of user `i` is one of user `i`'s worker. -/
theorem exists_inFlight (hp : s.Placed plan index) (hi : i < plan.userCount)
    (hpos : 0 < s.inFlight plan i) :
    ∃ t ∈ s.tasks, t.worker = i % plan.workers ∧ t.inFlight = true := by
  obtain ⟨t, ht, hc⟩ := countP_pos_iff.mp hpos
  rw [Bool.and_eq_true, decide_eq_true_eq] at hc
  obtain ⟨j, hj, hjw, ho, _⟩ := hp.housed.task t ht
  have hji : j = i := by
    rw [ho] at hc
    exact (RunPlan.openId_eq_iff hi (Nat.lt_of_lt_of_le hj hp.le)).mp hc.1
  exact ⟨t, ht, by rw [← hjw, hji], hc.2⟩

theorem UserTally.credits (h : s.UserTally plan i) :
    s.queued plan i + (s.held plan i + s.tasksOf plan i TaskPhase.uncounted)
      + s.tasksOf plan i TaskPhase.sends ≤ plan.batchSize :=
  h.balanced.le_window

theorem UserTally.dispatched_le (h : s.UserTally plan i) :
    s.dispatched plan i + s.held plan i ≤ plan.runTime := by
  have hquota : (s.ledger plan i).finished + (s.held plan i + s.tasksOf plan i TaskPhase.uncounted)
      ≤ plan.runTime := h.balanced.le_quota
  have hhist := h.history
  omega

/-- A user with no credit left anywhere has had all its runs. -/
theorem UserTally.served (h : s.UserTally plan i) (hq : s.queued plan i = 0)
    (hh : s.held plan i = 0) (hf : s.inFlight plan i = 0) : s.dispatched plan i = plan.runTime := by
  rw [inFlight_eq] at hf
  have hzero : s.queued plan i + (s.held plan i + s.tasksOf plan i TaskPhase.uncounted)
      + s.tasksOf plan i TaskPhase.sends = 0 := by omega
  have hserved : (s.ledger plan i).finished = plan.runTime :=
    h.balanced.served plan.batchSize_pos hzero
  have hhist := h.history
  omega

/-- A worker in its loop has a user that has not had all its runs. -/
theorem Working.owes (h : s.Working plan) (hw : w < plan.workers)
    (hpc : (s.pc w).isDone = false) : ∃ i ∈ plan.usersOf w, s.dispatched plan i < plan.runTime := by
  have hlt : ¬ s.totalTaskCount w ≤ s.runTaskCount w := by
    rw [← h.stops w hw, hpc]
    exact Bool.noConfusion
  rw [h.total w hw, h.ran w hw] at hlt
  have hsum : ∑ i ∈ plan.usersOf w, s.dispatched plan i < ∑ _i ∈ plan.usersOf w, plan.runTime := by
    rw [Finset.sum_const, smul_eq_mul, Nat.mul_comm]
    omega
  exact Finset.exists_lt_of_sum_lt hsum

/-- A worker past its loop has none. -/
theorem Working.done (h : s.Working plan) (hw : w < plan.workers)
    (hpc : (s.pc w).isDone = true) : ∀ i ∈ plan.usersOf w, s.dispatched plan i = plan.runTime := by
  have hle := (h.stops w hw).mp hpc
  rw [h.total w hw, h.ran w hw] at hle
  have hsum : ∑ i ∈ plan.usersOf w, s.dispatched plan i = ∑ _i ∈ plan.usersOf w, plan.runTime := by
    have hupper : ∑ i ∈ plan.usersOf w, s.dispatched plan i ≤ ∑ _i ∈ plan.usersOf w, plan.runTime :=
      Finset.sum_le_sum fun i hi => by
        have hbound := (h.user i (RunPlan.mem_usersOf.mp hi).1).dispatched_le
        omega
    rw [Finset.sum_const, smul_eq_mul, Nat.mul_comm] at hupper ⊢
    omega
  intro i hi
  refine (Finset.sum_eq_sum_iff_of_le fun i hi => ?_).mp hsum i hi
  have hbound := (h.user i (RunPlan.mem_usersOf.mp hi).1).dispatched_le
  omega

/-- **A worker at an empty channel has a task in flight.** -/
theorem Working.fed (h : s.Working plan) (hp : s.Placed plan index) (hw : w < plan.workers)
    (hpc : s.pc w = .waiting) (hempty : s.userHolderChannel w = []) :
    ∃ t ∈ s.tasks, t.worker = w ∧ t.inFlight = true := by
  obtain ⟨i, hi, hlt⟩ := h.owes hw (by rw [hpc]; rfl)
  obtain ⟨hi, hiw⟩ := RunPlan.mem_usersOf.mp hi
  have hq : s.queued plan i = 0 := by
    unfold queued
    rw [hiw, hempty]
    rfl
  have hh : s.held plan i = 0 := by
    unfold held
    rw [hiw, hpc, if_neg WorkerPc.noConfusion]
  have hpos : 0 < s.inFlight plan i := Nat.pos_of_ne_zero fun hf => by
    have hserved := (h.user i hi).served hq hh hf
    omega
  rw [← hiw]
  exact exists_inFlight hp hi hpos

/-- **A callback that gives a holder back has room**: its own credit is not in the queue. -/
theorem Working.hasRoom (hfits : plan.Fits) (h : s.Working plan) (hp : s.Placed plan index)
    {t : Task} (ht : t ∈ s.tasks) (hphase : t.phase = .sending) : s.hasRoom plan t.worker := by
  obtain ⟨j, hj, hjw, ho, _⟩ := hp.housed.task t ht
  have hj' : j < plan.userCount := Nat.lt_of_lt_of_le hj hp.le
  have hpos : 0 < s.tasksOf plan j TaskPhase.sends := by
    refine countP_pos_iff.mpr ⟨t, ht, ?_⟩
    simp [ho, hphase, TaskPhase.sends]
  rw [← hjw]
  refine hasRoom_of_queued_lt hfits hp.le hp.housed (fun i hi => ?_) hj' ?_
  · have hcredits := (h.user i hi).credits
    omega
  · have hcredits := (h.user j hj').credits
    omega

theorem Filling.dispatchSound (hfits : plan.Fits) (h : s.Filling plan) (hp : s.Placed plan index) :
    s.DispatchSound plan := by
  obtain ⟨htasks, hhistory, hpc, _⟩ := h.idle
  refine ⟨fun i _ => ?_, fun i _ => ?_, fun w hsend => ?_, fun w _ hwait => ?_, fun hfin => ?_⟩
  · unfold dispatched
    rw [hhistory]
    exact Nat.zero_le _
  · unfold inFlight
    rw [htasks]
    exact Nat.zero_le _
  · rcases hsend with ⟨i, hmain, hiw⟩ | ⟨t, ht, _⟩
    · exact hiw ▸ h.hasRoom hfits hp hmain
    · rw [htasks] at ht
      exact absurd ht not_mem_nil
  · rw [hpc] at hwait
    exact WorkerPc.noConfusion hwait
  · have hmain := h.main
    rw [hfin.1] at hmain
    exact hmain.elim

theorem Working.dispatchSound (hfits : plan.Fits) (h : s.Working plan) (hp : s.Placed plan index) :
    s.DispatchSound plan := by
  refine ⟨fun i hi => ?_, fun i hi => ?_, fun w hsend => ?_, fun w hw => h.fed hp hw,
    fun hfin i hi => ?_⟩
  · have hbound := (h.user i hi).dispatched_le
    omega
  · have hcredits := (h.user i hi).credits
    rw [inFlight_eq]
    omega
  · rcases hsend with ⟨i, hmain | ⟨round, hmain, _⟩, _⟩ | ⟨t, ht, hphase, htw⟩
    · rw [h.main] at hmain
      exact MainPc.noConfusion hmain
    · rw [h.main] at hmain
      exact MainPc.noConfusion hmain
    · exact htw ▸ h.hasRoom hfits hp ht hphase
  · have hw : i % plan.workers < plan.workers := Nat.mod_lt _ plan.workers_pos
    exact h.done hw (by rw [hfin.2 _ hw]; rfl) i (RunPlan.mem_usersOf.mpr ⟨hi, rfl⟩)

/-! ## The run goes on -/

/-- A task can always take its next step. -/
theorem Working.task_enabled (hfits : plan.Fits) (h : s.Working plan) (hp : s.Placed plan index)
    {t : Task} (ht : t ∈ s.tasks) : ∃ a : DispatchAct, a.quiet plan ∧ (s.step plan index a).isSome := by
  cases hphase : t.phase with
  | running =>
    refine ⟨.load t, trivial, ?_⟩
    simp [Exec.step, ht, Exec.load, hphase]
  | loaded k =>
    obtain ⟨j, hj, _, _, hload⟩ := hp.housed.task t ht
    have hk : 0 ≤ k ∧ k < plan.userCount := by
      have hkj := hload k hphase
      have hle := hp.le
      omega
    refine ⟨.add t, trivial, ?_⟩
    simp [Exec.step, ht, Exec.add, hphase, hk]
  | sending =>
    refine ⟨.send t, trivial, ?_⟩
    simp [Exec.step, ht, Exec.send, hphase, h.hasRoom hfits hp ht hphase]
  | closing =>
    refine ⟨.close t false, rfl, ?_⟩
    simp [Exec.step, ht, Exec.close, hphase]

theorem Filling.enabled (hfits : plan.Fits) (h : s.Filling plan) (hp : s.Placed plan index) :
    (s.step plan index .main).isSome := by
  have hmain := h.main
  show (s.mainStep plan).isSome
  unfold mainStep
  split
  next i hm => split <;> rfl
  next i hm =>
    have hroom := h.hasRoom hfits hp (Or.inl hm)
    simp [hroom]
  next round i hm =>
    split
    next hround =>
      split
      next hi =>
        have hroom := h.hasRoom hfits hp (Or.inr ⟨round, hm, hround, hi⟩)
        simp [hroom]
      next => rfl
    next => rfl
  next hm =>
    rw [hm] at hmain
    exact hmain.elim

theorem Working.worker_enabled (hfits : plan.Fits) (h : s.Working plan) (hp : s.Placed plan index)
    (hw : w < plan.workers) (hpc : s.pc w ≠ .returned) :
    ∃ a : DispatchAct, a.quiet plan ∧ (s.step plan index a).isSome := by
  have hstarted : s.started plan w := ⟨h.main, hw⟩
  cases hpc' : s.pc w with
  | top =>
    refine ⟨.check w, trivial, ?_⟩
    simp [Exec.step, hstarted, Exec.check, hpc', h.calm.1, h.calm.2]
  | waiting =>
    cases hq : s.userHolderChannel w with
    | nil =>
      obtain ⟨t, ht, _⟩ := h.fed hp hw hpc' hq
      exact h.task_enabled hfits hp ht
    | cons holder rest =>
      refine ⟨.receive w, trivial, ?_⟩
      simp [Exec.step, hstarted, Exec.receive, hpc', hq]
  | holding holder =>
    refine ⟨.runTask w, trivial, ?_⟩
    simp [Exec.step, hstarted, Exec.runTask, hpc']
  | draining =>
    by_cases hidle : ∀ t ∈ s.tasks, t.worker ≠ w
    · refine ⟨.waitAll w, trivial, ?_⟩
      simp only [Exec.step, if_pos hstarted, Exec.waitAll, if_pos (And.intro hpc' hidle)]
      rfl
    · simp only [not_forall] at hidle
      obtain ⟨t, ht, _⟩ := hidle
      exact h.task_enabled hfits hp ht
  | returned => exact absurd hpc' hpc

/-- **No deadlock**: a run that is not finished can take a step. -/
theorem Inv.progress (hfits : plan.Fits) (h : s.Inv plan index) (hfin : ¬ s.Finished plan) :
    ∃ a : DispatchAct, a.quiet plan ∧ (s.step plan index a).isSome := by
  rcases h.phase with hf | hw
  · exact ⟨.main, trivial, hf.enabled hfits h.placed⟩
  · have hsome : ∃ w < plan.workers, s.pc w ≠ .returned := by
      by_contra hnone
      refine hfin ⟨hw.main, fun w hlt => ?_⟩
      by_contra hpc
      exact hnone ⟨w, hlt, hpc⟩
    obtain ⟨w, hlt, hpc⟩ := hsome
    exact hw.worker_enabled hfits h.placed hlt hpc

end Exec

/-! ## The work that is left -/

/-- Steps of a worker up to its next task, or to its end. -/
def WorkerPc.rank : WorkerPc → Nat
  | .top => 3
  | .waiting => 2
  | .holding _ => 1
  | .draining => 1
  | .returned => 0

/-- Steps of a task up to its end. -/
def TaskPhase.rank : TaskPhase → Nat
  | .running => 4
  | .loaded _ => 3
  | .sending => 2
  | .closing => 1

/-- Steps of the main goroutine up to the start of the workers. -/
def RunPlan.mainRank (plan : RunPlan) : MainPc → Nat
  | .setup i => 2 * (plan.userCount - i) + plan.batchSize * (plan.userCount + 1) + 2
  | .enqueue i => 2 * (plan.userCount - i) + plan.batchSize * (plan.userCount + 1) + 1
  | .prefill round i => (plan.batchSize - round) * (plan.userCount + 1) + (plan.userCount - i) + 1
  | .running => 0

namespace Exec

variable {plan : RunPlan} {index : String → Int} {s s' : Exec} {a : DispatchAct} {i j w : Nat}

def taskRank (s : Exec) : Nat := (s.tasks.map fun t => t.phase.rank).sum

def workerRank (plan : RunPlan) (s : Exec) : Nat := ∑ w ∈ Finset.range plan.workers, (s.pc w).rank

/-- The dispatches still to be made. -/
def owed (plan : RunPlan) (s : Exec) : Nat :=
  ∑ i ∈ Finset.range plan.userCount, (plan.runTime - s.dispatched plan i)

/-- The work left: a dispatch still to be made stands for a task's four steps and the turn of
the loop that starts it. -/
def work (plan : RunPlan) (s : Exec) : Nat :=
  plan.mainRank s.main + 8 * s.owed plan + s.taskRank + s.workerRank plan

theorem workerRank_setPc (hw : w < plan.workers) (pc : WorkerPc) :
    (s.setPc w pc).workerRank plan + (s.pc w).rank = s.workerRank plan + pc.rank :=
  sum_update_add WorkerPc.rank s.pc (Finset.mem_range.mpr hw) pc

theorem taskRank_setPhase {t : Task} (ht : t ∈ s.tasks) (phase : TaskPhase) :
    (s.setPhase t phase).taskRank + t.phase.rank = s.taskRank + phase.rank := by
  have hperm := ((perm_cons_erase ht).map fun t => t.phase.rank).sum_eq
  unfold taskRank setPhase
  rw [hperm]
  simp only [map_cons, sum_cons]
  omega

theorem taskRank_erase {t : Task} (ht : t ∈ s.tasks) :
    ((s.tasks.erase t).map fun t => t.phase.rank).sum + t.phase.rank = s.taskRank := by
  have hperm := ((perm_cons_erase ht).map fun t => t.phase.rank).sum_eq
  unfold taskRank
  rw [hperm]
  simp only [map_cons, sum_cons]
  omega

/-- A dispatch takes one away from what is owed. -/
theorem owed_startTask (hj : j < plan.userCount) (hlt : s.dispatched plan j < plan.runTime) :
    (s.startTask w (plan.openId j)).owed plan + 1 = s.owed plan := by
  have hone : ∀ i ∈ Finset.range plan.userCount,
      plan.runTime - s.dispatched plan i
        = plan.runTime - (s.startTask w (plan.openId j)).dispatched plan i
          + if i = j then 1 else 0 := by
    intro i hi
    rw [Finset.mem_range] at hi
    have hcount : (s.startTask w (plan.openId j)).dispatched plan i
        = s.dispatched plan i + if j = i then 1 else 0 := by
      unfold dispatched Exec.startTask
      simp only [count_cons, beq_iff_eq, RunPlan.openId_eq_iff hi hj]
    rw [hcount]
    by_cases hij : i = j
    · subst hij
      rw [if_pos rfl]
      omega
    · rw [if_neg hij, if_neg fun h => hij h.symm, Nat.add_zero, Nat.add_zero]
  unfold owed
  rw [Finset.sum_congr rfl hone, Finset.sum_add_distrib, Finset.sum_ite_eq',
    if_pos (Finset.mem_range.mpr hj)]

/-- The loops of the main goroutine come to their end. -/
theorem Filling.mainRank_lt (h : s.Filling plan) (hs : s.Stepped plan index .main s') :
    plan.mainRank s'.main < plan.mainRank s.main := by
  have hmain := h.main
  cases hs with
  | @store i hm hi =>
    rw [hm]
    show 2 * (plan.userCount - i) + _ + 1 < 2 * (plan.userCount - i) + _ + 2
    omega
  | @setupDone i hm hi =>
    obtain ⟨b, hb⟩ := Nat.exists_eq_succ_of_ne_zero (Nat.ne_of_gt plan.batchSize_pos)
    rw [hm]
    show (plan.batchSize - 1) * (plan.userCount + 1) + (plan.userCount - 0) + 1
      < 2 * (plan.userCount - i) + plan.batchSize * (plan.userCount + 1) + 2
    rw [hb, Nat.succ_sub_one, Nat.succ_mul b (plan.userCount + 1)]
    omega
  | @enqueue i hm hr =>
    rw [hm] at hmain ⊢
    have hi : i < plan.userCount := hmain
    show 2 * (plan.userCount - (i + 1)) + plan.batchSize * (plan.userCount + 1) + 2
      < 2 * (plan.userCount - i) + plan.batchSize * (plan.userCount + 1) + 1
    omega
  | @fill round i hm hround hi hr =>
    rw [hm]
    show (plan.batchSize - round) * (plan.userCount + 1) + (plan.userCount - (i + 1)) + 1
      < (plan.batchSize - round) * (plan.userCount + 1) + (plan.userCount - i) + 1
    omega
  | @fillRound round i hm hround hi =>
    obtain ⟨k, hk⟩ := Nat.exists_eq_add_of_lt hround
    rw [hm]
    show (plan.batchSize - (round + 1)) * (plan.userCount + 1) + (plan.userCount - 0) + 1
      < (plan.batchSize - round) * (plan.userCount + 1) + (plan.userCount - i) + 1
    rw [show plan.batchSize - (round + 1) = k by omega, show plan.batchSize - round = k + 1 by omega,
      Nat.succ_mul]
    omega
  | @start round i hm hround =>
    rw [hm]
    exact Nat.succ_pos _

/-- A dispatch costs one of the owed ones and makes a task. -/
theorem Working.work_startTask (h : s.Working plan) (hp : s.Placed plan index) {holder : String}
    (hw : w < plan.workers) (hpc : s.pc w = .holding holder) :
    (s.startTask w holder).work plan < s.work plan := by
  obtain ⟨j, hj, hjw, ho⟩ := hp.housed.hand w holder hpc
  have hj' : j < plan.userCount := Nat.lt_of_lt_of_le hj hp.le
  subst ho
  have hheld : s.held plan j = 1 := by
    unfold held
    rw [hjw, if_pos hpc]
  have hbound := (h.user j hj').dispatched_le
  have howed := owed_startTask (s := s) (w := w) hj' (by omega)
  have hrank : (s.startTask w (plan.openId j)).workerRank plan + (s.pc w).rank
      ≤ s.workerRank plan + 3 := by
    have hset := workerRank_setPc (s := s) hw
      (if i64 (s.runTaskCount w + 1) ≥ s.totalTaskCount w then .draining else .top)
    have hpcrank : (if i64 (s.runTaskCount w + 1) ≥ s.totalTaskCount w then WorkerPc.draining
        else .top).rank ≤ 3 := by split <;> decide
    exact Nat.le_trans (Nat.le_of_eq hset) (Nat.add_le_add_left hpcrank _)
  have htask : (s.startTask w (plan.openId j)).taskRank = 4 + s.taskRank := by
    unfold taskRank Exec.startTask
    simp only [map_cons, sum_cons]
    rfl
  rw [hpc] at hrank
  have hrank' : (s.startTask w (plan.openId j)).workerRank plan + 1 ≤ s.workerRank plan + 3 := hrank
  unfold work
  rw [htask]
  show plan.mainRank s.main + _ + _ + _ < _
  omega

/-- **Every step takes away from the work that is left.** -/
theorem Inv.work_lt (h : s.Inv plan index) (hquiet : a.quiet plan)
    (hs : s.Stepped plan index a s') : s'.work plan < s.work plan := by
  have hworking : s.main = .running → s.Working plan := by
    intro hrun
    rcases h.phase with hf | hw
    · have hmain := hf.main
      rw [hrun] at hmain
      exact hmain.elim
    · exact hw
  -- a step of the main goroutine changes nothing else that `work` sees
  have hmain : a = .main → s'.owed plan = s.owed plan → s'.taskRank = s.taskRank →
      s'.workerRank plan = s.workerRank plan → s'.work plan < s.work plan := by
    intro ha ho ht hw
    subst ha
    have hlt : plan.mainRank s'.main < plan.mainRank s.main := by
      rcases h.phase with hf | hwork
      · exact hf.mainRank_lt hs
      · cases hs with
        | store hm | setupDone hm | enqueue hm | fill hm | fillRound hm | start hm =>
          rw [hwork.main] at hm
          exact MainPc.noConfusion hm
    unfold work
    omega
  have hpcs : ∀ {w : Nat} {pc : WorkerPc}, w < plan.workers → pc.rank < (s.pc w).rank →
      (s.setPc w pc).work plan < s.work plan := by
    intro w pc hw hlt
    have hset := workerRank_setPc (s := s) hw pc
    show plan.mainRank s.main + 8 * s.owed plan + s.taskRank + (s.setPc w pc).workerRank plan
      < plan.mainRank s.main + 8 * s.owed plan + s.taskRank + s.workerRank plan
    omega
  have htasks : ∀ {t : Task} {phase : TaskPhase}, t ∈ s.tasks → phase.rank < t.phase.rank →
      plan.mainRank s.main + 8 * s.owed plan + (s.setPhase t phase).taskRank + s.workerRank plan
        < s.work plan := by
    intro t phase ht hlt
    have hset := taskRank_setPhase ht phase
    unfold work
    omega
  cases hs with
  | store | setupDone | enqueue | fill | fillRound | start => exact hmain rfl rfl rfl rfl
  | leave hw hpc => exact hpcs hw.2 (by rw [hpc]; decide)
  | check hw hpc => exact hpcs hw.2 (by rw [hpc]; decide)
  | receive hw hpc => exact hpcs hw.2 (by rw [hpc]; exact Nat.lt_succ_self 1)
  | waitAll hw hpc => exact hpcs hw.2 (by rw [hpc]; decide)
  | runTask hw hpc => exact (hworking hw.1).work_startTask h.placed hw.2 hpc
  | load ht hphase => exact htasks ht (by rw [hphase]; exact Nat.lt_succ_self 3)
  | add ht hphase =>
    refine htasks ht ?_
    rw [hphase]
    show _ < 3
    split <;> decide
  | send ht hphase => exact htasks ht (by rw [hphase]; decide)
  | @close t failed ht hphase =>
    have herase := taskRank_erase ht
    rw [hphase] at herase
    have herase' : ((s.tasks.erase t).map fun t => t.phase.rank).sum + 1 = s.taskRank := herase
    show plan.mainRank s.main + 8 * s.owed plan + ((s.tasks.erase t).map fun t => t.phase.rank).sum
      + s.workerRank plan < plan.mainRank s.main + 8 * s.owed plan + s.taskRank + s.workerRank plan
    omega
  | cancel => exact hquiet.elim

end Exec

/-! ## The whole run -/

/-- The work of a whole run: the loops, `runTime` dispatches of every user, and the turns of
the workers. -/
def RunPlan.maxSteps (plan : RunPlan) : Nat :=
  2 * plan.userCount + plan.batchSize * (plan.userCount + 1) + 2
    + 8 * (plan.userCount * plan.runTime) + 3 * plan.workers

theorem Exec.work_init (plan : RunPlan) : Exec.init.work plan = plan.maxSteps := by
  have howed : Exec.init.owed plan = plan.userCount * plan.runTime := by
    show ∑ i ∈ Finset.range plan.userCount, (plan.runTime - 0) = _
    rw [Finset.sum_const, Finset.card_range, smul_eq_mul, Nat.sub_zero]
  have hrank : Exec.init.workerRank plan = 3 * plan.workers := by
    show ∑ _w ∈ Finset.range plan.workers, 3 = _
    rw [Finset.sum_const, Finset.card_range, smul_eq_mul, Nat.mul_comm]
  unfold Exec.work RunPlan.maxSteps
  rw [howed, hrank]
  rfl

/-- **One quiet step** keeps the invariant and takes away from the work. -/
theorem CaseRun.inv_step {plan : RunPlan} (hfits : plan.Fits) {s s' : CaseRun} {a : DispatchAct}
    (h : s.exec.Inv plan s.index) (hquiet : a.quiet plan) (hs : s.step plan a = some s') :
    s'.exec.Inv plan s'.index ∧ s'.exec.work plan < s.exec.work plan := by
  obtain ⟨e, he, rfl⟩ := Option.map_eq_some_iff.mp hs
  have hstepped := Exec.stepped_of_step he
  exact ⟨h.step hfits hquiet hstepped, h.work_lt hquiet hstepped⟩

theorem Exec.Inv.dispatchSound {plan : RunPlan} {index : String → Int} {s : Exec}
    (h : s.Inv plan index) (hfits : plan.Fits) : s.DispatchSound plan := by
  rcases h.phase with hf | hw
  · exact hf.dispatchSound hfits h.placed
  · exact hw.dispatchSound hfits h.placed

end Robot.Case
