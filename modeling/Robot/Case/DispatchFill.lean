import Robot.Case.DispatchCount

/-!
# Filling the channels

Before a worker runs, the main goroutine has put every holder into its channel `batchSize`
times: once in the setup loop, with the position and the worker's `totalTaskCount`, and once
in each round of the prefill. `sent` says how many entries of a user are in at any point of
this, so `Filling` is a loop invariant with one line for the users and one for the workers.
When the last round is over every ledger stands at its start, and the run is `Working`
(`Filling.start`).

Nobody receives yet, so a full channel here would be a deadlock. There is always room: the
user whose turn it is has fewer than `batchSize` entries in (`Filling.hasRoom`).
-/

namespace Robot.Case

open Robot.Lib Function

namespace RunPlan

variable (plan : RunPlan)

/-- The points of the two loops. -/
def AtLoop : MainPc → Prop
  | .setup i => i ≤ plan.userCount
  | .enqueue i => i < plan.userCount
  | .prefill round i =>
    0 < round ∧ round ≤ plan.batchSize ∧ i ≤ plan.userCount ∧ (round = plan.batchSize → i = 0)
  | .running => False

/-- How many entries of user `i` are in its channel. -/
def sent : MainPc → Nat → Nat
  | .setup n, i => if i < n then 1 else 0
  | .enqueue n, i => if i < n then 1 else 0
  | .prefill round n, i => round + if i < n then 1 else 0
  | .running, _ => plan.batchSize

/-- How many users the workers' `totalTaskCount`s take in. -/
def enqueued : MainPc → Nat
  | .setup n => n
  | .enqueue n => n
  | _ => plan.userCount

/-- The tasks of worker `w` counted when the setup loop has done `n` users. -/
def tasksUpTo (n w : Nat) : Nat := plan.runTime * ((plan.usersOf w).filter (· < n)).card

variable {plan}

theorem tasksUpTo_all (w : Nat) :
    plan.tasksUpTo plan.userCount w = plan.runTime * (plan.usersOf w).card := by
  unfold tasksUpTo
  rw [Finset.filter_true_of_mem fun i hi => (mem_usersOf.mp hi).1]

theorem tasksUpTo_succ {i w : Nat} (hi : i < plan.userCount) :
    plan.tasksUpTo (i + 1) w
      = plan.tasksUpTo i w + if i % plan.workers = w then plan.runTime else 0 := by
  unfold tasksUpTo
  by_cases hw : i % plan.workers = w
  · have hinsert : (plan.usersOf w).filter (· < i + 1)
        = insert i ((plan.usersOf w).filter (· < i)) := by
      ext j
      simp only [Finset.mem_filter, Finset.mem_insert, mem_usersOf]
      constructor
      · intro h
        by_cases hji : j = i
        · exact Or.inl hji
        · exact Or.inr ⟨h.1, by omega⟩
      · intro h
        rcases h with h | h
        · subst h
          exact ⟨⟨hi, hw⟩, Nat.lt_succ_self j⟩
        · exact ⟨h.1, by omega⟩
    rw [hinsert, Finset.card_insert_of_notMem (by simp), if_pos hw, Nat.mul_add, Nat.mul_one]
  · rw [if_neg hw, Nat.add_zero]
    congr 2
    ext j
    simp only [Finset.mem_filter, mem_usersOf]
    constructor
    · intro h
      have hji : j ≠ i := fun hji => hw (by rw [← hji]; exact h.1.2)
      exact ⟨h.1, by omega⟩
    · intro h
      exact ⟨h.1, by omega⟩

theorem tasksUpTo_lt (hfits : plan.Fits) {w : Nat} (hw : w < plan.workers) (n : Nat) :
    plan.tasksUpTo n w < 2 ^ 63 :=
  Nat.lt_of_le_of_lt (Nat.mul_le_mul_left _ (Finset.card_filter_le _ _)) (hfits.workerTasks hw)

end RunPlan

namespace Exec

variable {plan : RunPlan} {index : String → Int} {s s' : Exec} {a : DispatchAct} {i j w : Nat}

/-- What holds until the workers are started. -/
structure Filling (plan : RunPlan) (s : Exec) : Prop where
  main : plan.AtLoop s.main
  calm : s.errorBreakState = false ∧ s.cancelled = false
  idle : s.tasks = [] ∧ s.history = [] ∧ (∀ w, s.pc w = .top) ∧ ∀ w, s.runTaskCount w = 0
  user : ∀ i < plan.userCount,
    s.queued plan i = plan.sent s.main i ∧ s.dispatchTaskCount i = plan.sent s.main i
  total : ∀ w < plan.workers, s.totalTaskCount w = plan.tasksUpTo (plan.enqueued s.main) w

theorem filling_init (plan : RunPlan) : Exec.init.Filling plan :=
  { main := Nat.zero_le _
    calm := ⟨rfl, rfl⟩
    idle := ⟨rfl, rfl, fun _ => rfl, fun _ => rfl⟩
    user := fun i _ => ⟨rfl, rfl⟩
    total := fun w _ => by
      show (0 : Int) = plan.tasksUpTo 0 w
      simp [RunPlan.tasksUpTo] }

/-! ## Room in a channel -/

/-- A channel has room as soon as one of its users is below the batch and none above. -/
theorem hasRoom_of_queued_lt (hfits : plan.Fits) {n : Nat} (hn : n ≤ plan.userCount)
    (hh : s.Housed plan n) (hle : ∀ i < plan.userCount, s.queued plan i ≤ plan.batchSize)
    (hj : j < plan.userCount) (hlt : s.queued plan j < plan.batchSize) :
    s.hasRoom plan (j % plan.workers) := by
  have hw : j % plan.workers < plan.workers := Nat.mod_lt _ plan.workers_pos
  have hlen : (s.userHolderChannel (j % plan.workers)).length
      < plan.batchSize * (plan.usersOf (j % plan.workers)).card := by
    refine length_lt (RunPlan.openId_injOn (j % plan.workers)) ?_ ?_
      (RunPlan.mem_usersOf.mpr ⟨hj, rfl⟩) hlt
    · intro holder hmem
      obtain ⟨i, hi, hiw, ho⟩ := hh.channel _ holder hmem
      exact ⟨i, RunPlan.mem_usersOf.mpr ⟨Nat.lt_of_lt_of_le hi hn, hiw⟩, ho⟩
    · intro i hi
      obtain ⟨hi, hiw⟩ := RunPlan.mem_usersOf.mp hi
      have hq := hle i hi
      unfold queued at hq
      rw [hiw] at hq
      exact hq
  have hcap : plan.batchSize * (plan.usersOf (j % plan.workers)).card
      ≤ plan.batchSize * (plan.userCount / plan.workers + 1) :=
    Nat.mul_le_mul_left _ (RunPlan.card_usersOf_le hw)
  unfold hasRoom
  rw [hfits.channelCap_eq]
  exact_mod_cast Nat.lt_of_lt_of_le hlen hcap

/-- The main goroutine is at a send of user `i`. -/
def MainSends (plan : RunPlan) (s : Exec) (i : Nat) : Prop :=
  s.main = .enqueue i ∨
    ∃ round, s.main = .prefill round i ∧ round < plan.batchSize ∧ i < plan.userCount

/-- **The setup and the prefill never find a channel full.** -/
theorem Filling.hasRoom (hfits : plan.Fits) (h : s.Filling plan) (hp : s.Placed plan index)
    (hsend : s.MainSends plan i) : s.hasRoom plan (i % plan.workers) := by
  have hpos := plan.batchSize_pos
  have hmain := h.main
  have hbelow : i < plan.userCount ∧ plan.sent s.main i < plan.batchSize ∧
      ∀ j, plan.sent s.main j ≤ plan.batchSize := by
    rcases hsend with hm | ⟨round, hm, hround, hi⟩
    · rw [hm] at hmain ⊢
      refine ⟨hmain, ?_, fun j => ?_⟩
      · show (if i < i then 1 else 0) < plan.batchSize
        rw [if_neg (Nat.lt_irrefl i)]
        exact hpos
      · show (if j < i then 1 else 0) ≤ plan.batchSize
        split <;> omega
    · rw [hm]
      refine ⟨hi, ?_, fun j => ?_⟩
      · show (round + if i < i then 1 else 0) < plan.batchSize
        rw [if_neg (Nat.lt_irrefl i)]
        exact hround
      · show (round + if j < i then 1 else 0) ≤ plan.batchSize
        split <;> omega
  obtain ⟨hi, hlt, hle⟩ := hbelow
  refine hasRoom_of_queued_lt hfits hp.le hp.housed (fun j hj => ?_) hi ?_
  · rw [(h.user j hj).1]
    exact hle j
  · rw [(h.user i hi).1]
    exact hlt

/-! ## The loops -/

/-- One send of user `i`, as the numbers of user `j` see it. -/
theorem Filling.user_send (h : s.Filling plan) (hle : plan.sent s.main i ≤ plan.batchSize)
    (hi : i < plan.userCount) (hj : j < plan.userCount) :
    ((s.push (i % plan.workers) (plan.openId i)).countDispatch i).queued plan j
        = plan.sent s.main j + (if i = j then 1 else 0) ∧
      ((s.push (i % plan.workers) (plan.openId i)).countDispatch i).dispatchTaskCount j
        = (plan.sent s.main j + (if i = j then 1 else 0) : Nat) := by
  obtain ⟨hq, hd⟩ := h.user j hj
  have hfive := plan.batchSize_le_five
  refine ⟨by rw [← hq]; exact queued_push hj hi, ?_⟩
  show update s.dispatchTaskCount i (i64 (s.dispatchTaskCount i + 1)) j = _
  by_cases hij : i = j
  · subst hij
    rw [update_self, hd, if_pos rfl]
    exact i64_of_lt (by omega) (by omega)
  · rw [update_of_ne fun h => hij h.symm, hd, if_neg hij, Nat.add_zero]

theorem Filling.enqueue (hfits : plan.Fits) (h : s.Filling plan) (hm : s.main = .enqueue i) :
    ({ (s.push (i % plan.workers) (plan.openId i)).countDispatch i with
      totalTaskCount := update s.totalTaskCount (i % plan.workers)
        (i64 (s.totalTaskCount (i % plan.workers) + plan.runTime))
      main := .setup (i + 1) } : Exec).Filling plan := by
  have hi : i < plan.userCount := by
    have hmain := h.main
    rw [hm] at hmain
    exact hmain
  have hsent : ∀ j, plan.sent (.setup (i + 1)) j = plan.sent s.main j + if i = j then 1 else 0 := by
    intro j
    rw [hm]
    show (if j < i + 1 then 1 else 0) = (if j < i then 1 else 0) + if i = j then 1 else 0
    split <;> split <;> split <;> omega
  have hle : plan.sent s.main i ≤ plan.batchSize := by
    rw [hm]
    show (if i < i then 1 else 0) ≤ plan.batchSize
    split <;> omega
  refine ⟨hi, h.calm, h.idle, fun j hj => ?_, fun w hw => ?_⟩
  · show _ = plan.sent (.setup (i + 1)) j ∧ _ = (plan.sent (.setup (i + 1)) j : Int)
    rw [hsent]
    exact h.user_send hle hi hj
  · have hold := h.total w hw
    rw [hm] at hold
    have hold' : s.totalTaskCount w = plan.tasksUpTo i w := hold
    have hnew := RunPlan.tasksUpTo_lt hfits hw (i + 1)
    show update s.totalTaskCount (i % plan.workers)
      (i64 (s.totalTaskCount (i % plan.workers) + plan.runTime)) w = plan.tasksUpTo (i + 1) w
    rw [RunPlan.tasksUpTo_succ hi] at hnew ⊢
    by_cases hiw : w = i % plan.workers
    · rw [← hiw] at hnew ⊢
      rw [if_pos rfl] at hnew ⊢
      rw [update_self, hold']
      exact i64_of_lt (by omega) (by omega)
    · rw [update_of_ne hiw, hold', if_neg fun h => hiw h.symm, Nat.add_zero]

theorem Filling.fill {round : Nat} (h : s.Filling plan) (hm : s.main = .prefill round i)
    (hround : round < plan.batchSize) (hi : i < plan.userCount) :
    ({ (s.push (i % plan.workers) (plan.openId i)).countDispatch i with
      main := .prefill round (i + 1) } : Exec).Filling plan := by
  have hmain := h.main
  rw [hm] at hmain
  obtain ⟨hpos, _, _, _⟩ := hmain
  have hsent : ∀ j, plan.sent (.prefill round (i + 1)) j
      = plan.sent s.main j + if i = j then 1 else 0 := by
    intro j
    rw [hm]
    show (round + if j < i + 1 then 1 else 0) = (round + if j < i then 1 else 0) + if i = j then 1 else 0
    split <;> split <;> split <;> omega
  have hle : plan.sent s.main i ≤ plan.batchSize := by
    rw [hm]
    show (round + if i < i then 1 else 0) ≤ plan.batchSize
    split <;> omega
  refine ⟨⟨hpos, by omega, hi, by omega⟩, h.calm, h.idle, fun j hj => ?_, ?_⟩
  · show _ = plan.sent (.prefill round (i + 1)) j ∧ _ = (plan.sent (.prefill round (i + 1)) j : Int)
    rw [hsent]
    exact h.user_send hle hi hj
  · have htotal := h.total
    rw [hm] at htotal
    exact htotal

/-- A move of the loops that sends nothing. -/
theorem Filling.turn {main : MainPc} (h : s.Filling plan) (hmain : plan.AtLoop main)
    (hsent : ∀ i < plan.userCount, plan.sent main i = plan.sent s.main i)
    (henq : plan.enqueued main = plan.enqueued s.main) :
    ({ s with main := main } : Exec).Filling plan := by
  refine ⟨hmain, h.calm, h.idle, fun i hi => ?_, ?_⟩
  · show s.queued plan i = plan.sent main i ∧ s.dispatchTaskCount i = plan.sent main i
    rw [hsent i hi]
    exact h.user i hi
  · show ∀ w < plan.workers, s.totalTaskCount w = plan.tasksUpTo (plan.enqueued main) w
    rw [henq]
    exact h.total

/-- **With the last round the workers start**, every ledger with its whole window queued. -/
theorem Filling.start {round : Nat} (h : s.Filling plan) (hm : s.main = .prefill round i)
    (hround : ¬ round < plan.batchSize) : ({ s with main := .running } : Exec).Working plan := by
  have hmain := h.main
  rw [hm] at hmain
  obtain ⟨_, hle, _, hzero⟩ := hmain
  have hb : round = plan.batchSize := by omega
  obtain ⟨htasks, hhistory, hpc, hran⟩ := h.idle
  have hdispatched : ∀ j, s.dispatched plan j = 0 := by
    intro j
    unfold dispatched
    rw [hhistory]
    rfl
  have htasksOf : ∀ j p, s.tasksOf plan j p = 0 := by
    intro j p
    unfold tasksOf
    rw [htasks]
    rfl
  have htotal : ∀ w < plan.workers,
      s.totalTaskCount w = (plan.runTime * (plan.usersOf w).card : Nat) := by
    intro w hw
    have hold := h.total w hw
    rw [hm] at hold
    rw [hold, ← RunPlan.tasksUpTo_all w]
    rfl
  refine ⟨rfl, h.calm, fun j hj => ?_, htotal, fun w _ => ?_, fun w hw => ?_⟩
  · have hsent : plan.sent s.main j = plan.batchSize := by
      rw [hm, hb, hzero hb]
      rfl
    obtain ⟨hq, hd⟩ := h.user j hj
    rw [hsent] at hq hd
    have hheld : s.held plan j = 0 := by
      unfold held
      rw [hpc, if_neg WorkerPc.noConfusion]
    have hl : s.ledger plan j = ⟨plan.batchSize, 0, 0, 0⟩ := by
      unfold ledger
      rw [hq, hheld, htasksOf, htasksOf, hd, Int.sub_self]
      rfl
    have htally : s.UserTally plan j := by
      refine ⟨?_, ?_, ?_⟩
      · rw [hl, hd]
        rfl
      · rw [hl]
        exact Ledger.Balanced.start plan.batchSize_le
      · rw [hl, hdispatched, htasksOf]
    exact ⟨htally.counter, htally.balanced, htally.history⟩
  · show s.runTaskCount w = (∑ i ∈ plan.usersOf w, s.dispatched plan i : Nat)
    rw [hran, Finset.sum_eq_zero fun i _ => hdispatched i]
    rfl
  · show (s.pc w).isDone = true ↔ s.totalTaskCount w ≤ s.runTaskCount w
    have hcard : 0 < (plan.usersOf w).card :=
      Finset.card_pos.mpr ⟨w, RunPlan.self_mem_usersOf hw⟩
    have hrt : 0 < plan.runTime := Nat.lt_of_lt_of_le plan.batchSize_pos plan.batchSize_le
    have hprod : 0 < plan.runTime * (plan.usersOf w).card := Nat.mul_pos hrt hcard
    rw [hpc, htotal w hw, hran]
    exact ⟨fun hc => Bool.noConfusion hc, fun hle => by omega⟩

/-- **What a step keeps before the workers run**: the loops go on, or the workers start. -/
theorem Filling.step (hfits : plan.Fits) (h : s.Filling plan) (hquiet : a.quiet plan)
    (hs : s.Stepped plan index a s') : s'.Filling plan ∨ s'.Working plan := by
  have hmain := h.main
  have hrun : s.main ≠ .running := fun hm => by rw [hm] at hmain; exact hmain
  have hnone : ∀ t, t ∉ s.tasks := by
    rw [h.idle.1]
    exact fun _ => List.not_mem_nil
  cases hs with
  | @store i hm hi => exact Or.inl (h.turn hi (by rw [hm]; exact fun _ _ => rfl) (by rw [hm]; rfl))
  | @setupDone i hm hi =>
    rw [hm] at hmain
    have hall : i = plan.userCount := Nat.le_antisymm hmain (Nat.not_lt.mp hi)
    refine Or.inl (h.turn ⟨Nat.one_pos, plan.batchSize_pos, Nat.zero_le _, fun _ => rfl⟩ ?_ ?_)
    · intro j hj
      rw [hm, hall]
      show 1 + (if j < 0 then 1 else 0) = if j < plan.userCount then 1 else 0
      rw [if_neg (Nat.not_lt_zero j), if_pos hj]
    · rw [hm, hall]
      rfl
  | enqueue hm hr => exact Or.inl (h.enqueue hfits hm)
  | fill hm hround hi hr => exact Or.inl (h.fill hm hround hi)
  | @fillRound round i hm hround hi =>
    rw [hm] at hmain
    obtain ⟨hpos, _, hle, _⟩ := hmain
    have hall : i = plan.userCount := Nat.le_antisymm hle (Nat.not_lt.mp hi)
    refine Or.inl (h.turn ⟨Nat.succ_pos round, hround, Nat.zero_le _, fun _ => rfl⟩ ?_ ?_)
    · intro j hj
      rw [hm, hall]
      show round + 1 + (if j < 0 then 1 else 0) = round + if j < plan.userCount then 1 else 0
      rw [if_neg (Nat.not_lt_zero j), if_pos hj]
    · rw [hm]
      rfl
  | start hm hround => exact Or.inr (h.start hm hround)
  | leave hw | check hw | receive hw | runTask hw | waitAll hw => exact absurd hw.1 hrun
  | load ht | add ht | send ht | close _ ht => exact absurd ht (hnone _)
  | cancel => exact hquiet.elim

end Exec

end Robot.Case
