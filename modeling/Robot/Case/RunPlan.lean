import Robot.Lib.Int64
import Robot.Case.Params

/-!
# The plan of a case run

The numbers `RunCaseInner` (`case/case.go`) settles before it creates anything: how many
users, how many runs for each, how many of them at once, and how many workers share the
users out. `RunPlan` holds them with the facts the rest of the run relies on, and
`runPlan` computes them from the parameters and `GOMAXPROCS`, or gives one of the two
messages with which the function returns early.

User number `i` belongs to worker `i % workers`, so a worker has `userCount / workers`
users or one more (`card_usersOf_le`), and its channel is made for
`batchSize * (userCount / workers + 1)` holders.
-/

namespace Robot.Case

open Robot.Lib

/-- `runTime`, at least one. -/
def Params.runTimeOrOne (p : Params) : Int64 := if p.runTime ≤ 0 then 1 else p.runTime

/-- `batchSize`: `UserBatchCount`, or all the runs where that is not a number of runs, and
never more than five. -/
def Params.batchSize (p : Params) : Int64 :=
  let batchSize :=
    if p.userBatchCount ≤ 0 ∨ p.userBatchCount > p.runTimeOrOne then p.runTimeOrOne
    else p.userBatchCount
  if batchSize > 5 then 5 else batchSize

/-- `workers`: half of `GOMAXPROCS`, at least one and at most one for each user. -/
def Params.workers (p : Params) (gomaxprocs : Nat) : Nat :=
  let workers := if gomaxprocs / 2 < 1 then 1 else gomaxprocs / 2
  if workers > p.userCount.toNatClampNeg then p.userCount.toNatClampNeg else workers

/-- `userCaseDatas[i].openId`. -/
def Params.openId (p : Params) (i : Nat) : String :=
  p.openIDPrefix ++ formatInt (p.openIDStart + Int64.ofNat i)

structure RunPlan where
  openId : Nat → String
  userCount : Nat
  runTime : Nat
  batchSize : Nat
  workers : Nat
  errorBreak : Bool
  openId_inj : ∀ i < userCount, ∀ j < userCount, openId i = openId j → i = j
  runTime_lt : runTime < 2 ^ 63
  batchSize_pos : 0 < batchSize
  batchSize_le : batchSize ≤ runTime
  batchSize_le_five : batchSize ≤ 5
  workers_pos : 0 < workers
  workers_le : workers ≤ userCount

/-! ## From the parameters -/

theorem toNatClampNeg_cast {x : Int64} (h : 0 < x) : (x.toNatClampNeg : Int) = x.toInt := by
  have h0 : 0 < x.toInt := by simpa using Int64.lt_iff_toInt_lt.mp h
  rw [← Int64.toNat_toInt]
  omega

theorem toNatClampNeg_lt (x : Int64) : x.toNatClampNeg < 2 ^ 63 := by
  have h := x.toInt_lt
  rw [← Int64.toNat_toInt]
  omega

theorem Params.runTimeOrOne_pos (p : Params) : 0 < p.runTimeOrOne := by
  unfold Params.runTimeOrOne
  split
  · decide
  next h => exact Int64.not_le.mp h

/-- `runTime` is the larger of `RunTime` and one. -/
theorem Params.runTimeOrOne_toInt (p : Params) : p.runTimeOrOne.toInt = max p.runTime.toInt 1 := by
  unfold Params.runTimeOrOne
  split
  next h =>
    have h0 : p.runTime.toInt ≤ 0 := by simpa using Int64.le_iff_toInt_le.mp h
    show 1 = max p.runTime.toInt 1
    omega
  next h =>
    have h0 : 0 < p.runTime.toInt := by simpa using Int64.lt_iff_toInt_lt.mp (Int64.not_le.mp h)
    omega

/-- `batchSize` is between one and both five and the number of runs. -/
theorem Params.batchSize_bounds (p : Params) :
    0 < p.batchSize ∧ p.batchSize ≤ p.runTimeOrOne ∧ p.batchSize ≤ 5 := by
  have hpos := p.runTimeOrOne_pos
  unfold Params.batchSize
  simp only [Int64.lt_iff_toInt_lt, Int64.le_iff_toInt_le, gt_iff_lt] at *
  split <;> split <;> simp at * <;> omega

theorem Params.workers_bounds (p : Params) (gomaxprocs : Nat) (h : 0 < p.userCount) :
    0 < p.workers gomaxprocs ∧ p.workers gomaxprocs ≤ p.userCount.toNatClampNeg := by
  have hu := toNatClampNeg_cast h
  have h0 : 0 < p.userCount.toInt := by simpa using Int64.lt_iff_toInt_lt.mp h
  unfold Params.workers
  dsimp only
  split <;> split <;> omega

/-- Two users of one line have different OpenIDs. -/
theorem Params.openId_inj (p : Params) {i j : Nat} (hi : i < 2 ^ 63) (hj : j < 2 ^ 63)
    (h : p.openId i = p.openId j) : i = j := by
  have hnum := formatInt_inj ((String.append_right_inj _).mp h)
  have hoff : Int64.ofNat i = Int64.ofNat j := by simpa using hnum
  have hint := congrArg Int64.toInt hoff
  rw [Int64.toInt_ofNat_of_lt hi, Int64.toInt_ofNat_of_lt hj] at hint
  omega

/-- The plan of a line with users. -/
def Params.plan (p : Params) (gomaxprocs : Nat) (h : 0 < p.userCount) : RunPlan :=
  { openId := p.openId
    userCount := p.userCount.toNatClampNeg
    runTime := p.runTimeOrOne.toNatClampNeg
    batchSize := p.batchSize.toNatClampNeg
    workers := p.workers gomaxprocs
    errorBreak := p.errorBreak
    openId_inj := fun i hi j hj hij =>
      p.openId_inj (Nat.lt_trans hi (toNatClampNeg_lt _)) (Nat.lt_trans hj (toNatClampNeg_lt _)) hij
    runTime_lt := toNatClampNeg_lt _
    batchSize_pos := by
      have hb := p.batchSize_bounds.1
      have hcast := toNatClampNeg_cast hb
      have h0 : 0 < p.batchSize.toInt := by simpa using Int64.lt_iff_toInt_lt.mp hb
      omega
    batchSize_le := by
      have hle := Int64.le_iff_toInt_le.mp p.batchSize_bounds.2.1
      have hb := toNatClampNeg_cast p.batchSize_bounds.1
      have hr := toNatClampNeg_cast p.runTimeOrOne_pos
      omega
    batchSize_le_five := by
      have hle : p.batchSize.toInt ≤ 5 := Int64.le_iff_toInt_le.mp p.batchSize_bounds.2.2
      have hb := toNatClampNeg_cast p.batchSize_bounds.1
      omega
    workers_pos := (p.workers_bounds gomaxprocs h).1
    workers_le := (p.workers_bounds gomaxprocs h).2 }

/-- The head of `RunCaseInner`: `caseMapContainer` says which cases are registered. -/
def runPlan (caseMapContainer : String → Bool) (p : Params) (gomaxprocs : Nat) :
    Except String RunPlan :=
  if !caseMapContainer p.caseName then .error "Case Not Found"
  else if h : p.userCount ≤ 0 then .error "ID range is empty"
  else .ok (p.plan gomaxprocs (Int64.not_le.mp h))

theorem runPlan_ok {caseMapContainer : String → Bool} {p : Params} {gomaxprocs : Nat}
    {plan : RunPlan} (h : runPlan caseMapContainer p gomaxprocs = .ok plan) :
    ∃ hu : 0 < p.userCount, plan = p.plan gomaxprocs hu := by
  unfold runPlan at h
  split at h
  · simp at h
  · split at h
    · simp at h
    next hu => exact ⟨Int64.not_le.mp hu, (Except.ok.inj h).symm⟩

/-! ## Sharing the users out -/

namespace RunPlan

variable (plan : RunPlan)

/-- The capacity `userHolderChannel` is made with, in `int64`. -/
def channelCap : Int := i64 (plan.batchSize * i64 ((plan.userCount / plan.workers : Nat) + 1))

/-- The users of worker `w`. -/
def usersOf (w : Nat) : Finset Nat := (Finset.range plan.userCount).filter (· % plan.workers = w)

/-- What keeps every counter of the run inside its type: the position of a user in
`int32`, and the tasks of a worker and the dispatches of a user in `int64`. -/
structure Fits : Prop where
  users : plan.userCount ≤ 2 ^ 31
  tasks : plan.runTime * ((plan.userCount + plan.workers - 1) / plan.workers) < 2 ^ 63
  dispatches : plan.runTime + plan.batchSize < 2 ^ 63

variable {plan}

@[simp] theorem mem_usersOf {w i : Nat} :
    i ∈ plan.usersOf w ↔ i < plan.userCount ∧ i % plan.workers = w := by
  simp [usersOf]

theorem openId_injOn (w : Nat) : Set.InjOn plan.openId (plan.usersOf w) := by
  intro i hi j hj hij
  exact plan.openId_inj i (mem_usersOf.mp hi).1 j (mem_usersOf.mp hj).1 hij

/-- The worker with the same number as a user has that user: no worker is idle. -/
theorem self_mem_usersOf {w : Nat} (hw : w < plan.workers) : w ∈ plan.usersOf w :=
  mem_usersOf.mpr ⟨Nat.lt_of_lt_of_le hw plan.workers_le, Nat.mod_eq_of_lt hw⟩

/-- A worker has its even share of the users, or one more. -/
theorem card_usersOf {w : Nat} (hw : w < plan.workers) :
    (plan.usersOf w).card
      = plan.userCount / plan.workers + if w < plan.userCount % plan.workers then 1 else 0 := by
  have hcount := Nat.count_modEq_card plan.userCount plan.workers_pos w
  rw [Nat.count_eq_card_filter_range, Nat.mod_eq_of_lt hw] at hcount
  rw [← hcount]
  congr 1
  ext i
  simp [Nat.ModEq, Nat.mod_eq_of_lt hw]

theorem card_usersOf_le {w : Nat} (hw : w < plan.workers) :
    (plan.usersOf w).card ≤ plan.userCount / plan.workers + 1 := by
  rw [card_usersOf hw]
  split <;> omega

/-- The share rounded up. -/
theorem card_usersOf_le_ceil {w : Nat} (hw : w < plan.workers) :
    (plan.usersOf w).card ≤ (plan.userCount + plan.workers - 1) / plan.workers := by
  rw [card_usersOf hw, Nat.le_div_iff_mul_le plan.workers_pos]
  have hdiv := Nat.div_add_mod plan.userCount plan.workers
  have hpos := plan.workers_pos
  rw [Nat.add_mul, Nat.mul_comm (plan.userCount / plan.workers)]
  split
  · omega
  · omega

/-- The capacity does not wrap, and it is a batch for each of the users and one spare. -/
theorem Fits.channelCap_eq (h : plan.Fits) :
    plan.channelCap = plan.batchSize * (plan.userCount / plan.workers + 1 : Nat) := by
  have hshare : plan.userCount / plan.workers ≤ plan.userCount := Nat.div_le_self _ _
  have hu := h.users
  have hb := plan.batchSize_le_five
  unfold channelCap
  generalize plan.userCount / plan.workers = share at *
  have hprod : plan.batchSize * (share + 1) ≤ 5 * (2 ^ 31 + 1) :=
    Nat.mul_le_mul hb (by omega)
  have hsum : i64 ((share : Nat) + 1) = (share + 1 : Nat) := by
    rw [Nat.cast_add, Nat.cast_one]
    exact i64_of_lt (by omega) (by omega)
  rw [hsum, ← Nat.cast_mul]
  exact i64_of_lt (by omega) (by omega)

/-- All tasks of a worker fit. -/
theorem Fits.workerTasks (h : plan.Fits) {w : Nat} (hw : w < plan.workers) :
    plan.runTime * (plan.usersOf w).card < 2 ^ 63 :=
  Nat.lt_of_le_of_lt (Nat.mul_le_mul_left _ (card_usersOf_le_ceil hw)) h.tasks

end RunPlan

end Robot.Case
