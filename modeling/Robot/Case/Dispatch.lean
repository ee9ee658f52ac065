import Robot.Lib.Machine
import Robot.Case.RunPlan

/-!
# Dispatching the users of a case run

`RunCaseInner` (`case/case.go`) after its plan is made. The main goroutine stores every
user's position in the user's holder and puts the holder into the channel of its worker,
then fills the channels up to `batchSize` entries for each user, and only then starts the
workers. A worker receives a holder, runs a task for it and counts; it stops at its
`totalTaskCount` and waits for its tasks. A task that ends calls `onFinishFunc`: look the
user's record up *through the position in the holder*, count the dispatch, and put the
holder back into the worker's channel if the count has not passed `runTime`.

The machine has one action for each of these steps, so that the callbacks of any number of
tasks interleave with each other and with the workers. Two things in it are shared:

* the holders are process-wide (`UserContainerGetUser` is a `LoadOrStore` on one map, and
  no entry is removed while cases run), so a holder *is* its OpenID and its `Index` is one
  cell that every run of `RunCaseInner` writes. `Exec.step` therefore reads `index` from
  outside, and `Exec.writes` says what an action stores there;
* the channels, which block: a send into a full channel and a receive from an empty one
  are steps that are not enabled.

The rate is put around this machine in `Case/Pace`. Progress bar, tracer and log are left out: they
record a step, and every order of the steps is covered.

`history` lists the holders in the order of their `RunTaskAction`; no step reads it.
-/

namespace Robot.Case

open Robot.Lib Function

/-- How far a task is: in `HookRun`, or in `onFinishFunc` with the position read, with the
count taken and the holder to be sent back, or past that. -/
inductive TaskPhase where
  | running
  | loaded (index : Int)
  | sending
  | closing
deriving DecidableEq

structure Task where
  worker : Nat
  holder : String
  phase : TaskPhase
deriving DecidableEq

/-- A task is in flight from `RunTaskAction` until its callback has given the user's next
dispatch out; what follows is bookkeeping on a finished task. -/
def Task.inFlight (t : Task) : Bool :=
  match t.phase with
  | .closing => false
  | _ => true

/-- Where a worker is: at the top of its loop, at the receive, with a holder in hand, in
`WaitAll`, or gone. -/
inductive WorkerPc where
  | top
  | waiting
  | holding (holder : String)
  | draining
  | returned
deriving DecidableEq

/-- Where the main goroutine is: at `Index.Store` or at the send of user `i`, in the prefill
with `round` entries of each user sent, or in `wg.Wait` with the workers started. -/
inductive MainPc where
  | setup (i : Nat)
  | enqueue (i : Nat)
  | prefill (round i : Nat)
  | running
deriving DecidableEq

structure Exec where
  main : MainPc
  userHolderChannel : Nat → List String
  dispatchTaskCount : Nat → Int
  totalTaskCount : Nat → Int
  runTaskCount : Nat → Int
  pc : Nat → WorkerPc
  tasks : List Task
  errorBreakState : Bool
  cancelled : Bool
  history : List String

def Exec.init : Exec :=
  { main := .setup 0
    userHolderChannel := fun _ => []
    dispatchTaskCount := fun _ => 0
    totalTaskCount := fun _ => 0
    runTaskCount := fun _ => 0
    pc := fun _ => .top
    tasks := []
    errorBreakState := false
    cancelled := false
    history := [] }

inductive DispatchAct where
  | main
  | check (w : Nat)
  | receive (w : Nat)
  | runTask (w : Nat)
  | load (t : Task)
  | add (t : Task)
  | send (t : Task)
  | close (t : Task) (failed : Bool)
  | waitAll (w : Nat)
  | cancel

namespace Exec

variable (plan : RunPlan)

/-- The channel of worker `w` can take another holder. -/
def hasRoom (s : Exec) (w : Nat) : Prop := ((s.userHolderChannel w).length : Int) < plan.channelCap

instance (s : Exec) (w : Nat) : Decidable (s.hasRoom plan w) :=
  inferInstanceAs (Decidable (((s.userHolderChannel w).length : Int) < plan.channelCap))

/-- A send of `holder` into the channel of worker `w`. -/
def push (s : Exec) (w : Nat) (holder : String) : Exec :=
  { s with
    userHolderChannel :=
      update s.userHolderChannel w (s.userHolderChannel w ++ [holder]) }

/-- `userCaseDatas[i].dispatchTaskCount.Add(1)`. -/
def countDispatch (s : Exec) (i : Nat) : Exec :=
  { s with
    dispatchTaskCount := update s.dispatchTaskCount i (i64 (s.dispatchTaskCount i + 1)) }

def setPc (s : Exec) (w : Nat) (pc : WorkerPc) : Exec := { s with pc := update s.pc w pc }

/-- Task `t` moves on to `phase`. -/
def setPhase (s : Exec) (t : Task) (phase : TaskPhase) : Exec :=
  { s with tasks := { t with phase := phase } :: s.tasks.erase t }

/-- The setup loop and the prefill loops, up to the start of the workers. -/
def mainStep (s : Exec) : Option Exec :=
  match s.main with
  | .setup i =>
    if i < plan.userCount then some { s with main := .enqueue i }
    else some { s with main := .prefill 1 0 }
  | .enqueue i =>
    let w := i % plan.workers
    if s.hasRoom plan w then
      let s' := (s.push w (plan.openId i)).countDispatch i
      some { s' with
        totalTaskCount := update s.totalTaskCount w (i64 (s.totalTaskCount w + plan.runTime))
        main := .setup (i + 1) }
    else none
  | .prefill round i =>
    if round < plan.batchSize then
      if i < plan.userCount then
        let w := i % plan.workers
        if s.hasRoom plan w then
          let s' := (s.push w (plan.openId i)).countDispatch i
          some { s' with main := .prefill round (i + 1) }
        else none
      else some { s with main := .prefill (round + 1) 0 }
    else some { s with main := .running }
  | .running => none

/-- The worker after `RunTaskAction`: one more counted, and on to the next or to `WaitAll`. -/
def startTask (s : Exec) (w : Nat) (holder : String) : Exec :=
  let count := i64 (s.runTaskCount w + 1)
  let s' := s.setPc w (if count ≥ s.totalTaskCount w then .draining else .top)
  { s' with
    tasks := ⟨w, holder, .running⟩ :: s.tasks
    runTaskCount := update s.runTaskCount w count
    history := holder :: s.history }

/-- The top of the loop: leave on a breaking failure or a cancelled context. -/
def check (s : Exec) (w : Nat) : Option Exec :=
  if s.pc w = .top then
    if s.errorBreakState || s.cancelled then some (s.setPc w .returned)
    else some (s.setPc w .waiting)
  else none

/-- `<-workerData.userHolderChannel`. -/
def receive (s : Exec) (w : Nat) : Option Exec :=
  match s.pc w, s.userHolderChannel w with
  | .waiting, holder :: rest =>
    let s' := s.setPc w (.holding holder)
    some { s' with userHolderChannel := update s.userHolderChannel w rest }
  | _, _ => none

/-- `mgr.RunTaskAction` and the count after it. -/
def runTask (s : Exec) (w : Nat) : Option Exec :=
  match s.pc w with
  | .holding holder => some (s.startTask w holder)
  | _ => none

/-- `mgr.WaitAll`. -/
def waitAll (s : Exec) (w : Nat) : Option Exec :=
  if s.pc w = .draining ∧ ∀ t ∈ s.tasks, t.worker ≠ w then some (s.setPc w .returned) else none

/-- `onFinishFunc` reads the position of the finished user. -/
def load (index : String → Int) (s : Exec) (t : Task) : Option Exec :=
  match t.phase with
  | .running => some (s.setPhase t (.loaded (index t.holder)))
  | _ => none

/-- `dispatchTaskCount.Add(1)` on the record at that position, and the test of the result. A
position outside `userCaseDatas` is an index panic: there is no step from it. -/
def add (s : Exec) (t : Task) : Option Exec :=
  match t.phase with
  | .loaded i =>
    if 0 ≤ i ∧ i < plan.userCount then
      let finishTaskCount := i64 (s.dispatchTaskCount i.toNat + 1)
      some ((s.countDispatch i.toNat).setPhase t
        (if finishTaskCount ≤ plan.runTime then .sending else .closing))
    else none
  | _ => none

/-- The holder goes back into the channel of the task's worker. -/
def send (s : Exec) (t : Task) : Option Exec :=
  match t.phase with
  | .sending =>
    if s.hasRoom plan t.worker then some ((s.push t.worker t.holder).setPhase t .closing)
    else none
  | _ => none

/-- The rest of `onFinishFunc`, for a task that failed or not. -/
def close (s : Exec) (t : Task) (failed : Bool) : Option Exec :=
  match t.phase with
  | .closing =>
    some { s with
      tasks := s.tasks.erase t
      errorBreakState := s.errorBreakState || (failed && plan.errorBreak) }
  | _ => none

/-- Worker `w` exists and has been started. -/
def started (s : Exec) (w : Nat) : Prop := s.main = .running ∧ w < plan.workers

instance (s : Exec) (w : Nat) : Decidable (s.started plan w) :=
  inferInstanceAs (Decidable (s.main = .running ∧ w < plan.workers))

/-- One step of a run of `RunCaseInner`, with the `Index` cells of the holders given. -/
def step (index : String → Int) (s : Exec) : DispatchAct → Option Exec
  | .main => s.mainStep plan
  | .check w => if s.started plan w then s.check w else none
  | .receive w => if s.started plan w then s.receive w else none
  | .runTask w => if s.started plan w then s.runTask w else none
  | .waitAll w => if s.started plan w then s.waitAll w else none
  | .load t => if t ∈ s.tasks then s.load index t else none
  | .add t => if t ∈ s.tasks then s.add plan t else none
  | .send t => if t ∈ s.tasks then s.send plan t else none
  | .close t failed => if t ∈ s.tasks then s.close plan t failed else none
  | .cancel => some { s with cancelled := true }

/-- `Index.Store(int32(i))`, the one write to a holder. -/
def writes (s : Exec) (a : DispatchAct) : Option (String × Int) :=
  match a, s.main with
  | .main, .setup i => if i < plan.userCount then some (plan.openId i, i32 i) else none
  | _, _ => none

end Exec

/-- The cells after an action that stores `write`. -/
def storeIndex (index : String → Int) : Option (String × Int) → String → Int
  | none => index
  | some (holder, i) => update index holder i

/-- One run of `RunCaseInner` and the cells of the holders. -/
structure CaseRun where
  index : String → Int
  exec : Exec

/-- One step of a run that has the cells to itself. -/
def CaseRun.step (plan : RunPlan) (s : CaseRun) (a : DispatchAct) : Option CaseRun :=
  (s.exec.step plan s.index a).map fun exec =>
    { index := storeIndex s.index (s.exec.writes plan a), exec := exec }

namespace Exec

variable (plan : RunPlan)

/-! ## What a step does -/

/-- The steps that are enabled in `s`, each with what it needs and where it leads. -/
inductive Stepped (index : String → Int) (s : Exec) : DispatchAct → Exec → Prop
  | store {i : Nat} (hm : s.main = .setup i) (hi : i < plan.userCount) :
    Stepped index s .main { s with main := .enqueue i }
  | setupDone {i : Nat} (hm : s.main = .setup i) (hi : ¬ i < plan.userCount) :
    Stepped index s .main { s with main := .prefill 1 0 }
  | enqueue {i : Nat} (hm : s.main = .enqueue i) (hr : s.hasRoom plan (i % plan.workers)) :
    Stepped index s .main
      { (s.push (i % plan.workers) (plan.openId i)).countDispatch i with
        totalTaskCount := update s.totalTaskCount (i % plan.workers)
          (i64 (s.totalTaskCount (i % plan.workers) + plan.runTime))
        main := .setup (i + 1) }
  | fill {round i : Nat} (hm : s.main = .prefill round i) (hb : round < plan.batchSize)
    (hi : i < plan.userCount) (hr : s.hasRoom plan (i % plan.workers)) :
    Stepped index s .main
      { (s.push (i % plan.workers) (plan.openId i)).countDispatch i with
        main := .prefill round (i + 1) }
  | fillRound {round i : Nat} (hm : s.main = .prefill round i) (hb : round < plan.batchSize)
    (hi : ¬ i < plan.userCount) : Stepped index s .main { s with main := .prefill (round + 1) 0 }
  | start {round i : Nat} (hm : s.main = .prefill round i) (hb : ¬ round < plan.batchSize) :
    Stepped index s .main { s with main := .running }
  | leave {w : Nat} (hw : s.started plan w) (hpc : s.pc w = .top)
    (hbreak : s.errorBreakState = true ∨ s.cancelled = true) :
    Stepped index s (.check w) (s.setPc w .returned)
  | check {w : Nat} (hw : s.started plan w) (hpc : s.pc w = .top) :
    Stepped index s (.check w) (s.setPc w .waiting)
  | receive {w : Nat} {holder : String} {rest : List String} (hw : s.started plan w)
    (hpc : s.pc w = .waiting) (hq : s.userHolderChannel w = holder :: rest) :
    Stepped index s (.receive w)
      { s.setPc w (.holding holder) with
        userHolderChannel := update s.userHolderChannel w rest }
  | runTask {w : Nat} {holder : String} (hw : s.started plan w) (hpc : s.pc w = .holding holder) :
    Stepped index s (.runTask w) (s.startTask w holder)
  | waitAll {w : Nat} (hw : s.started plan w) (hpc : s.pc w = .draining)
    (ht : ∀ t ∈ s.tasks, t.worker ≠ w) : Stepped index s (.waitAll w) (s.setPc w .returned)
  | load {t : Task} (ht : t ∈ s.tasks) (hp : t.phase = .running) :
    Stepped index s (.load t) (s.setPhase t (.loaded (index t.holder)))
  | add {t : Task} {i : Nat} (ht : t ∈ s.tasks) (hp : t.phase = .loaded i)
    (hi : i < plan.userCount) :
    Stepped index s (.add t) ((s.countDispatch i).setPhase t
      (if i64 (s.dispatchTaskCount i + 1) ≤ plan.runTime then .sending else .closing))
  | send {t : Task} (ht : t ∈ s.tasks) (hp : t.phase = .sending) (hr : s.hasRoom plan t.worker) :
    Stepped index s (.send t) ((s.push t.worker t.holder).setPhase t .closing)
  | close {t : Task} (failed : Bool) (ht : t ∈ s.tasks) (hp : t.phase = .closing) :
    Stepped index s (.close t failed)
      { s with
        tasks := s.tasks.erase t
        errorBreakState := s.errorBreakState || (failed && plan.errorBreak) }
  | cancel : Stepped index s .cancel { s with cancelled := true }

variable {plan} {index : String → Int} {s s' : Exec} {a : DispatchAct}

theorem stepped_of_mainStep (h : s.mainStep plan = some s') : s.Stepped plan index .main s' := by
  unfold mainStep at h
  split at h
  next i hm =>
    split at h
    next hi => exact Option.some.inj h ▸ .store hm hi
    next hi => exact Option.some.inj h ▸ .setupDone hm hi
  next i hm =>
    dsimp only at h
    split at h
    next hr => exact Option.some.inj h ▸ .enqueue hm hr
    next => simp at h
  next round i hm =>
    split at h
    next hb =>
      split at h
      next hi =>
        dsimp only at h
        split at h
        next hr => exact Option.some.inj h ▸ .fill hm hb hi hr
        next => simp at h
      next hi => exact Option.some.inj h ▸ .fillRound hm hb hi
    next hb => exact Option.some.inj h ▸ .start hm hb
  next => simp at h

theorem stepped_of_check {w : Nat} (hw : s.started plan w) (h : s.check w = some s') :
    s.Stepped plan index (.check w) s' := by
  unfold check at h
  split at h
  next hpc =>
    split at h
    next hbreak =>
      rw [Bool.or_eq_true] at hbreak
      exact Option.some.inj h ▸ .leave hw hpc hbreak
    next => exact Option.some.inj h ▸ .check hw hpc
  next => simp at h

theorem stepped_of_add {t : Task} (ht : t ∈ s.tasks) (h : s.add plan t = some s') :
    s.Stepped plan index (.add t) s' := by
  unfold add at h
  split at h
  next i hp =>
    split at h
    next hi =>
      obtain ⟨n, rfl⟩ := Int.eq_ofNat_of_zero_le hi.1
      exact Option.some.inj h ▸ .add ht hp (by omega)
    next => simp at h
  next => simp at h

/-- The relation says everything a step can do. -/
theorem stepped_of_step (h : s.step plan index a = some s') : s.Stepped plan index a s' := by
  cases a with
  | main => exact stepped_of_mainStep h
  | cancel => exact Option.some.inj h ▸ .cancel
  | check w =>
    obtain ⟨hw, h⟩ := Option.ite_none_right_eq_some.mp h
    exact stepped_of_check hw h
  | receive w =>
    obtain ⟨hw, h⟩ := Option.ite_none_right_eq_some.mp h
    unfold receive at h
    split at h
    next hpc hq => exact Option.some.inj h ▸ .receive hw hpc hq
    next => simp at h
  | runTask w =>
    obtain ⟨hw, h⟩ := Option.ite_none_right_eq_some.mp h
    unfold runTask at h
    split at h
    next hpc => exact Option.some.inj h ▸ .runTask hw hpc
    next => simp at h
  | waitAll w =>
    obtain ⟨hw, h⟩ := Option.ite_none_right_eq_some.mp h
    unfold waitAll at h
    split at h
    next hpc => exact Option.some.inj h ▸ .waitAll hw hpc.1 hpc.2
    next => simp at h
  | load t =>
    obtain ⟨ht, h⟩ := Option.ite_none_right_eq_some.mp h
    unfold load at h
    split at h
    next hp => exact Option.some.inj h ▸ .load ht hp
    next => simp at h
  | add t =>
    obtain ⟨ht, h⟩ := Option.ite_none_right_eq_some.mp h
    exact stepped_of_add ht h
  | send t =>
    obtain ⟨ht, h⟩ := Option.ite_none_right_eq_some.mp h
    unfold send at h
    split at h
    next hp =>
      split at h
      next hr => exact Option.some.inj h ▸ .send ht hp hr
      next => simp at h
    next => simp at h
  | close t failed =>
    obtain ⟨ht, h⟩ := Option.ite_none_right_eq_some.mp h
    unfold close at h
    split at h
    next hp => exact Option.some.inj h ▸ .close failed ht hp
    next => simp at h

end Exec

end Robot.Case
