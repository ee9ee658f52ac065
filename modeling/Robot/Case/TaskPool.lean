import Mathlib
import Robot.Base.TaskAction

/-!
# The worker's pool of case tasks

`RunCaseInner` in `case/case.go` gives every worker a `sync.Pool` of `TaskActionCase`
objects. The worker takes one out, resets it, registers `onFinishFunc` on it and hands it to
a goroutine, which runs `task.Finish(task.HookRun())`; the winner of `Finish` calls
`onFinishFunc`, whose last statement puts the object back. So an object is meant to have one
owner at a time: the worker while it prepares it, then the run, then the pool.

`Finish` has a second caller. A timer that `SetAwaitData` armed calls `TimeoutKill`, and this
one calls `Finish` itself when the task is not waiting at that moment, while `HookRun` is
still executing. If it wins the flag, the object is back in the pool under the feet of its
run; the worker resets it and starts another run on it, and the old run's own `Finish` then
wins the flag of the new one.

The machine has one worker, any number of objects and runs, and the timers. The statements of
`ResetForReuse`, `InitOnFinish`, `InitTaskId`, `Finish` and `TimeoutKill` are separate steps;
inside `HookRun` the case function waits, wakes and goes on as it likes. `SingleOwner` is
what is asked of it and `timeoutLoses` the condition under which `Case/PoolOwner` proves it.

Left out: what `onFinishFunc` does besides `Put` (progress, counters, the next user), since
none of it touches the object, and `Kill`, which nothing calls for these tasks.
-/

namespace Robot.Case

open Robot.Base Function

/-- The goroutines: the worker, the goroutine of run `k`, and the `TimeoutKill` of the timer
that run `j` armed. -/
inductive PoolActor where
  | worker
  | run (k : Nat)
  | timer (j : Nat)
  deriving DecidableEq

/-- The program points of `Finish`. -/
inductive FinishAt where
  /-- `t.Timeout.Stop()` -/
  | stop
  /-- `t.finished.CompareAndSwap(false, true)` -/
  | cas
  /-- `t.finishLock.Lock()` -/
  | lock
  /-- the loop over `t.onFinish`, with so many callbacks to go -/
  | loop (index : Nat)
  /-- `taskActionPool.Put(task)` at the end of a callback -/
  | put (index : Nat)
  /-- the deferred `t.finishLock.Unlock()` -/
  | unlock
  deriving DecidableEq

/-- The program points, with the object the goroutine is busy with. -/
inductive PoolPc where
  | idle
  | done
  /-- the worker: `task.ResetForReuse()` -/
  | reset (o : Nat)
  /-- `InitOnFinish`: `t.finished.Load()` without the lock -/
  | load (o : Nat)
  | lockInit (o : Nat)
  | loadLocked (o : Nat)
  /-- `t.onFinish = append(t.onFinish, fn)` -/
  | append (o : Nat)
  /-- `fn(t.Impl, t.result)` of a task that is finished already -/
  | callInit (o : Nat) (locked : Bool)
  | putInit (o : Nat) (locked : Bool)
  | unlockInit (o : Nat)
  /-- `RunTaskAction` -/
  | initTaskId (o : Nat)
  | invoke (o : Nat)
  /-- a run: inside `HookRun`, and there blocked in `Yield` or not -/
  | hook (o : Nat) (blocked : Bool)
  | finish (o : Nat) (pc : FinishAt)
  /-- a timer, armed or stopped -/
  | pending (o : Nat)
  | stopped (o : Nat)
  /-- `TimeoutKill`: `t.finished.Load()` -/
  | loadFinished (o : Nat)
  /-- the test of the channel, `t.kill.Store(true)` -/
  | kill (o : Nat)
  /-- the test of `AwaitData` -/
  | look (o : Nat)
  | push (o : Nat)
  deriving DecidableEq

/-- Who an object is meant for. -/
inductive Holder where
  | nobody
  | worker
  | run (k : Nat)
  deriving DecidableEq

/-- A `TaskActionCase`. `made` is false before `New` has made it, `onFinish` lists the runs
whose `onFinishFunc` is registered, `timeout` is the timer in the field `Timeout`. `holder` is
a record no step looks at. -/
structure CaseObject where
  base : TaskActionBase Unit
  made : Bool
  timeout : Option Nat
  onFinish : List Nat
  finishLock : Bool
  holder : Holder

/-- The objects, the goroutines, the number of runs started, and the callbacks called: whose,
and by whom. -/
structure PoolState where
  objects : Nat → CaseObject
  pcs : PoolActor → PoolPc
  runs : Nat
  calls : List (Nat × PoolActor)

inductive PoolAct where
  /-- `taskActionPool.Get()` returns object `o`, from the pool or new -/
  | get (o : Nat)
  /-- the next statement of a goroutine -/
  | go (w : PoolActor)
  /-- the timer that run `j` armed fires -/
  | fire (j : Nat)
  /-- inside the `HookRun` of run `k` -/
  | setAwaitData (k : Nat) (awaitData : TaskActionAwaitData)
  | clearAwaitData (k : Nat)
  | yield (k : Nat) (refused : Bool)
  | wake (k : Nat)
  | hookReturn (k : Nat)
  /-- `Resume` of object `o`, by a receive loop -/
  | resume (o : Nat) (awaitData : TaskActionAwaitData)

namespace PoolState

/-- Goroutine `w` goes on, nothing else happens. -/
def goto (s : PoolState) (w : PoolActor) (pc : PoolPc) : PoolState :=
  { s with pcs := update s.pcs w pc }

/-- Goroutine `w` goes on and object `o` changes. -/
def move (s : PoolState) (w : PoolActor) (pc : PoolPc) (o : Nat) (c : CaseObject) : PoolState :=
  { s with pcs := update s.pcs w pc, objects := update s.objects o c }

/-- `if t.Timeout != nil { t.Timeout.Stop() }` for object `o`, as the timers see it. -/
def stopTimeout (s : PoolState) (o : Nat) : PoolActor → PoolPc
  | .timer j =>
    match s.pcs (.timer j) with
    | .pending o' => if (s.objects o).timeout = some j then .stopped o' else .pending o'
    | pc => pc
  | w => s.pcs w

/-- The statements of `Finish` on object `o`. An index past the end of `onFinish` would be a
panic. -/
def finishStep (s : PoolState) (w : PoolActor) (o : Nat) : FinishAt → Option PoolState
  | .stop => some ({ s with pcs := s.stopTimeout o }.goto w (.finish o .cas))
  | .cas =>
    let c := s.objects o
    if c.base.finished then some (s.goto w .done)
    else some (s.move w (.finish o .lock) o { c with base := { c.base with finished := true } })
  | .lock =>
    let c := s.objects o
    if c.finishLock then none
    else some (s.move w (.finish o (.loop c.onFinish.length)) o { c with finishLock := true })
  | .loop 0 => some (s.move w (.finish o .unlock) o { s.objects o with onFinish := [] })
  | .loop (index + 1) =>
    match (s.objects o).onFinish[index]? with
    | none => none
    | some fn => some { s.goto w (.finish o (.put index)) with calls := s.calls ++ [(fn, w)] }
  | .put index =>
    let c := s.objects o
    some (s.move w (.finish o (.loop index)) o
      { c with base := { c.base with pooled := true }, holder := .nobody })
  | .unlock => some (s.move w .done o { s.objects o with finishLock := false })

/-- The statements of the worker's loop between `Get` and the next one. -/
def workerStep (s : PoolState) : Option PoolState :=
  match s.pcs .worker with
  | .reset o =>
    let c := s.objects o
    some ({ s with pcs := s.stopTimeout o }.move .worker (.load o) o
      { c with base := c.base.resetForReuse, onFinish := [], timeout := none })
  | .load o =>
    if (s.objects o).base.finished then some (s.goto .worker (.callInit o false))
    else some (s.goto .worker (.lockInit o))
  | .lockInit o =>
    let c := s.objects o
    if c.finishLock then none
    else some (s.move .worker (.loadLocked o) o { c with finishLock := true })
  | .loadLocked o =>
    if (s.objects o).base.finished then some (s.goto .worker (.callInit o true))
    else some (s.goto .worker (.append o))
  | .append o =>
    let c := s.objects o
    some (s.move .worker (.unlockInit o) o
      { c with onFinish := c.onFinish ++ [s.runs], holder := .run s.runs })
  | .callInit o locked =>
    some { s.goto .worker (.putInit o locked) with calls := s.calls ++ [(s.runs, .worker)] }
  | .putInit o locked =>
    let c := s.objects o
    some (s.move .worker (if locked then .unlockInit o else .initTaskId o) o
      { c with base := { c.base with pooled := true }, holder := .nobody })
  | .unlockInit o => some (s.move .worker (.initTaskId o) o { s.objects o with finishLock := false })
  | .initTaskId o =>
    let c := s.objects o
    some (s.move .worker (.invoke o) o { c with base := c.base.initTaskId })
  | .invoke o => some { (s.goto .worker .idle).goto (.run s.runs) (.hook o false) with
      runs := s.runs + 1 }
  | _ => none

/-- The statements of `TimeoutKill`. -/
def timerStep (s : PoolState) (j : Nat) : Option PoolState :=
  match s.pcs (.timer j) with
  | .loadFinished o =>
    if (s.objects o).base.finished then some (s.goto (.timer j) .done)
    else some (s.goto (.timer j) (.kill o))
  | .kill o =>
    let c := s.objects o
    if c.base.awaitChannel.isNone then some (s.goto (.timer j) .done)
    else some (s.move (.timer j) (.look o) o { c with base := { c.base with kill := true } })
  | .look o =>
    if (s.objects o).base.killPushes then some (s.goto (.timer j) (.push o))
    else some (s.goto (.timer j) (.finish o .stop))
  | .push o =>
    let c := s.objects o
    (c.base.send (.err "sys timeout")).map fun b =>
      s.move (.timer j) .done o { c with base := b }
  | .finish o pc => s.finishStep (.timer j) o pc
  | _ => none

/-- `SetAwaitData` by run `k` on its object: the timer is armed where the channel is made. -/
def setAwaitData (timeout : Int) (s : PoolState) (k o : Nat) (awaitData : TaskActionAwaitData) :
    PoolState :=
  let c := s.objects o
  let b := c.base.setAwaitData awaitData
  if c.base.awaitChannel.isNone ∧ timeout > 0 then
    s.move (.timer k) (.pending o) o { c with base := b, timeout := some k }
  else s.move (.run k) (.hook o false) o { c with base := b }

/-- One step. `timeout` is the case's timeout. -/
def step (timeout : Int) (s : PoolState) : PoolAct → Option PoolState
  | .get o =>
    let c := s.objects o
    if s.pcs .worker = .idle ∧ (c.base.pooled ∨ c.made = false) then
      some (s.move .worker (.reset o) o
        { c with base := { c.base with pooled := false }, made := true, holder := .worker })
    else none
  | .go .worker => s.workerStep
  | .go (.run k) =>
    match s.pcs (.run k) with
    | .finish o pc => s.finishStep (.run k) o pc
    | _ => none
  | .go (.timer j) => s.timerStep j
  | .fire j =>
    match s.pcs (.timer j) with
    | .pending o => some (s.goto (.timer j) (.loadFinished o))
    | _ => none
  | .setAwaitData k awaitData =>
    match s.pcs (.run k) with
    | .hook o false => some (s.setAwaitData timeout k o awaitData)
    | _ => none
  | .clearAwaitData k =>
    match s.pcs (.run k) with
    | .hook o false =>
      let c := s.objects o
      some (s.move (.run k) (.hook o false) o { c with base := c.base.clearAwaitData })
    | _ => none
  | .yield k refused =>
    match s.pcs (.run k) with
    | .hook o false =>
      let b := (s.objects o).base
      some (s.goto (.run k) (.hook o (!b.kill && b.awaitChannel.isSome && !refused)))
    | _ => none
  | .wake k =>
    match s.pcs (.run k) with
    | .hook o true =>
      let c := s.objects o
      c.base.receive.map fun r =>
        s.move (.run k) (.hook o false) o { c with base := r.2.clearAwaitData }
    | _ => none
  | .hookReturn k =>
    match s.pcs (.run k) with
    | .hook o false => some (s.goto (.run k) (.finish o .stop))
    | _ => none
  | .resume o awaitData =>
    let c := s.objects o
    if c.base.awaits awaitData then
      (c.base.send (.data ())).map fun b =>
        { s with objects := update s.objects o { c with base := b } }
    else some s

/-- The worker has just started; no object has been made. -/
def init : PoolState :=
  { objects := fun _ =>
      { base := .new, made := false, timeout := none, onFinish := [], finishLock := false,
        holder := .nobody }
    pcs := fun _ => .idle, runs := 0, calls := [] }

end PoolState

/-! ## What is asked of the pool -/

/-- The object a run is executing on, in `HookRun` or in `Finish`. -/
def PoolPc.busyWith : PoolPc → Option Nat
  | .hook o _ | .finish o _ => some o
  | _ => none

/-- A pooled task has a single owner. -/
structure SingleOwner (s : PoolState) : Prop where
  /-- no object is in the pool while a `HookRun` on it has not returned -/
  returned : ∀ k o b, s.pcs (.run k) = .hook o b → (s.objects o).base.pooled = false
  /-- no two runs execute on one object -/
  alone : ∀ k k' o, (s.pcs (.run k)).busyWith = some o → (s.pcs (.run k')).busyWith = some o →
    k = k'
  /-- the callback of a run is called by that run -/
  own : ∀ fn w, (fn, w) ∈ s.calls → w = .run fn

/-- The condition: a `TimeoutKill` that reaches the `CompareAndSwap` of `Finish` finds the
task finished. -/
def timeoutLoses (s : PoolState) : PoolAct → Bool
  | .go (.timer j) =>
    match s.pcs (.timer j) with
    | .finish o .cas => (s.objects o).base.finished
    | _ => true
  | _ => true

end Robot.Case
