import Mathlib
import Robot.Lib.Machine
import Robot.Base.TaskAction
import Robot.Data.RingBuffer

/-!
# The RPC machine: `SendReq`, the receive loop and the killers

One `User` with all the tasks that talk through it (`data/impl/user.go`,
`base/task_action.go`). The threads are

* any number of `SendReq` calls, each on some task object with some sequence: the
  entry checks, `SetAwaitData`, `StoreBlocking`, the write, and the statements of
  `Yield` one by one;
* the receive loop: unpack a message and `LoadAndDelete` its sequence, then `Resume`,
  which tests `AwaitData` and only *then* sends into the channel;
* any number of `TimeoutKill`/`Kill` calls: set the flag, look at `AwaitData`, and
  either send an error into the channel or `Finish`;
* the worker that recycles objects: `Finish`, `ResetForReuse`, `InitTaskId`.

The three hooks of `Yield` (`IsTakenActionGuard`, `BeforeYield`, `AfterYield`) differ
per kind of task; their outcomes are parameters of the action, so every kind is covered.
A blocked step (full or empty channel, taken slot) is `none`. `unpacked` is a log of
what the receive loop has read so far; no step looks at it.

`AwaitTask` (the other user of `AwaitChannel`) is left out: it never calls `SendReq`.
-/

namespace Robot.Data

open Robot.Base Robot.Lib Function

/-- The program point of a `SendReq` call. -/
inductive SendPc (ρ : Type) where
  /-- not called yet -/
  | idle
  /-- the connection, closed and marshal checks -/
  | entry
  | setAwait
  | store
  | write
  /-- the two statements after a failed write -/
  | writeErrClear (e : String)
  | writeErrDelete (e : String)
  /-- `t.kill.Load()` -/
  | yield
  /-- `IsTakenActionGuard` and `BeforeYield` -/
  | guard
  /-- `<-t.AwaitChannel` -/
  | recv
  /-- `t.AwaitData = TaskActionAwaitData{}` -/
  | clear (r : TaskActionResumeData ρ)
  /-- `AfterYield` -/
  | after (r : TaskActionResumeData ρ)
  /-- returned: the error, or the response (none was asked for: `none`) -/
  | done (result : Except String (Option ρ))
  deriving DecidableEq

structure SendCall (ρ : Type) where
  task : Nat
  sequence : UInt64
  needRsp : Bool
  pc : SendPc ρ

/-- The program point of the receive loop, with the task, sequence and payload in hand. -/
inductive RecvPc (ρ : Type) where
  | idle
  | check (task : Nat) (sequence : UInt64) (d : ρ)
  | push (task : Nat) (sequence : UInt64) (d : ρ)

/-- The program point of a `TimeoutKill` or `Kill` call. -/
inductive KillPc where
  | idle
  | look (task : Nat) (msg : String)
  | push (task : Nat) (msg : String)

structure RpcState (ρ : Type) where
  tasks : Nat → TaskActionBase ρ
  rpcAwaitTask : RPCRingBuffer Nat
  calls : Nat → SendCall ρ
  /-- the sequences handed out so far -/
  used : List UInt64
  recv : RecvPc ρ
  kills : Nat → KillPc
  unpacked : List (UInt64 × ρ)

inductive RpcAct (ρ : Type) where
  | start (i task : Nat) (sequence : UInt64) (needRsp : Bool)
  | entry (i : Nat) (err : Option String)
  | setAwait (i : Nat)
  | store (i : Nat)
  | write (i : Nat) (err : Option String)
  | writeErrClear (i : Nat)
  | writeErrDelete (i : Nat)
  | yield (i : Nat)
  | guard (i : Nat) (taken : Bool) (before : Option String)
  | recv (i : Nat)
  | clear (i : Nat)
  | after (i : Nat) (err : Option String)
  | unpack (sequence : UInt64) (d : ρ)
  | resumeCheck
  | resumePush
  | killBegin (k task : Nat) (msg : String)
  | killLook (k : Nat)
  | killPush (k : Nat)
  | finish (task : Nat)
  | resetForReuse (task : Nat)
  | initTaskId (task : Nat)

namespace RpcState

variable {ρ : Type}

def setPc (st : RpcState ρ) (i : Nat) (pc : SendPc ρ) : RpcState ρ :=
  { st with calls := update st.calls i { st.calls i with pc := pc } }

def setTask (st : RpcState ρ) (t : Nat) (x : TaskActionBase ρ) : RpcState ρ :=
  { st with tasks := update st.tasks t x }

def setKill (st : RpcState ρ) (k : Nat) (pc : KillPc) : RpcState ρ :=
  { st with kills := update st.kills k pc }

/-- The task object call `i` works on. -/
def taskOf (st : RpcState ρ) (i : Nat) : TaskActionBase ρ := st.tasks (st.calls i).task

/-- How a finished `Yield` returns from `SendReq`. -/
def yielded (r : TaskActionResumeData ρ) : Except String (Option ρ) :=
  match r with
  | .err e => .error e
  | .data d => .ok (some d)

/-- One atomic step of one thread. -/
def step (st : RpcState ρ) : RpcAct ρ → Option (RpcState ρ)
  | .start i t s needRsp =>
    match (st.calls i).pc with
    | .idle =>
      if s ∈ st.used then none
      else some { st with
        calls := update st.calls i ⟨t, s, needRsp, .entry⟩
        used := s :: st.used }
    | _ => none
  | .entry i err =>
    match (st.calls i).pc, err with
    | .entry, some e => some (st.setPc i (.done (.error e)))
    | .entry, none => some (st.setPc i (if (st.calls i).needRsp then .setAwait else .write))
    | _, _ => none
  | .setAwait i =>
    match (st.calls i).pc with
    | .setAwait =>
      some ((st.setTask (st.calls i).task
        ((st.taskOf i).setAwaitData ⟨.rpc, (st.calls i).sequence⟩)).setPc i .store)
    | _ => none
  | .store i =>
    match (st.calls i).pc, st.rpcAwaitTask.storeBlocking (st.calls i).sequence
        (some (st.calls i).task) with
    | .store, some ring => some ({ st with rpcAwaitTask := ring }.setPc i .write)
    | _, _ => none
  | .write i err =>
    match (st.calls i).pc, err with
    | .write, some e =>
      some (st.setPc i (if (st.calls i).needRsp then .writeErrClear e else .done (.error e)))
    | .write, none =>
      some (st.setPc i (if (st.calls i).needRsp then .yield else .done (.ok none)))
    | _, _ => none
  | .writeErrClear i =>
    match (st.calls i).pc with
    | .writeErrClear e =>
      let t := st.taskOf i
      let t' := if t.awaitData.waitingId == (st.calls i).sequence
          && t.awaitData.waitingType == .rpc then t.clearAwaitData else t
      some ((st.setTask (st.calls i).task t').setPc i (.writeErrDelete e))
    | _ => none
  | .writeErrDelete i =>
    match (st.calls i).pc with
    | .writeErrDelete e =>
      some ({ st with rpcAwaitTask := st.rpcAwaitTask.delete (st.calls i).sequence }.setPc i
        (.done (.error e)))
    | _ => none
  | .yield i =>
    match (st.calls i).pc with
    | .yield =>
      if (st.taskOf i).kill then some (st.setPc i (.done (.error "task action killed")))
      else if (st.taskOf i).awaitChannel.isNone then
        some (st.setPc i (.done (.error "task action not set await data")))
      else some (st.setPc i .guard)
    | _ => none
  | .guard i taken before =>
    match (st.calls i).pc with
    | .guard =>
      if !taken then some (st.setPc i (.done (.error "task action guard not taken")))
      else match before with
        | some e => some (st.setPc i (.done (.error e)))
        | none => some (st.setPc i .recv)
    | _ => none
  | .recv i =>
    match (st.calls i).pc, (st.taskOf i).receive with
    | .recv, some (item, t) => some ((st.setTask (st.calls i).task t).setPc i (.clear item))
    | _, _ => none
  | .clear i =>
    match (st.calls i).pc with
    | .clear r =>
      some ((st.setTask (st.calls i).task (st.taskOf i).clearAwaitData).setPc i (.after r))
    | _ => none
  | .after i err =>
    match (st.calls i).pc, err with
    | .after _, some e => some (st.setPc i (.done (.error e)))
    | .after r, none => some (st.setPc i (.done (yielded r)))
    | _, _ => none
  | .unpack s d =>
    match st.recv with
    | .idle =>
      match st.rpcAwaitTask.loadAndDelete s with
      | ((some t, true), ring) =>
        some { st with rpcAwaitTask := ring, recv := .check t s d, unpacked := (s, d) :: st.unpacked }
      | (_, ring) => some { st with rpcAwaitTask := ring, unpacked := (s, d) :: st.unpacked }
    | _ => none
  | .resumeCheck =>
    match st.recv with
    | .check t s d =>
      if (st.tasks t).awaits ⟨.rpc, s⟩ then some { st with recv := .push t s d }
      else some { st with recv := .idle }
    | _ => none
  | .resumePush =>
    match st.recv with
    | .push t _ d =>
      match (st.tasks t).send (.data d) with
      | some x => some { st.setTask t x with recv := .idle }
      | none => none
    | _ => none
  | .killBegin k t msg =>
    match st.kills k with
    | .idle =>
      match (st.tasks t).beginKill with
      | none => some st
      | some x => some ((st.setTask t x).setKill k (.look t msg))
    | _ => none
  | .killLook k =>
    match st.kills k with
    | .look t msg =>
      if (st.tasks t).killPushes then some (st.setKill k (.push t msg))
      else some ((st.setTask t (st.tasks t).finish).setKill k .idle)
    | _ => none
  | .killPush k =>
    match st.kills k with
    | .push t msg =>
      match (st.tasks t).send (.err msg) with
      | some x => some ((st.setTask t x).setKill k .idle)
      | none => none
    | _ => none
  | .finish t => some (st.setTask t (st.tasks t).finish)
  | .resetForReuse t =>
    if (st.tasks t).pooled then some (st.setTask t (st.tasks t).resetForReuse) else none
  | .initTaskId t => some (st.setTask t (st.tasks t).initTaskId)

/-! ## Frame lemmas for the updates -/

variable (st : RpcState ρ)

theorem setPc_calls (i j : Nat) (pc : SendPc ρ) :
    (st.setPc i pc).calls j = if j = i then { st.calls j with pc := pc } else st.calls j := by
  unfold setPc
  by_cases h : j = i
  · subst h; simp
  · simp [h]

@[simp] theorem setPc_task (i j : Nat) (pc : SendPc ρ) : ((st.setPc i pc).calls j).task = (st.calls j).task := by
  rw [setPc_calls]; split <;> rfl

@[simp] theorem setPc_sequence (i j : Nat) (pc : SendPc ρ) :
    ((st.setPc i pc).calls j).sequence = (st.calls j).sequence := by
  rw [setPc_calls]; split <;> rfl

@[simp] theorem setPc_needRsp (i j : Nat) (pc : SendPc ρ) :
    ((st.setPc i pc).calls j).needRsp = (st.calls j).needRsp := by
  rw [setPc_calls]; split <;> rfl

theorem setPc_pc (i j : Nat) (pc : SendPc ρ) :
    ((st.setPc i pc).calls j).pc = if j = i then pc else (st.calls j).pc := by
  rw [setPc_calls]; split <;> rfl

@[simp] theorem setPc_tasks (i : Nat) (pc : SendPc ρ) : (st.setPc i pc).tasks = st.tasks := rfl
@[simp] theorem setPc_recv (i : Nat) (pc : SendPc ρ) : (st.setPc i pc).recv = st.recv := rfl
@[simp] theorem setPc_ring (i : Nat) (pc : SendPc ρ) : (st.setPc i pc).rpcAwaitTask = st.rpcAwaitTask := rfl
@[simp] theorem setTask_calls (t : Nat) (x : TaskActionBase ρ) : (st.setTask t x).calls = st.calls := rfl
theorem setTask_tasks (t u : Nat) (x : TaskActionBase ρ) :
    (st.setTask t x).tasks u = if u = t then x else st.tasks u := by
  unfold setTask
  by_cases h : u = t
  · subst h; simp
  · simp [h]

end RpcState

open RpcState

/-! ## What a step can do -/

variable {ρ : Type}

/-- Every outcome of `step`, with the guard it ran under: the one place the branches of
`step` are opened. -/
inductive Stepped (st : RpcState ρ) : RpcAct ρ → RpcState ρ → Prop where
  | start {i t s n} (hpc : (st.calls i).pc = .idle) (hs : s ∉ st.used) :
    Stepped st (.start i t s n)
      { st with calls := update st.calls i ⟨t, s, n, .entry⟩, used := s :: st.used }
  | entryErr {i e} (hpc : (st.calls i).pc = .entry) :
    Stepped st (.entry i (some e)) (st.setPc i (.done (.error e)))
  | entryAsk {i} (hpc : (st.calls i).pc = .entry) (hn : (st.calls i).needRsp = true) :
    Stepped st (.entry i none) (st.setPc i .setAwait)
  | entryTell {i} (hpc : (st.calls i).pc = .entry) (hn : (st.calls i).needRsp = false) :
    Stepped st (.entry i none) (st.setPc i .write)
  | setAwait {i} (hpc : (st.calls i).pc = .setAwait) :
    Stepped st (.setAwait i) ((st.setTask (st.calls i).task
      ((st.taskOf i).setAwaitData ⟨.rpc, (st.calls i).sequence⟩)).setPc i .store)
  | store {i ring} (hpc : (st.calls i).pc = .store)
      (hring : st.rpcAwaitTask.storeBlocking (st.calls i).sequence (some (st.calls i).task)
        = some ring) :
    Stepped st (.store i) ({ st with rpcAwaitTask := ring }.setPc i .write)
  | writeErrAsk {i e} (hpc : (st.calls i).pc = .write) (hn : (st.calls i).needRsp = true) :
    Stepped st (.write i (some e)) (st.setPc i (.writeErrClear e))
  | writeErrTell {i e} (hpc : (st.calls i).pc = .write) (hn : (st.calls i).needRsp = false) :
    Stepped st (.write i (some e)) (st.setPc i (.done (.error e)))
  | writeAsk {i} (hpc : (st.calls i).pc = .write) (hn : (st.calls i).needRsp = true) :
    Stepped st (.write i none) (st.setPc i .yield)
  | writeTell {i} (hpc : (st.calls i).pc = .write) (hn : (st.calls i).needRsp = false) :
    Stepped st (.write i none) (st.setPc i (.done (.ok none)))
  | writeErrClear {i e x} (hpc : (st.calls i).pc = .writeErrClear e)
      (hx : x = (st.taskOf i).clearAwaitData ∨ x = st.taskOf i) :
    Stepped st (.writeErrClear i)
      ((st.setTask (st.calls i).task x).setPc i (.writeErrDelete e))
  | writeErrDelete {i e} (hpc : (st.calls i).pc = .writeErrDelete e) :
    Stepped st (.writeErrDelete i)
      ({ st with rpcAwaitTask := st.rpcAwaitTask.delete (st.calls i).sequence }.setPc i
        (.done (.error e)))
  | yieldFail {i e} (hpc : (st.calls i).pc = .yield)
      (hfail : (st.taskOf i).kill = true ∨ (st.taskOf i).awaitChannel = none) :
    Stepped st (.yield i) (st.setPc i (.done (.error e)))
  | yieldOk {i} (hpc : (st.calls i).pc = .yield) : Stepped st (.yield i) (st.setPc i .guard)
  | guardFail {i taken before e} (hpc : (st.calls i).pc = .guard)
      (hfail : taken = false ∨ before ≠ none) :
    Stepped st (.guard i taken before) (st.setPc i (.done (.error e)))
  | guardOk {i} (hpc : (st.calls i).pc = .guard) :
    Stepped st (.guard i true none) (st.setPc i .recv)
  | recv {i item x} (hpc : (st.calls i).pc = .recv)
      (hx : (st.taskOf i).receive = some (item, x)) :
    Stepped st (.recv i) ((st.setTask (st.calls i).task x).setPc i (.clear item))
  | clear {i r} (hpc : (st.calls i).pc = .clear r) :
    Stepped st (.clear i)
      ((st.setTask (st.calls i).task (st.taskOf i).clearAwaitData).setPc i (.after r))
  | afterErr {i r e} (hpc : (st.calls i).pc = .after r) :
    Stepped st (.after i (some e)) (st.setPc i (.done (.error e)))
  | afterOk {i r} (hpc : (st.calls i).pc = .after r) :
    Stepped st (.after i none) (st.setPc i (.done (yielded r)))
  | unpackHit {s d t ring} (hr : st.recv = .idle)
      (hring : st.rpcAwaitTask.loadAndDelete s = ((some t, true), ring)) :
    Stepped st (.unpack s d)
      { st with rpcAwaitTask := ring, recv := .check t s d, unpacked := (s, d) :: st.unpacked }
  | unpackMiss {s d ring res} (hr : st.recv = .idle)
      (hring : st.rpcAwaitTask.loadAndDelete s = (res, ring)) :
    Stepped st (.unpack s d)
      { st with rpcAwaitTask := ring, unpacked := (s, d) :: st.unpacked }
  | resumeYes {t s d} (hr : st.recv = .check t s d)
      (ha : (st.tasks t).awaitData = ⟨.rpc, s⟩) :
    Stepped st .resumeCheck { st with recv := .push t s d }
  | resumeNo {t s d} (hr : st.recv = .check t s d) :
    Stepped st .resumeCheck { st with recv := .idle }
  | resumePush {t s d x} (hr : st.recv = .push t s d)
      (hx : (st.tasks t).send (.data d) = some x) :
    Stepped st .resumePush { st.setTask t x with recv := .idle }
  | killMiss {k t msg} : Stepped st (.killBegin k t msg) st
  | killBegin {k t msg x} (hx : (st.tasks t).beginKill = some x) :
    Stepped st (.killBegin k t msg) ((st.setTask t x).setKill k (.look t msg))
  | killPushes {k t msg} : Stepped st (.killLook k) (st.setKill k (.push t msg))
  | killFinish {k t} :
    Stepped st (.killLook k) ((st.setTask t (st.tasks t).finish).setKill k .idle)
  | killPush {k t msg x} (hx : (st.tasks t).send (.err msg) = some x) :
    Stepped st (.killPush k) ((st.setTask t x).setKill k .idle)
  | finish {t} : Stepped st (.finish t) (st.setTask t (st.tasks t).finish)
  | resetForReuse {t} :
    Stepped st (.resetForReuse t) (st.setTask t (st.tasks t).resetForReuse)
  | initTaskId {t} : Stepped st (.initTaskId t) (st.setTask t (st.tasks t).initTaskId)

theorem step_cases {st st' : RpcState ρ} {a : RpcAct ρ} (h : st.step a = some st') :
    Stepped st a st' := by
  cases a with simp only [step] at h
  | start i t s n =>
    split at h
    next hpc =>
      split at h
      · cases h
      next hs => cases h; exact .start hpc hs
    next => cases h
  | entry i err =>
    split at h
    next hpc => cases h; exact .entryErr hpc
    next hpc =>
      cases hn : (st.calls i).needRsp with
      | true => rw [hn] at h; cases h; exact .entryAsk hpc hn
      | false => rw [hn] at h; cases h; exact .entryTell hpc hn
    next => cases h
  | setAwait i =>
    split at h
    next hpc => cases h; exact .setAwait hpc
    next => cases h
  | store i =>
    split at h
    next ring hpc hring => cases h; exact .store hpc hring
    next => cases h
  | write i err =>
    split at h
    next hpc =>
      cases hn : (st.calls i).needRsp with
      | true => rw [hn] at h; cases h; exact .writeErrAsk hpc hn
      | false => rw [hn] at h; cases h; exact .writeErrTell hpc hn
    next hpc =>
      cases hn : (st.calls i).needRsp with
      | true => rw [hn] at h; cases h; exact .writeAsk hpc hn
      | false => rw [hn] at h; cases h; exact .writeTell hpc hn
    next => cases h
  | writeErrClear i =>
    split at h
    next e hpc =>
      refine Option.some.inj h ▸ .writeErrClear hpc ?_
      split
      · exact Or.inl rfl
      · exact Or.inr rfl
    next => cases h
  | writeErrDelete i =>
    split at h
    next e hpc => cases h; exact .writeErrDelete hpc
    next => cases h
  | yield i =>
    split at h
    next hpc =>
      split at h
      next hk => cases h; exact .yieldFail hpc (Or.inl hk)
      next =>
        split at h
        next hc => cases h; exact .yieldFail hpc (Or.inr (by simpa using hc))
        next => cases h; exact .yieldOk hpc
    next => cases h
  | guard i taken before =>
    split at h
    next hpc =>
      split at h
      next ht => cases h; exact .guardFail hpc (Or.inl (by simpa using ht))
      next ht =>
        have ht' : taken = true := by simpa using ht
        subst ht'
        split at h
        next => cases h; exact .guardFail hpc (Or.inr (by simp))
        next => cases h; exact .guardOk hpc
    next => cases h
  | recv i =>
    split at h
    next item x hpc hx => cases h; exact .recv hpc hx
    next => cases h
  | clear i =>
    split at h
    next r hpc => cases h; exact .clear hpc
    next => cases h
  | after i err =>
    split at h
    next hpc => cases h; exact .afterErr hpc
    next hpc => cases h; exact .afterOk hpc
    next => cases h
  | unpack s d =>
    split at h
    next hr =>
      split at h
      next t ring hring => cases h; exact .unpackHit hr hring
      next res ring hmiss hring => cases h; exact .unpackMiss hr hring
    next => cases h
  | resumeCheck =>
    split at h
    next t s d hr =>
      split at h
      next ha => cases h; exact .resumeYes hr (TaskActionBase.awaits_iff ha)
      next => cases h; exact .resumeNo hr
    next => cases h
  | resumePush =>
    split at h
    next t s d hr =>
      split at h
      next x hx => cases h; exact .resumePush hr hx
      next => cases h
    next => cases h
  | killBegin k t msg =>
    split at h
    next =>
      split at h
      next => cases h; exact .killMiss
      next x hx => cases h; exact .killBegin hx
    next => cases h
  | killLook k =>
    split at h
    next =>
      split at h
      next => cases h; exact .killPushes
      next => cases h; exact .killFinish
    next => cases h
  | killPush k =>
    split at h
    next =>
      split at h
      next x hx => cases h; exact .killPush hx
      next => cases h
    next => cases h
  | finish t => cases h; exact .finish
  | resetForReuse t =>
    split at h
    next => cases h; exact .resetForReuse
    next => cases h
  | initTaskId t => cases h; exact .initTaskId

/-- `NewRPCRingBuffer(256)`. -/
def userRing : RPCRingBuffer Nat := (newRPCRingBuffer 256).get (by decide)

/-- A new user (`NewUser`): fresh task objects, an empty ring, nothing running. -/
def rpcInit (ρ : Type) : RpcState ρ :=
  { tasks := fun _ => .new
    rpcAwaitTask := userRing
    calls := fun _ => ⟨0, 0, false, .idle⟩
    used := []
    recv := .idle
    kills := fun _ => .idle
    unpacked := [] }

end Robot.Data
