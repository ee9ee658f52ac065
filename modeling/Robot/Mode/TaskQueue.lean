import Robot.Lib.Machine

/-!
# The master's task queues

The master hands the work of a report to its agents through memory: one buffered
channel per agent, filled by `enqueueAgentTask` and drained by the agent's long
polls, and one result channel per waiting call, found through the task key when the
agent posts its result. Four threads of control meet here and only the map accesses
are under the master's lock, so what matters is what is left to interleave:

* **`enqueueAgentTask`** takes its result channel and the agent's queue under the
  lock, then selects (put the task into the queue, give up on the context, give up
  after 35 s), then selects again (take the result, give up on the context, give up
  after 35 min), and on the way out deletes the result entry of its key, whoever
  owns it by then;
* **`handleAgentPoll`** fetches the queue of its agent under the lock and then selects
  between a task of *that* channel and the end of its request. Both branches may be
  ready, and then Go picks either: a task can be taken for a connection already closed;
* **`startAgentCleanup`** drops the queue of an agent not seen for five minutes, tasks
  and all, while calls and polls keep the channel they fetched;
* **the agent** executes what a response brings it and posts the result, which
  `handleAgentResult` puts into the channel the key names at that moment.

`Action` names the atomic steps, `Master.step` is the machine, and `Stepped` is its
inversion. What concerns only the registry (clock, agents, reports and their contexts)
is `Registry.step`, which the queues do not feel. A task is named by the call that
submitted it, because each call has its own task object. `CallMoved` and `PollMoved` say
what a step makes of one call and of one poll; the invariants of the modules that follow
are case analyses of these three relations.
-/

namespace Robot.Mode

open Robot.Lib Function

/-! ## The registry: clock, agents, reports, contexts -/

/-- The `Status` of an `agentInfo`. -/
inductive AgentStatus
  | online
  | busy
  | offline
  deriving DecidableEq, Repr

/-- What the queue logic reads of an `agentInfo`. -/
structure AgentInfo where
  status : AgentStatus
  lastSeen : ℕ
  sessionID : String
  deriving DecidableEq, Repr

/-- The `Status` of a `taskStatus`. -/
inductive TaskStatus
  | running
  | stopped
  | error
  | done
  deriving DecidableEq, Repr

/-- The master's books. The clock counts seconds. A submitted report has one number, for
its context and for its `taskStatus` record; other contexts (a reboot's) are numbered the
same way and have no report. -/
structure Registry where
  now : ℕ
  agents : String → Option AgentInfo
  contexts : ℕ
  ctxDone : ℕ → Bool
  status : ℕ → TaskStatus
  tasks : String → Option ℕ
  taskCancels : String → Option ℕ

/-- The steps that only touch the books. -/
inductive BookAction
  | advance (seconds : ℕ)
  | handleAgentRegister (agent sessionID : String)
  /-- `handleSubmitTask` up to the entry in `tasks` (line 366). -/
  | handleSubmitTask (report : String)
  /-- `handleSubmitTask` storing the cancel function of its context (line 401). -/
  | storeCancel (report : String) (ctx : ℕ)
  /-- A context that belongs to no report (`handleAgentReboot`). -/
  | openContext
  /-- A deadline, or the deferred `cancel()` of whoever opened the context. -/
  | endContext (ctx : ℕ)
  /-- The distribution goroutine of a report writes its outcome. -/
  | setStatus (ctx : ℕ) (status : TaskStatus)
  /-- The same goroutine's deferred `delete(m.taskCancels, …)`. -/
  | dropCancel (report : String)
  | deleteReport (report : String)
  | handleStopTask (report : String)
  deriving DecidableEq, Repr

/-- `m.agents[agent]` with `f` applied, when it exists. -/
def Registry.touchAgent (r : Registry) (agent : String) (f : AgentInfo → AgentInfo) : Registry :=
  { r with agents := update r.agents agent ((r.agents agent).map f) }

def Registry.step (r : Registry) : BookAction → Option Registry
  | .advance seconds => some { r with now := r.now + seconds }
  | .handleAgentRegister agent sessionID =>
    if agent = "" then some r
    else
      let info : AgentInfo := ⟨.online, r.now, sessionID⟩
      let registered := { r with agents := update r.agents agent (some info) }
      match r.agents agent with
      | none => some registered
      | some existing =>
        -- 409: the id is online in another process
        if existing.status = .online ∧ existing.sessionID ≠ "" ∧ existing.sessionID ≠ sessionID then
          some r
        else some registered
  | .handleSubmitTask report =>
    some { r with
      contexts := r.contexts + 1
      ctxDone := update r.ctxDone r.contexts false
      status := update r.status r.contexts .running
      tasks := update r.tasks report (some r.contexts) }
  | .storeCancel report ctx =>
    if ctx < r.contexts then
      some { r with taskCancels := update r.taskCancels report (some ctx) }
    else none
  | .openContext =>
    some { r with
      contexts := r.contexts + 1
      ctxDone := update r.ctxDone r.contexts false }
  | .endContext ctx =>
    if ctx < r.contexts then some { r with ctxDone := update r.ctxDone ctx true } else none
  | .setStatus ctx status =>
    if ctx < r.contexts then some { r with status := update r.status ctx status } else none
  | .dropCancel report => some { r with taskCancels := update r.taskCancels report none }
  | .deleteReport report => some { r with tasks := update r.tasks report none }
  | .handleStopTask report =>
    match r.tasks report with
    | none => some r            -- 404
    | some st =>
      if r.status st = .running then
        some { r with
          ctxDone := (r.taskCancels report).elim r.ctxDone fun ctx =>
            update r.ctxDone ctx true
          status := update r.status st .stopped }
      else some r               -- 400

/-! ## Calls, polls, channels -/

/-- What the queue logic reads of an `AgentTask`. `finite` says that `encoding/json` takes it: a
`TargetQPS` that is infinite or not a number, which a case line can ask for, is an error there. -/
structure AgentTask where
  taskKey : String
  reportID : String
  finite : Bool
  deriving DecidableEq, Repr

/-- Where an `enqueueAgentTask` call stands. `none` as an outcome is a nil error. -/
inductive CallPc
  | notCalled
  /-- In the first select, with the queue it fetched, since the given second. -/
  | queuing (queue since : ℕ)
  /-- In the second select: the task is in the queue, or beyond it. -/
  | waiting (since : ℕ)
  /-- A select is decided; the deferred delete is still to run. -/
  | leaving (err : Option String)
  | returned (err : Option String)
  deriving DecidableEq, Repr

/-- The task has been put into a queue. -/
def CallPc.pushed : CallPc → Bool
  | .notCalled | .queuing _ _ => false
  | .waiting _ | .leaving _ | .returned _ => true

/-- In the second select. -/
def CallPc.isWaiting : CallPc → Bool
  | .waiting _ => true
  | _ => false

def CallPc.hasReturned : CallPc → Bool
  | .returned _ => true
  | _ => false

/-- One `enqueueAgentTask` call. Its result channel has room for one result, of which the
call reads the `Error` text. -/
structure Call where
  agent : String
  task : AgentTask
  ctx : ℕ
  pc : CallPc
  resultCh : Option String
  deriving DecidableEq, Repr

/-- Where a `handleAgentPoll` request stands. -/
inductive PollPc
  | selecting
  /-- A task is received; its response is not written yet. -/
  | taken (call : ℕ)
  /-- The handler is done; the response is on its way to the agent. -/
  | sent (call : ℕ)
  | over
  deriving DecidableEq, Repr

/-- The task a poll has received and not yet brought to the agent. -/
def PollPc.task? : PollPc → Option ℕ
  | .taken c | .sent c => some c
  | .selecting | .over => none

structure Poll where
  agent : String
  queue : ℕ
  since : ℕ
  /-- The agent's side of the connection is still there. -/
  connected : Bool
  pc : PollPc
  deriving DecidableEq, Repr

/-- A task passing to an agent; `late` when its call had returned by then. -/
structure Handout where
  call : ℕ
  agent : String
  late : Bool
  deriving DecidableEq, Repr

/-- The master with everything on its way to and from the agents. Calls, polls and channels
are numbered in the order they are made. `queueAgent` remembers for whom a channel was
made. A posted result is `inFlight` (named by its task) until `handleAgentResult` has looked
up its key, and `landing` (named by the call whose channel was found) until it is sent
there. `handouts` (tasks received by polls) and `starts` (tasks received by agents) are the
history. -/
structure Master extends Registry where
  calls : ℕ → Call
  callCount : ℕ
  polls : ℕ → Poll
  pollCount : ℕ
  queues : ℕ → List ℕ
  queueAgent : ℕ → String
  queueCount : ℕ
  agentQueues : String → Option ℕ
  taskResults : String → Option ℕ
  executing : List (String × ℕ)
  inFlight : List (ℕ × String)
  landing : List (ℕ × String)
  handouts : List Handout
  starts : List Handout

/-- `NewMaster`. -/
def Master.init : Master where
  now := 0
  agents := fun _ => none
  contexts := 0
  ctxDone := fun _ => false
  status := fun _ => .done
  tasks := fun _ => none
  taskCancels := fun _ => none
  calls := fun _ => ⟨"", ⟨"", "", true⟩, 0, .notCalled, none⟩
  callCount := 0
  polls := fun _ => ⟨"", 0, 0, false, .over⟩
  pollCount := 0
  queues := fun _ => []
  queueAgent := fun _ => ""
  queueCount := 0
  agentQueues := fun _ => none
  taskResults := fun _ => none
  executing := []
  inFlight := []
  landing := []
  handouts := []
  starts := []

/-- `make(chan *robot_case.AgentTask, 8)`. -/
def queueCap : ℕ := 8

/-- `getOrCreateAgentQueueLocked`: the channel, and the master that has it. -/
def Master.getOrCreateAgentQueueLocked (s : Master) (agent : String) : ℕ × Master :=
  match s.agentQueues agent with
  | some q => (q, s)
  | none =>
    (s.queueCount, { s with
      queueCount := s.queueCount + 1
      queueAgent := update s.queueAgent s.queueCount agent
      agentQueues := update s.agentQueues agent (some s.queueCount) })

def Master.setCall (s : Master) (c : ℕ) (call : Call) : Master :=
  { s with calls := update s.calls c call }

def Master.setPoll (s : Master) (p : ℕ) (poll : Poll) : Master :=
  { s with polls := update s.polls p poll }

/-- The call with its program point moved. -/
def Call.at (call : Call) (pc : CallPc) : Call := { call with pc := pc }

/-- The poll with its program point moved. -/
def Poll.at (poll : Poll) (pc : PollPc) : Poll := { poll with pc := pc }

/-- How a select of `enqueueAgentTask` is left without its good case. -/
inductive GiveUp
  | cancelled
  | timedOut
  deriving DecidableEq, Repr

/-- How the second select is left. -/
inductive WaitExit
  | result
  | giveUp (how : GiveUp)
  deriving DecidableEq, Repr

/-! ## The steps -/

inductive Action
  | book (a : BookAction)
  /-- `enqueueAgentTask` up to its first select. -/
  | enqueueAgentTask (agent : String) (task : AgentTask) (ctx : ℕ)
  /-- `queue <- task`. -/
  | push (c : ℕ)
  /-- The first select gives up. -/
  | leaveQueue (c : ℕ) (how : GiveUp)
  /-- The second select is decided. -/
  | leaveWait (c : ℕ) (how : WaitExit)
  /-- The deferred delete, and the return. -/
  | finish (c : ℕ)
  /-- `handleAgentPoll` up to its select. -/
  | handleAgentPoll (agent : String)
  /-- `task := <-queue`. -/
  | take (p : ℕ)
  /-- `writeJSON` and the deferred status update of a poll that took a task. -/
  | respond (p : ℕ)
  /-- `<-ctx.Done()`: the 204 answer and the deferred status update. -/
  | endPoll (p : ℕ)
  /-- The agent's connection goes away. -/
  | disconnect (p : ℕ)
  /-- The response reaches the agent, which starts executing (`go a.executeTask`). -/
  | deliver (p : ℕ)
  /-- The response finds no connection. -/
  | lose (p : ℕ)
  /-- The agent has executed the task and posts its result. -/
  | postResult (agent : String) (c : ℕ) (err : String)
  /-- The posted result arrives, and its key is looked up under the lock. -/
  | handleAgentResult (c : ℕ) (err : String)
  /-- `ch <- res`, without blocking. -/
  | sendResult (d : ℕ) (err : String)
  /-- One agent's turn in `startAgentCleanup`. -/
  | cleanup (agent : String)
  deriving DecidableEq, Repr

/-- The error of a call that gives up in its first select. -/
def Call.queueError (call : Call) : GiveUp → String
  | .cancelled => "task cancelled"
  | .timedOut => "agent " ++ call.agent ++ " 没有在轮询，入队超时"

/-- The error of a call that gives up in its second select. -/
def Call.waitError (call : Call) : GiveUp → String
  | .cancelled => "task cancelled"
  | .timedOut => "agent " ++ call.agent ++ " 任务 " ++ call.task.taskKey ++ " 执行超时(35min)"

/-- The branch of a select that gives up is ready: the context is done, or `limit` seconds
have passed since the select was entered. -/
def Master.mayGiveUp (s : Master) (call : Call) (since limit : ℕ) : GiveUp → Bool
  | .cancelled => s.ctxDone call.ctx
  | .timedOut => decide (since + limit ≤ s.now)

/-- `res.Error` as the call returns it. -/
def resultError (err : String) : Option String := if err = "" then none else some err

/-- The deferred status update of `handleAgentPoll`. -/
def AgentInfo.afterPoll (now : ℕ) (taskSent clientDisconnected : Bool) (info : AgentInfo) :
    AgentInfo :=
  { info with
    status :=
      if taskSent then .busy
      else if clientDisconnected ∧ info.status = .online then .offline
      else info.status
    lastSeen := now }

def Master.step (s : Master) : Action → Option Master
  | .book a => (s.toRegistry.step a).map fun r => { s with toRegistry := r }
  | .enqueueAgentTask agent task ctx =>
    if ctx < s.contexts then
      let (q, t) := s.getOrCreateAgentQueueLocked agent
      some { t.setCall t.callCount ⟨agent, task, ctx, .queuing q s.now, none⟩ with
        callCount := t.callCount + 1
        taskResults := update t.taskResults task.taskKey (some t.callCount) }
    else none
  | .push c =>
    match (s.calls c).pc with
    | .queuing q _ =>
      -- with a poll already receiving, the buffer is empty and has room too
      if (s.queues q).length < queueCap then
        some { s.setCall c ((s.calls c).at (.waiting s.now)) with
          queues := update s.queues q (s.queues q ++ [c]) }
      else none
    | _ => none
  | .leaveQueue c how =>
    match (s.calls c).pc with
    | .queuing _ since =>
      if s.mayGiveUp (s.calls c) since 35 how then
        some (s.setCall c ((s.calls c).at (.leaving (some ((s.calls c).queueError how)))))
      else none
    | _ => none
  | .leaveWait c .result =>
    match (s.calls c).pc, (s.calls c).resultCh with
    | .waiting _, some err =>
      some (s.setCall c { s.calls c with pc := .leaving (resultError err), resultCh := none })
    | _, _ => none
  | .leaveWait c (.giveUp how) =>
    match (s.calls c).pc with
    | .waiting since =>
      if s.mayGiveUp (s.calls c) since (35 * 60) how then
        some (s.setCall c ((s.calls c).at (.leaving (some ((s.calls c).waitError how)))))
      else none
    | _ => none
  | .finish c =>
    match (s.calls c).pc with
    | .leaving err =>
      some { s.setCall c ((s.calls c).at (.returned err)) with
        taskResults := update s.taskResults (s.calls c).task.taskKey none }
    | _ => none
  | .handleAgentPoll agent =>
    if agent = "" then some s                   -- 400
    else
      let seen := s.toRegistry.touchAgent agent fun info =>
        { info with lastSeen := s.now, status := .online }
      let (q, t) := s.getOrCreateAgentQueueLocked agent
      some { t.setPoll t.pollCount ⟨agent, q, s.now, true, .selecting⟩ with
        toRegistry := seen
        pollCount := t.pollCount + 1 }
  | .take p =>
    match (s.polls p).pc, s.queues (s.polls p).queue with
    | .selecting, c :: rest =>
      some { s.setPoll p ((s.polls p).at (.taken c)) with
        queues := update s.queues (s.polls p).queue rest
        handouts := ⟨c, (s.polls p).agent, (s.calls c).pc.hasReturned⟩ :: s.handouts }
    | _, _ => none
  | .respond p =>
    match (s.polls p).pc with
    | .taken c =>
      -- `writeJSON` drops the error of the encoder: status 200 with nothing in it
      let pc := if (s.calls c).task.finite then .sent c else .over
      some { s.setPoll p ((s.polls p).at pc) with
        toRegistry := s.toRegistry.touchAgent (s.polls p).agent (AgentInfo.afterPoll s.now true false) }
    | _ => none
  | .endPoll p =>
    match (s.polls p).pc with
    | .selecting =>
      if (s.polls p).since + 30 ≤ s.now ∨ (s.polls p).connected = false then
        some { s.setPoll p ((s.polls p).at .over) with
          toRegistry := s.toRegistry.touchAgent (s.polls p).agent
            (AgentInfo.afterPoll s.now false (!(s.polls p).connected)) }
      else none
    | _ => none
  | .disconnect p =>
    if (s.polls p).connected then some (s.setPoll p { s.polls p with connected := false }) else none
  | .deliver p =>
    match (s.polls p).pc with
    | .sent c =>
      if (s.polls p).connected then
        some { s.setPoll p ((s.polls p).at .over) with
          executing := ((s.polls p).agent, c) :: s.executing
          starts := ⟨c, (s.polls p).agent, (s.calls c).pc.hasReturned⟩ :: s.starts }
      else none
    | _ => none
  | .lose p =>
    match (s.polls p).pc with
    | .sent _ =>
      if (s.polls p).connected then none else some (s.setPoll p ((s.polls p).at .over))
    | _ => none
  | .postResult agent c err =>
    if (agent, c) ∈ s.executing then
      some { s with executing := s.executing.erase (agent, c), inFlight := (c, err) :: s.inFlight }
    else none
  | .handleAgentResult c err =>
    if (c, err) ∈ s.inFlight then
      let rest := s.inFlight.erase (c, err)
      match s.taskResults (s.calls c).task.taskKey with
      | none => some { s with inFlight := rest }              -- unknown or expired task
      | some d => some { s with inFlight := rest, landing := (d, err) :: s.landing }
    else none
  | .sendResult d err =>
    if (d, err) ∈ s.landing then
      let rest := s.landing.erase (d, err)
      match (s.calls d).resultCh with
      | none => some { s.setCall d { s.calls d with resultCh := some err } with landing := rest }
      | some _ => some { s with landing := rest }             -- result channel full
    else none
  | .cleanup agent =>
    match s.agents agent with
    | some info =>
      if info.status ≠ .online ∧ info.lastSeen + 5 * 60 < s.now then
        some { s with
          agents := update s.agents agent none
          agentQueues := update s.agentQueues agent none }
      else none
    | none => none

/-! ## What a step does -/

/-- What fetching the queue of an agent gives: the channel `q`, and the three fields of the
master that keep the channels. -/
inductive Fetched (s : Master) (agent : String) :
    ℕ → ℕ → (ℕ → String) → (String → Option ℕ) → Prop
  | found (q : ℕ) (hq : s.agentQueues agent = some q) :
    Fetched s agent q s.queueCount s.queueAgent s.agentQueues
  | made (hq : s.agentQueues agent = none) :
    Fetched s agent s.queueCount (s.queueCount + 1)
      (update s.queueAgent s.queueCount agent)
      (update s.agentQueues agent (some s.queueCount))

theorem getOrCreateAgentQueueLocked_fetched (s : Master) (agent : String) :
    ∃ q n f m, s.getOrCreateAgentQueueLocked agent =
        (q, { s with queueCount := n, queueAgent := f, agentQueues := m }) ∧
      Fetched s agent q n f m := by
  unfold Master.getOrCreateAgentQueueLocked
  split
  · next q hq => exact ⟨q, _, _, _, rfl, .found q hq⟩
  · next hq => exact ⟨_, _, _, _, rfl, .made hq⟩

/-- What a step of the machine does, guards included. The registry after the step is left
open: no queue, call or poll depends on it. -/
inductive Stepped (s : Master) : Action → Master → Prop
  | book (a : BookAction) (r : Registry) : Stepped s (.book a) { s with toRegistry := r }
  | enqueue (agent : String) (task : AgentTask) (ctx q n : ℕ) (f : ℕ → String)
      (m : String → Option ℕ) (hf : Fetched s agent q n f m) :
    Stepped s (.enqueueAgentTask agent task ctx) { s with
      queueCount := n
      queueAgent := f
      agentQueues := m
      calls := update s.calls s.callCount ⟨agent, task, ctx, .queuing q s.now, none⟩
      callCount := s.callCount + 1
      taskResults := update s.taskResults task.taskKey (some s.callCount) }
  | push (c q since : ℕ) (hpc : (s.calls c).pc = .queuing q since) :
    Stepped s (.push c) { s with
      calls := update s.calls c ((s.calls c).at (.waiting s.now))
      queues := update s.queues q (s.queues q ++ [c]) }
  | leaveQueue (c q since : ℕ) (how : GiveUp) (err : Option String)
      (hpc : (s.calls c).pc = .queuing q since) :
    Stepped s (.leaveQueue c how) { s with
      calls := update s.calls c ((s.calls c).at (.leaving err)) }
  | leaveWait (c since : ℕ) (how : WaitExit) (err ch : Option String)
      (hpc : (s.calls c).pc = .waiting since) :
    Stepped s (.leaveWait c how) { s with
      calls := update s.calls c { s.calls c with pc := .leaving err, resultCh := ch } }
  | finish (c : ℕ) (err : Option String) (hpc : (s.calls c).pc = .leaving err) :
    Stepped s (.finish c) { s with
      calls := update s.calls c ((s.calls c).at (.returned err))
      taskResults := update s.taskResults (s.calls c).task.taskKey none }
  | noPoll (agent : String) : Stepped s (.handleAgentPoll agent) s
  | poll (agent : String) (r : Registry) (q n : ℕ) (f : ℕ → String) (m : String → Option ℕ)
      (hf : Fetched s agent q n f m) :
    Stepped s (.handleAgentPoll agent) { s with
      toRegistry := r
      queueCount := n
      queueAgent := f
      agentQueues := m
      polls := update s.polls s.pollCount ⟨agent, q, s.now, true, .selecting⟩
      pollCount := s.pollCount + 1 }
  | take (p c : ℕ) (rest : List ℕ) (hpc : (s.polls p).pc = .selecting)
      (hq : s.queues (s.polls p).queue = c :: rest) :
    Stepped s (.take p) { s with
      polls := update s.polls p ((s.polls p).at (.taken c))
      queues := update s.queues (s.polls p).queue rest
      handouts := ⟨c, (s.polls p).agent, (s.calls c).pc.hasReturned⟩ :: s.handouts }
  | respond (p c : ℕ) (r : Registry) (hpc : (s.polls p).pc = .taken c) :
    Stepped s (.respond p) { s with
      toRegistry := r
      polls := update s.polls p ((s.polls p).at (.sent c)) }
  | respondEmpty (p c : ℕ) (r : Registry) (hpc : (s.polls p).pc = .taken c)
      (hfin : (s.calls c).task.finite = false) :
    Stepped s (.respond p) { s with
      toRegistry := r
      polls := update s.polls p ((s.polls p).at .over) }
  | endPoll (p : ℕ) (r : Registry) (hpc : (s.polls p).pc = .selecting) :
    Stepped s (.endPoll p) { s with
      toRegistry := r
      polls := update s.polls p ((s.polls p).at .over) }
  | disconnect (p : ℕ) (hcon : (s.polls p).connected = true) :
    Stepped s (.disconnect p) { s with
      polls := update s.polls p { s.polls p with connected := false } }
  | deliver (p c : ℕ) (hpc : (s.polls p).pc = .sent c) (hcon : (s.polls p).connected = true) :
    Stepped s (.deliver p) { s with
      polls := update s.polls p ((s.polls p).at .over)
      executing := ((s.polls p).agent, c) :: s.executing
      starts := ⟨c, (s.polls p).agent, (s.calls c).pc.hasReturned⟩ :: s.starts }
  | lose (p c : ℕ) (hpc : (s.polls p).pc = .sent c) (hcon : (s.polls p).connected = false) :
    Stepped s (.lose p) { s with
      polls := update s.polls p ((s.polls p).at .over) }
  | postResult (agent : String) (c : ℕ) (err : String) (hx : (agent, c) ∈ s.executing) :
    Stepped s (.postResult agent c err) { s with
      executing := s.executing.erase (agent, c)
      inFlight := (c, err) :: s.inFlight }
  | resultDropped (c : ℕ) (err : String)
      (hkey : s.taskResults (s.calls c).task.taskKey = none) :
    Stepped s (.handleAgentResult c err) { s with inFlight := s.inFlight.erase (c, err) }
  | resultFound (c d : ℕ) (err : String)
      (hkey : s.taskResults (s.calls c).task.taskKey = some d) :
    Stepped s (.handleAgentResult c err) { s with
      inFlight := s.inFlight.erase (c, err)
      landing := (d, err) :: s.landing }
  | resultSent (d : ℕ) (err : String) (hch : (s.calls d).resultCh = none) :
    Stepped s (.sendResult d err) { s with
      calls := update s.calls d { s.calls d with resultCh := some err }
      landing := s.landing.erase (d, err) }
  | resultFull (d : ℕ) (err old : String) (hch : (s.calls d).resultCh = some old) :
    Stepped s (.sendResult d err) { s with landing := s.landing.erase (d, err) }
  | cleanup (agent : String) (r : Registry) :
    Stepped s (.cleanup agent) { s with
      toRegistry := r
      agentQueues := update s.agentQueues agent none }

/-- The inversion of the step function. -/
theorem Master.stepped {s t : Master} {a : Action} (h : s.step a = some t) : Stepped s a t := by
  cases a with simp only [Master.step] at h
  | book a =>
    simp only [Option.map_eq_some_iff] at h
    obtain ⟨r, -, rfl⟩ := h
    exact .book a r
  | enqueueAgentTask agent task ctx =>
    obtain ⟨q, n, f, m, hget, hf⟩ := getOrCreateAgentQueueLocked_fetched s agent
    simp only [hget] at h
    split at h
    · cases h
      exact .enqueue agent task ctx q n f m hf
    · cases h
  | push c =>
    split at h
    · next q since hpc =>
      split at h
      · cases h
        exact .push c q since hpc
      · cases h
    · cases h
  | leaveQueue c how =>
    split at h
    · next q since hpc =>
      split at h
      · cases h
        exact .leaveQueue c q since how _ hpc
      · cases h
    · cases h
  | leaveWait c how =>
    cases how with
    | result =>
      dsimp only at h
      split at h
      · next since err hpc hch =>
        cases h
        exact .leaveWait c since _ _ _ hpc
      · cases h
    | giveUp how =>
      dsimp only at h
      split at h
      · next since hpc =>
        split at h
        · cases h
          exact .leaveWait c since _ _ (s.calls c).resultCh hpc
        · cases h
      · cases h
  | finish c =>
    split at h
    · next err hpc =>
      cases h
      exact .finish c err hpc
    · cases h
  | handleAgentPoll agent =>
    obtain ⟨q, n, f, m, hget, hf⟩ := getOrCreateAgentQueueLocked_fetched s agent
    simp only [hget] at h
    split at h
    · cases h
      exact .noPoll agent
    · cases h
      exact .poll agent _ q n f m hf
  | take p =>
    split at h
    · next c rest hpc hq =>
      cases h
      exact .take p c rest hpc hq
    · cases h
  | respond p =>
    split at h
    · next c hpc =>
      cases h
      cases hfin : (s.calls c).task.finite with
      | true => exact .respond p c _ hpc
      | false => exact .respondEmpty p c _ hpc hfin
    · cases h
  | endPoll p =>
    split at h
    · next hpc =>
      split at h
      · cases h
        exact .endPoll p _ hpc
      · cases h
    · cases h
  | disconnect p =>
    split at h
    · next hcon =>
      cases h
      exact .disconnect p hcon
    · cases h
  | deliver p =>
    split at h
    · next c hpc =>
      split at h
      · next hcon =>
        cases h
        exact .deliver p c hpc hcon
      · cases h
    · cases h
  | lose p =>
    split at h
    · next c hpc =>
      split at h
      · cases h
      · next hcon =>
        cases h
        exact .lose p c hpc (by simpa using hcon)
    · cases h
  | postResult agent c err =>
    split at h
    · next hx =>
      cases h
      exact .postResult agent c err hx
    · cases h
  | handleAgentResult c err =>
    split at h
    · split at h
      · next hkey =>
        cases h
        exact .resultDropped c err hkey
      · next d hkey =>
        cases h
        exact .resultFound c d err hkey
    · cases h
  | sendResult d err =>
    split at h
    · split at h
      · next hch =>
        cases h
        exact .resultSent d err hch
      · next old hch =>
        cases h
        exact .resultFull d err old hch
    · cases h
  | cleanup agent =>
    split at h
    · split at h
      · cases h
        exact .cleanup agent _
      · cases h
    · cases h

/-! ## What a step does to one call and to one poll -/

/-- What a step from `s` to `t` makes of call `c`. -/
inductive CallMoved (s t : Master) (c : ℕ) : Action → Call → Prop
  | same (a : Action) : CallMoved s t c a (s.calls c)
  | enqueue (agent : String) (task : AgentTask) (ctx q : ℕ) (hc : c = s.callCount)
      (hlt : c < t.callCount) (hq : t.agentQueues agent = some q)
      (hkey : t.taskResults task.taskKey = some c) :
    CallMoved s t c (.enqueueAgentTask agent task ctx)
      ⟨agent, task, ctx, .queuing q s.now, none⟩
  | push (q since : ℕ) (hpc : (s.calls c).pc = .queuing q since) (hq : c ∈ t.queues q) :
    CallMoved s t c (.push c) ((s.calls c).at (.waiting s.now))
  | leaveQueue (q since : ℕ) (how : GiveUp) (err : Option String)
      (hpc : (s.calls c).pc = .queuing q since) :
    CallMoved s t c (.leaveQueue c how) ((s.calls c).at (.leaving err))
  | leaveWait (since : ℕ) (how : WaitExit) (err ch : Option String)
      (hpc : (s.calls c).pc = .waiting since) :
    CallMoved s t c (.leaveWait c how) { s.calls c with pc := .leaving err, resultCh := ch }
  | finish (err : Option String) (hpc : (s.calls c).pc = .leaving err) :
    CallMoved s t c (.finish c) ((s.calls c).at (.returned err))
  | resultSent (err : String) (hch : (s.calls c).resultCh = none) :
    CallMoved s t c (.sendResult c err) { s.calls c with resultCh := some err }

/-- What a step from `s` to `t` makes of poll `p`. -/
inductive PollMoved (s t : Master) (p : ℕ) : Action → Poll → Prop
  | same (a : Action) : PollMoved s t p a (s.polls p)
  | poll (agent : String) (q : ℕ) (hp : p = s.pollCount) (hlt : p < t.pollCount)
      (hq : t.agentQueues agent = some q) :
    PollMoved s t p (.handleAgentPoll agent) ⟨agent, q, s.now, true, .selecting⟩
  | take (c : ℕ) (rest : List ℕ) (hpc : (s.polls p).pc = .selecting)
      (hq : s.queues (s.polls p).queue = c :: rest) :
    PollMoved s t p (.take p) ((s.polls p).at (.taken c))
  | respond (c : ℕ) (hpc : (s.polls p).pc = .taken c) :
    PollMoved s t p (.respond p) ((s.polls p).at (.sent c))
  | respondEmpty (c : ℕ) (hpc : (s.polls p).pc = .taken c)
      (hfin : (s.calls c).task.finite = false) :
    PollMoved s t p (.respond p) ((s.polls p).at .over)
  | endPoll (hpc : (s.polls p).pc = .selecting) :
    PollMoved s t p (.endPoll p) ((s.polls p).at .over)
  | disconnect (hcon : (s.polls p).connected = true) :
    PollMoved s t p (.disconnect p) { s.polls p with connected := false }
  | deliver (c : ℕ) (hpc : (s.polls p).pc = .sent c) (hcon : (s.polls p).connected = true)
      (hx : ((s.polls p).agent, c) ∈ t.executing) :
    PollMoved s t p (.deliver p) ((s.polls p).at .over)
  | lose (c : ℕ) (hpc : (s.polls p).pc = .sent c) (hcon : (s.polls p).connected = false) :
    PollMoved s t p (.lose p) ((s.polls p).at .over)

/-- After fetching the queue of an agent, that queue is the agent's. -/
theorem Fetched.current {s : Master} {agent : String} {q n : ℕ} {f : ℕ → String}
    {m : String → Option ℕ} (h : Fetched s agent q n f m) : m agent = some q := by
  cases h with
  | found q hq => exact hq
  | made hq => exact update_self ..

section Moved

variable {s t : Master} {a : Action}

/-- Only the written call moves. -/
theorem CallMoved.of_update {c' : ℕ} {call : Call}
    (hcalls : t.calls = update s.calls c' call) (h : CallMoved s t c' a call) (c : ℕ) :
    CallMoved s t c a (t.calls c) := by
  rw [hcalls]
  by_cases hc : c = c'
  · subst hc
    rw [update_self]
    exact h
  · rw [update_of_ne hc]
    exact .same a

/-- Only the written poll moves. -/
theorem PollMoved.of_update {p' : ℕ} {poll : Poll}
    (hpolls : t.polls = update s.polls p' poll) (h : PollMoved s t p' a poll) (p : ℕ) :
    PollMoved s t p a (t.polls p) := by
  rw [hpolls]
  by_cases hp : p = p'
  · subst hp
    rw [update_self]
    exact h
  · rw [update_of_ne hp]
    exact .same a

theorem Stepped.call_moved (h : Stepped s a t) (c : ℕ) : CallMoved s t c a (t.calls c) := by
  cases h with
  | enqueue agent task ctx q n f m hf =>
    exact .of_update rfl (.enqueue agent task ctx q rfl (Nat.lt_succ_self _) hf.current
      (update_self ..)) c
  | push c' q since hpc => exact .of_update rfl (.push q since hpc (by simp)) c
  | leaveQueue c' q since how err hpc => exact .of_update rfl (.leaveQueue q since how err hpc) c
  | leaveWait c' since how err ch hpc => exact .of_update rfl (.leaveWait since how err ch hpc) c
  | finish c' err hpc => exact .of_update rfl (.finish err hpc) c
  | resultSent d err hch => exact .of_update rfl (.resultSent err hch) c
  | _ => exact .same _

theorem Stepped.poll_moved (h : Stepped s a t) (p : ℕ) : PollMoved s t p a (t.polls p) := by
  cases h with
  | poll agent r q n f m hf =>
    exact .of_update rfl (.poll agent q rfl (Nat.lt_succ_self _) hf.current) p
  | take p' c rest hpc hq => exact .of_update rfl (.take c rest hpc hq) p
  | respond p' c r hpc => exact .of_update rfl (.respond c hpc) p
  | respondEmpty p' c r hpc hfin => exact .of_update rfl (.respondEmpty c hpc hfin) p
  | endPoll p' r hpc => exact .of_update rfl (.endPoll hpc) p
  | disconnect p' hcon => exact .of_update rfl (.disconnect hcon) p
  | deliver p' c hpc hcon =>
    exact .of_update rfl (.deliver c hpc hcon List.mem_cons_self) p
  | lose p' c hpc hcon => exact .of_update rfl (.lose c hpc hcon) p
  | _ => exact .same _

theorem Stepped.counts (h : Stepped s a t) :
    s.callCount ≤ t.callCount ∧ s.pollCount ≤ t.pollCount := by
  cases h <;> simp

end Moved

end Robot.Mode
