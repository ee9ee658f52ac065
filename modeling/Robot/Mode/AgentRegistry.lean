import Robot.Lib.Machine
import Robot.Mode.TaskQueue

/-!
# The agent registry

`m.agents` has one entry per agent id, with a status, the second it was last seen, and the
session of the process that registered it. Four steps write the status:

* an accepted **register** (`handleAgentRegister`) makes a fresh entry, `online`;
* the **start of a poll** (`handleAgentPoll`) sets `online`;
* the **deferred update** of a poll sets `busy` if it sent a task, and turns `online` into
  `offline` if its client went away; it may run after the next register of the same agent;
* the **cleanup tick** (`startAgentCleanup`) removes an entry that is not `online` and was not
  seen for five minutes.

Two decisions read it: a register is refused as a session conflict only by an `online` entry,
and an `online` entry is never cleaned up. Both therefore hang on which step wrote the status
last, and this is what the model remembers (`wrote`): the entry is there and `online` exactly
when the last write was that of a register or of the start of a poll (`online_iff_wrote`).

From it, what each decision amounts to: a process keeps its id against every other session
exactly as long as no other session registers after a deferred update
(`agent_id_kept_iff`), and a tick leaves only agents seen within five minutes exactly when no
agent vanished after a register or the start of a poll (`cleanup_leaves_fresh_iff`).

The clock counts in fractions of a second, `hz` of them to the second.
-/

namespace Robot.Mode

open Robot.Lib Function

/-! ## The entries -/

/-- The session conflict of `handleAgentRegister`. -/
def sessionConflict (existing : Option AgentInfo) (sessionID : String) : Bool :=
  existing.any fun info =>
    info.status == .online && info.sessionID != "" && info.sessionID != sessionID

/-- `5 * time.Minute`. -/
def fiveMinutes (hz : ℕ) : ℕ := 5 * 60 * hz

/-- The condition of `startAgentCleanup`, at the second its tick read. -/
def AgentInfo.expired (hz t : ℕ) (info : AgentInfo) : Bool :=
  info.status != .online && decide (info.lastSeen + fiveMinutes hz < t)

/-- The steps that write a status. -/
inductive StatusWrite
  | register
  | pollStart
  | taskSent
  | disconnected
  deriving DecidableEq, Repr

/-- The write was that of a register or of the start of a poll, not a deferred one. -/
def StatusWrite.isOnline : StatusWrite → Bool
  | .register | .pollStart => true
  | .taskSent | .disconnected => false

/-- Where a `handleAgentPoll` request stands. -/
inductive HandlerPc
  | selecting
  /-- The select is decided; the deferred update is still to run. -/
  | deferring (taskSent clientDisconnected : Bool)
  | returned (taskSent clientDisconnected : Bool)
  deriving DecidableEq, Repr

structure PollHandler where
  agent : String
  since : ℕ
  pc : HandlerPc
  deriving DecidableEq, Repr

/-- How the select of a poll is decided. A done context with the client gone is
`disconnect`, whatever ended the context. -/
inductive PollExit
  | task
  | timeout
  | disconnect
  deriving DecidableEq, Repr

/-- The agents and the polls. `wrote`, the last write of the status under an id, is history. -/
structure AgentBook where
  now : ℕ
  agents : String → Option AgentInfo
  polls : ℕ → PollHandler
  pollCount : ℕ
  wrote : String → Option StatusWrite

def AgentBook.init : AgentBook where
  now := 0
  agents := fun _ => none
  polls := fun _ => ⟨"", 0, .returned false false⟩
  pollCount := 0
  wrote := fun _ => none

inductive AgentAction
  | advance (d : ℕ)
  | handleAgentRegister (agent sessionID : String)
  /-- `handleAgentPoll` up to its select. -/
  | handleAgentPoll (agent : String)
  | leaveSelect (p : ℕ) (how : PollExit)
  /-- The deferred update of a poll. -/
  | deferred (p : ℕ)
  /-- A tick of `startAgentCleanup`, which read the clock before it got the lock. -/
  | cleanupTick (t : ℕ)
  deriving DecidableEq, Repr

/-- The entry of `agent` and the write of its status. -/
def AgentBook.put (s : AgentBook) (agent : String) (info : AgentInfo) (w : Option StatusWrite) :
    AgentBook :=
  { s with
    agents := update s.agents agent (some info)
    wrote := update s.wrote agent w }

/-- The register is answered with 200. -/
def AgentBook.accepts (s : AgentBook) (agent sessionID : String) : Bool :=
  agent != "" && !sessionConflict (s.agents agent) sessionID

/-- What the deferred update of a poll records as the last write. -/
def deferredWrite (taskSent clientDisconnected : Bool) (info : AgentInfo)
    (before : Option StatusWrite) : Option StatusWrite :=
  if taskSent then some .taskSent
  else if clientDisconnected ∧ info.status = .online then some .disconnected
  else before

/-- The branch of the select is ready: a task may be there at any time, and the client may
be gone at any time. -/
def PollHandler.mayLeave (hz now : ℕ) (poll : PollHandler) : PollExit → Bool
  | .task | .disconnect => true
  | .timeout => decide (poll.since + 30 * hz ≤ now)

def AgentBook.step (hz : ℕ) (s : AgentBook) : AgentAction → Option AgentBook
  | .advance d => some { s with now := s.now + d }
  | .handleAgentRegister agent sessionID =>
    if s.accepts agent sessionID then
      some (s.put agent ⟨.online, s.now, sessionID⟩ (some .register))
    else some s                                             -- 400, 409
  | .handleAgentPoll agent =>
    if agent = "" then some s                               -- 400
    else
      let t := match s.agents agent with
        | some info => s.put agent { info with lastSeen := s.now, status := .online } (some .pollStart)
        | none => s
      some { t with
        polls := update s.polls s.pollCount ⟨agent, s.now, .selecting⟩
        pollCount := s.pollCount + 1 }
  | .leaveSelect p how =>
    match (s.polls p).pc with
    | .selecting =>
      if (s.polls p).mayLeave hz s.now how then
        some { s with
          polls := update s.polls p
            { s.polls p with pc := .deferring (how == .task) (how == .disconnect) } }
      else none
    | _ => none
  | .deferred p =>
    match (s.polls p).pc with
    | .deferring taskSent clientDisconnected =>
      let t := match s.agents (s.polls p).agent with
        | some info =>
          s.put (s.polls p).agent (info.afterPoll s.now taskSent clientDisconnected)
            (deferredWrite taskSent clientDisconnected info (s.wrote (s.polls p).agent))
        | none => s
      some { t with
        polls := update s.polls p
          { s.polls p with pc := .returned taskSent clientDisconnected } }
    | _ => none
  | .cleanupTick t =>
    if t ≤ s.now then
      some { s with agents := fun id => (s.agents id).filter fun info => !info.expired hz t }
    else none

/-! ## What a step makes of one entry -/

section Entry

variable {hz : ℕ} {s t : AgentBook} {a : AgentAction} {id : String}

/-- What a step makes of the entry of `id` and of its last write. -/
inductive EntryMoved (hz : ℕ) (s t : AgentBook) (id : String) : AgentAction → Prop
  | kept {a : AgentAction} (hentry : t.agents id = s.agents id) (hwrote : t.wrote id = s.wrote id) :
    EntryMoved hz s t id a
  | registered {sessionID : String} (hacc : s.accepts id sessionID = true)
      (hentry : t.agents id = some ⟨.online, s.now, sessionID⟩)
      (hwrote : t.wrote id = some .register) :
    EntryMoved hz s t id (.handleAgentRegister id sessionID)
  | polled {info : AgentInfo} (hinfo : s.agents id = some info)
      (hentry : t.agents id = some { info with lastSeen := s.now, status := .online })
      (hwrote : t.wrote id = some .pollStart) :
    EntryMoved hz s t id (.handleAgentPoll id)
  | updated {p : ℕ} {info : AgentInfo} {taskSent clientDisconnected : Bool}
      (hinfo : s.agents id = some info)
      (hentry : t.agents id = some (info.afterPoll s.now taskSent clientDisconnected))
      (hwrote : t.wrote id = deferredWrite taskSent clientDisconnected info (s.wrote id)) :
    EntryMoved hz s t id (.deferred p)
  | removed {τ : ℕ} {info : AgentInfo} (hinfo : s.agents id = some info)
      (hexp : info.expired hz τ = true) (hentry : t.agents id = none)
      (hwrote : t.wrote id = s.wrote id) :
    EntryMoved hz s t id (.cleanupTick τ)

/-- A write under another id leaves the entry alone. -/
theorem EntryMoved.put_of_ne {agent : String} {info : AgentInfo} {w : Option StatusWrite}
    (hne : id ≠ agent) (hentry : t.agents = (s.put agent info w).agents)
    (hwrote : t.wrote = (s.put agent info w).wrote) : EntryMoved hz s t id a := by
  refine .kept ?_ ?_
  · rw [hentry]
    exact update_of_ne hne _ _
  · rw [hwrote]
    exact update_of_ne hne _ _

theorem AgentBook.entry_moved (h : s.step hz a = some t) (id : String) :
    EntryMoved hz s t id a := by
  cases a with simp only [AgentBook.step] at h
  | advance d =>
    cases h
    exact .kept rfl rfl
  | handleAgentRegister agent sessionID =>
    split at h
    · next hacc =>
      cases h
      by_cases hid : id = agent
      · subst hid
        exact .registered hacc (update_self ..) (update_self ..)
      · exact .put_of_ne hid rfl rfl
    · cases h
      exact .kept rfl rfl
  | handleAgentPoll agent =>
    split at h
    · cases h
      exact .kept rfl rfl
    · cases h
      split
      · next info hinfo =>
        by_cases hid : id = agent
        · subst hid
          exact .polled hinfo (update_self ..) (update_self ..)
        · exact .put_of_ne hid rfl rfl
      · exact .kept rfl rfl
  | leaveSelect p how =>
    split at h
    · split at h
      · cases h
        exact .kept rfl rfl
      · cases h
    · cases h
  | deferred p =>
    split at h
    · cases h
      split
      · next info hinfo =>
        by_cases hid : id = (s.polls p).agent
        · subst hid
          exact .updated hinfo (update_self ..) (update_self ..)
        · exact .put_of_ne hid rfl rfl
      · exact .kept rfl rfl
    · cases h
  | cleanupTick τ =>
    split at h
    · cases h
      cases hinfo : s.agents id with
      | none =>
        refine .kept ?_ rfl
        rw [hinfo]
        exact congrArg (Option.filter _) hinfo
      | some info =>
        cases hexp : info.expired hz τ with
        | true =>
          refine .removed hinfo hexp ?_ rfl
          simp [hinfo, hexp]
        | false =>
          refine .kept ?_ rfl
          simp [hinfo, hexp]
    · cases h

/-! ## The status is the last write -/

/-- There is an entry under `id`, and it is online. -/
def AgentBook.online (s : AgentBook) (id : String) : Bool :=
  (s.agents id).any fun info => info.status == .online

/-- The last write of the status under `id` was that of a register or of a poll's start. -/
def AgentBook.wroteOnline (s : AgentBook) (id : String) : Bool :=
  (s.wrote id).any StatusWrite.isOnline

/-- One step: whoever writes the status is the last to have written it, and what is removed
was not online. -/
theorem EntryMoved.online_wrote (h : EntryMoved hz s t id a) (hs : s.online id = s.wroteOnline id) :
    t.online id = t.wroteOnline id := by
  unfold AgentBook.online AgentBook.wroteOnline at hs ⊢
  cases h with
  | kept hentry hwrote =>
    rw [hentry, hwrote]
    exact hs
  | registered hacc hentry hwrote =>
    rw [hentry, hwrote]
    rfl
  | polled hinfo hentry hwrote =>
    rw [hentry, hwrote]
    rfl
  | @updated p info taskSent clientDisconnected hinfo hentry hwrote =>
    rw [hentry, hwrote]
    unfold deferredWrite AgentInfo.afterPoll
    split
    · rfl
    · split
      · rfl
      · rw [← hs, hinfo]
        rfl
  | @removed τ info hinfo hexp hentry hwrote =>
    have hoff : (info.status == .online) = false := by
      simpa using (Bool.and_eq_true_iff.mp hexp).1
    rw [hinfo, Option.any_some, hoff] at hs
    rw [hentry, hwrote, ← hs]
    rfl

/-- **In every reachable state** an entry is online exactly when its status was last written by
a register or by the start of a poll. -/
theorem online_iff_wrote {as : List AgentAction}
    (hrun : run (AgentBook.step hz) .init as = some s) (id : String) :
    s.online id = s.wroteOnline id :=
  run_inv_all (fun _ _ _ hs hstep => (AgentBook.entry_moved hstep id).online_wrote hs) as rfl hrun

end Entry

/-! ## Keeping an agent id -/

/-- The session id of an agent process: `NewAgent` never leaves it empty. -/
def Session : Type := { sessionID : String // sessionID ≠ "" }

/-- `NewAgent`: the configured session id, or host, pid and start time. -/
def newSession (sessionID host : String) (pid started : ℕ) : Session :=
  if h : sessionID = "" then
    ⟨host ++ ("-" ++ toString pid ++ "-" ++ toString started), by simp⟩
  else ⟨sessionID, h⟩

variable (hz : ℕ)

/-- At a register under `id`: the process with `session` is accepted and any other refused. -/
def KeptBy (id : String) (session : Session) (s : AgentBook) (a : AgentAction) : Prop :=
  ∀ sessionID, a = .handleAgentRegister id sessionID →
    (s.accepts id sessionID = true ↔ sessionID = session.1)

/-- Another process registers only while the status was last written by a register or by the
start of a poll: no deferred update has come since. -/
def RivalsComeOnline (id : String) (session : Session) (s : AgentBook) (a : AgentAction) : Prop :=
  ∀ sessionID, a = .handleAgentRegister id sessionID → sessionID ≠ session.1 →
    s.wroteOnline id = true

/-- The id belongs to `session`: the entry, if there is one, is of that session. -/
structure OwnedBy (id : String) (session : Session) (s : AgentBook) : Prop where
  wrote : s.online id = s.wroteOnline id
  session : ∀ info, s.agents id = some info → info.sessionID = session.1

variable {hz} {id : String} {session : Session} {s t : AgentBook} {a : AgentAction}

/-- The owner itself is always accepted. -/
theorem OwnedBy.accepts_self (h : OwnedBy id session s) (hid : id ≠ "") :
    s.accepts id session.1 = true := by
  unfold AgentBook.accepts sessionConflict
  cases hinfo : s.agents id with
  | none => simpa using hid
  | some info => simpa [h.session info hinfo] using hid

/-- Another session is accepted exactly when the entry is not online. -/
theorem OwnedBy.accepts_other (h : OwnedBy id session s) (hid : id ≠ "") {sessionID : String}
    (hne : sessionID ≠ session.1) : s.accepts id sessionID = !s.wroteOnline id := by
  rw [← h.wrote]
  unfold AgentBook.accepts sessionConflict AgentBook.online
  cases hinfo : s.agents id with
  | none => simpa using hid
  | some info =>
    have hid' : (id != "") = true := bne_iff_ne.mpr hid
    have hempty : (session.1 != "") = true := bne_iff_ne.mpr session.2
    have hother : (session.1 != sessionID) = true := bne_iff_ne.mpr hne.symm
    rw [Option.any_some, Option.any_some, h.session info hinfo, hid', hempty, hother,
      Bool.true_and, Bool.and_true, Bool.and_true]

theorem OwnedBy.keptBy_iff (h : OwnedBy id session s) (hid : id ≠ "") :
    KeptBy id session s a ↔ RivalsComeOnline id session s a := by
  constructor
  · intro hkept sessionID ha hne
    have hrefused : s.accepts id sessionID = false :=
      Bool.eq_false_iff.mpr fun hacc => hne ((hkept sessionID ha).mp hacc)
    rw [h.accepts_other hid hne, Bool.not_eq_false'] at hrefused
    exact hrefused
  · intro honline sessionID ha
    by_cases hne : sessionID = session.1
    · rw [hne]
      exact iff_of_true (h.accepts_self hid) rfl
    · rw [h.accepts_other hid hne, honline sessionID ha hne]
      exact iff_of_false (by decide) hne

/-- As long as only the owner's registers are accepted, the id stays with it. -/
theorem OwnedBy.step (h : OwnedBy id session s) (hkept : KeptBy id session s a)
    (hstep : s.step hz a = some t) : OwnedBy id session t := by
  have hmoved := AgentBook.entry_moved hstep id
  refine ⟨hmoved.online_wrote h.wrote, ?_⟩
  cases hmoved with
  | kept hentry hwrote =>
    rw [hentry]
    exact h.session
  | registered hacc hentry hwrote =>
    intro info hinfo
    rw [hentry] at hinfo
    cases hinfo
    exact (hkept _ rfl).mp hacc
  | @polled info hinfo hentry hwrote =>
    intro info' hinfo'
    rw [hentry] at hinfo'
    cases hinfo'
    exact h.session info hinfo
  | @updated p info taskSent clientDisconnected hinfo hentry hwrote =>
    intro info' hinfo'
    rw [hentry] at hinfo'
    cases hinfo'
    exact h.session info hinfo
  | removed hinfo hexp hentry hwrote =>
    intro info' hinfo'
    rw [hentry] at hinfo'
    cases hinfo'

/-- **An agent id stays with one process exactly while no other registers after a deferred
update.** Take any history, a register of `session` under `id` that is accepted, and any run
from there. Every register of another session is refused, and every further register of
`session` accepted, if and only if each register of another session finds the status last
written by a register or by the start of a poll. -/
theorem agent_id_kept_iff {before : List AgentAction}
    (hrun : run (AgentBook.step hz) .init before = some s)
    (hacc : s.accepts id session.1 = true)
    (hreg : s.step hz (.handleAgentRegister id session.1) = some t) (after : List AgentAction) :
    Along (AgentBook.step hz) (KeptBy id session) t after ↔
      Along (AgentBook.step hz) (RivalsComeOnline id session) t after := by
  have hid : id ≠ "" := bne_iff_ne.mp (Bool.and_eq_true_iff.mp hacc).1
  have howned : OwnedBy id session t := by
    refine ⟨(AgentBook.entry_moved hreg id).online_wrote (online_iff_wrote hrun id), ?_⟩
    simp only [AgentBook.step, if_pos hacc] at hreg
    cases hreg
    intro info hinfo
    simp only [AgentBook.put, update_self, Option.some.injEq] at hinfo
    rw [← hinfo]
  exact along_iff_of_kept (fun s a s' h hkept hstep => h.step hkept hstep)
    (fun s a h => h.keptBy_iff hid) after howned

/-- The process with `session` is registered, was seen less than five minutes ago, and none of
the polls under `id` lost its client. -/
structure KeepsPolling (hz : ℕ) (id : String) (session : Session) (s : AgentBook) : Prop where
  entry : ∃ info, s.agents id = some info ∧ info.sessionID = session.1 ∧
    s.now < info.lastSeen + fiveMinutes hz
  connected : ∀ p < s.pollCount, ∀ taskSent, (s.polls p).agent = id →
    (s.polls p).pc ≠ .deferring taskSent true ∧ (s.polls p).pc ≠ .returned taskSent true

/-- Two processes on one host, started with the same agent id. -/
def firstProcess : Session := newSession "" "host" 101 1

def secondProcess : Session := newSession "" "host" 202 2

/-- A second process that comes while the first is polling is refused. -/
theorem polling_agent_keeps_id :
    ∃ s t, AgentBook.init.step 1 (.handleAgentRegister "agent" firstProcess.1) = some s ∧
      s.step 1 (.handleAgentPoll "agent") = some t ∧
      Along (AgentBook.step 1) (KeptBy "agent" firstProcess) s
        [.handleAgentPoll "agent", .handleAgentRegister "agent" secondProcess.1] := by
  refine ⟨_, _, rfl, rfl, ?_⟩
  refine (@agent_id_kept_iff 1 "agent" firstProcess AgentBook.init _ [] rfl (by decide +kernel) rfl
    [.handleAgentPoll "agent", .handleAgentRegister "agent" secondProcess.1]).mpr ?_
  refine ⟨?_, ?_⟩
  · intro sessionID ha
    cases ha
  · intro t ht
    cases ht
    refine ⟨fun _ _ _ => by decide +kernel, fun _ _ => trivial⟩

/-- The first process registers, polls and is handed a task. -/
def taskHandedOver : List AgentAction :=
  [.handleAgentRegister "agent" firstProcess.1, .handleAgentPoll "agent", .leaveSelect 0 .task,
    .deferred 0]

/-- With its task the agent is `busy`. The second process is accepted at that very moment, and
the first, which has done nothing but work, is refused when it comes back for its next poll. -/
theorem busy_agent_loses_id :
    ∃ s t, run (AgentBook.step 1) .init taskHandedOver = some s ∧
      KeepsPolling 1 "agent" firstProcess s ∧
      s.accepts "agent" secondProcess.1 = true ∧
      s.step 1 (.handleAgentRegister "agent" secondProcess.1) = some t ∧
      t.accepts "agent" firstProcess.1 = false := by
  refine ⟨_, _, rfl, ⟨⟨_, rfl, rfl, by decide +kernel⟩, ?_⟩, by decide +kernel, rfl,
    by decide +kernel⟩
  intro p hp taskSent _
  have hzero : p = 0 := Nat.lt_one_iff.mp hp
  subst hzero
  constructor
  · intro h
    cases h
  · intro h
    cases h

/-! ## Cleaning up -/

/-- Seen within the five minutes before `τ`. -/
def AgentInfo.seenSince (hz τ : ℕ) (info : AgentInfo) : Prop := τ ≤ info.lastSeen + fiveMinutes hz

theorem step_cleanupTick {τ : ℕ} (h : τ ≤ s.now) :
    s.step hz (.cleanupTick τ) =
      some { s with agents := fun id => (s.agents id).filter fun info => !info.expired hz τ } :=
  if_pos h

theorem tick_agents {τ : ℕ} (h : s.step hz (.cleanupTick τ) = some t) (id : String)
    (info : AgentInfo) :
    t.agents id = some info ↔ s.agents id = some info ∧ info.expired hz τ = false := by
  simp only [AgentBook.step] at h
  split at h
  · cases h
    simp [Option.filter_eq_some_iff]
  · cases h

/-- **A tick leaves only agents seen within five minutes exactly when none vanished online.**
In every history, what a tick at `τ` leaves was seen within the five minutes before if and only
if this holds of each agent whose status was last written by a register or by the start of a
poll. -/
theorem cleanup_leaves_fresh_iff {as : List AgentAction} {τ : ℕ}
    (hrun : run (AgentBook.step hz) .init as = some s)
    (htick : s.step hz (.cleanupTick τ) = some t) :
    (∀ id info, t.agents id = some info → info.seenSince hz τ) ↔
      ∀ id info, s.agents id = some info → s.wroteOnline id = true → info.seenSince hz τ := by
  constructor
  · intro hfresh id info hinfo hwrote
    have honline : info.status == .online := by
      rw [← online_iff_wrote hrun id] at hwrote
      unfold AgentBook.online at hwrote
      rw [hinfo] at hwrote
      exact hwrote
    have hkept : info.expired hz τ = false := by
      unfold AgentInfo.expired bne
      rw [honline]
      rfl
    exact hfresh id info ((tick_agents htick id info).mpr ⟨hinfo, hkept⟩)
  · intro hcond id info hinfo
    obtain ⟨hbefore, hkept⟩ := (tick_agents htick id info).mp hinfo
    by_cases honline : info.status = .online
    · apply hcond id info hbefore
      rw [← online_iff_wrote hrun id]
      unfold AgentBook.online
      rw [hbefore]
      exact beq_iff_eq.mpr honline
    · -- not online, so it was the age that kept it
      have hage : decide (info.lastSeen + fiveMinutes hz < τ) = false := by
        simpa [AgentInfo.expired, honline] using hkept
      exact Nat.le_of_not_lt (of_decide_eq_false hage)

/-- An agent that goes away during its poll, and five minutes and a second after that. -/
def disconnectedThenLate : List AgentAction :=
  [.handleAgentRegister "agent" firstProcess.1, .handleAgentPoll "agent",
    .leaveSelect 0 .disconnect, .deferred 0, .advance 301]

/-- An agent that went away during its poll is removed at the first tick after five minutes. -/
theorem disconnected_agent_cleaned_up :
    ∃ s t, run (AgentBook.step 1) .init disconnectedThenLate = some s ∧
      s.step 1 (.cleanupTick 301) = some t ∧
      ∀ id info, t.agents id = some info → info.seenSince 1 301 := by
  refine ⟨_, _, rfl, step_cleanupTick (by decide +kernel), ?_⟩
  refine (@cleanup_leaves_fresh_iff 1 _ _ disconnectedThenLate 301 rfl
    (step_cleanupTick (by decide +kernel))).mpr ?_
  intro id info _ hwrote
  by_cases hid : id = "agent"
  · subst hid
    exact absurd hwrote (by decide +kernel)
  · simp [AgentBook.wroteOnline, AgentBook.put, AgentBook.init, hid] at hwrote

/-- An agent that dies right after its register, or between two polls, stays for good: here it
has been gone for an hour, is still `online` and so a target of every distribution, and no
other process can register its id. -/
theorem vanished_agent_stays :
    ∃ s t, run (AgentBook.step 1) .init
        [.handleAgentRegister "agent" firstProcess.1, .advance 3600] = some s ∧
      s.step 1 (.cleanupTick 3600) = some t ∧
      (∃ info, t.agents "agent" = some info ∧ info.status = .online ∧ ¬ info.seenSince 1 3600) ∧
      t.accepts "agent" secondProcess.1 = false := by
  refine ⟨_, _, rfl, step_cleanupTick (by decide +kernel), ⟨_, rfl, rfl, ?_⟩, by decide +kernel⟩
  unfold AgentInfo.seenSince
  decide +kernel

end Robot.Mode
