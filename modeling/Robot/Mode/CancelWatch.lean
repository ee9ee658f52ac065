import Robot.Lib.Machine

/-!
# Cancel signals

To stop a report, the master puts its id into a buffered channel of each target agent
(`sendCancelToAgents`). An agent runs a watch loop per executing task: `watchCancelSignal`
long-polls the master, where `handleAgentCancelWatch` receives one id from the agent's channel
and sends it back, and the task cancels itself if the id is that of its own report.

So all watchers of an agent compete for one channel, and a signal is gone with the watcher that
receives it. A signal for report `R` does what it is for only if, when it is received, the one
task of `R` that is running there is the task of that watcher, and if the answer then reaches it.
`SignalsReach` says what a signal is for: each task of `R` that was running when a watcher
received the signal has been cancelled by it, or the answer is on its way, or the task has ended.
`signals_reach_iff` says that the condition is exact.

The machine is that of one agent. A watch request lives on at the master when the agent has
given it up (network error, end of the task): it can still receive a signal, for nobody. Time is
left out: a request may time out whenever it is waiting. A signal is named by the request that
received it, and `owed` is history: the tasks a received signal was meant for.
-/

namespace Robot.Mode

open Robot.Lib Function List

/-! ## The machine -/

/-- The watch loop of a task: at its top, in a request, or over. -/
inductive WatchPc
  | looping
  | requesting (r : ℕ)
  | stopped
  deriving DecidableEq, Repr

/-- A task that the agent executes. `cancelledBy` is the request whose answer made it call
`cancel()`. -/
structure RunningTask where
  report : String
  watch : WatchPc
  cancelledBy : Option ℕ
  finished : Bool
  deriving DecidableEq, Repr

/-- Executing, and not cancelled yet. -/
def RunningTask.live (task : RunningTask) : Bool := task.cancelledBy.isNone && !task.finished

/-- A `handleAgentCancelWatch` request: in its select, with its answer on the way (`none` is
the 204), or read by the agent. -/
inductive RequestPc
  | selecting
  | answered (reportID : Option String)
  | over
  deriving DecidableEq, Repr

structure WatchRequest where
  chan : ℕ
  pc : RequestPc
  deriving DecidableEq, Repr

structure CancelBook where
  tasks : ℕ → RunningTask
  taskCount : ℕ
  requests : ℕ → WatchRequest
  requestCount : ℕ
  chans : ℕ → List String
  chanCount : ℕ
  /-- `m.agentCancelChs[agentID]`. -/
  current : Option ℕ
  owed : List (ℕ × ℕ)

def CancelBook.init : CancelBook where
  tasks := fun _ => ⟨"", .stopped, none, true⟩
  taskCount := 0
  requests := fun _ => ⟨0, .over⟩
  requestCount := 0
  chans := fun _ => []
  chanCount := 0
  current := none
  owed := []

inductive CancelAction
  /-- `executeTask`, with its watch loop. -/
  | executeTask (report : String)
  /-- The loop sends a request, and the handler fetches the channel. -/
  | watchCancelSignal (n : ℕ)
  /-- `reportID := <-ch`. -/
  | receive (r : ℕ)
  /-- `<-ctx.Done()`: the 204. -/
  | timeout (r : ℕ)
  /-- The answer reaches the loop of task `n`. -/
  | deliver (n : ℕ)
  /-- The request of task `n` fails on the agent's side. -/
  | abandon (n : ℕ)
  /-- `RunCaseInner` returns. -/
  | finish (n : ℕ)
  | sendCancelToAgents (report : String)
  /-- The agent is dropped from the registry, and its channel with it. -/
  | cleanup
  deriving DecidableEq, Repr

/-- `make(chan string, 8)`. -/
def cancelCap : ℕ := 8

def CancelBook.getOrCreateAgentCancelChLocked (s : CancelBook) : ℕ × CancelBook :=
  match s.current with
  | some ch => (ch, s)
  | none => (s.chanCount, { s with chanCount := s.chanCount + 1, current := some s.chanCount })

/-- The tasks that a signal for `report` is meant for. -/
def CancelBook.running (s : CancelBook) (report : String) : List ℕ :=
  (List.range s.taskCount).filter fun u => (s.tasks u).live && (s.tasks u).report == report

def CancelBook.setTask (s : CancelBook) (n : ℕ) (task : RunningTask) : CancelBook :=
  { s with tasks := update s.tasks n task }

def CancelBook.setRequest (s : CancelBook) (r : ℕ) (pc : RequestPc) : CancelBook :=
  { s with requests := update s.requests r { s.requests r with pc := pc } }

def RunningTask.at (task : RunningTask) (watch : WatchPc) : RunningTask := { task with watch := watch }

/-- `cancel()` in the watch loop. -/
def RunningTask.cancel (task : RunningTask) (r : ℕ) : RunningTask :=
  { task with cancelledBy := some r, watch := .stopped }

/-- `cancel()` after `RunCaseInner`, which ends the watch loop too. -/
def RunningTask.end (task : RunningTask) : RunningTask :=
  { task with finished := true, watch := .stopped }

def CancelBook.step (s : CancelBook) : CancelAction → Option CancelBook
  | .executeTask report =>
    some { s.setTask s.taskCount ⟨report, .looping, none, false⟩ with taskCount := s.taskCount + 1 }
  | .watchCancelSignal n =>
    if (s.tasks n).watch = .looping then
      let (ch, t) := s.getOrCreateAgentCancelChLocked
      some { t.setTask n ((s.tasks n).at (.requesting s.requestCount)) with
        requests := update s.requests s.requestCount ⟨ch, .selecting⟩
        requestCount := s.requestCount + 1 }
    else none
  | .receive r =>
    match (s.requests r).pc, s.chans (s.requests r).chan with
    | .selecting, report :: rest =>
      some { s.setRequest r (.answered (some report)) with
        chans := update s.chans (s.requests r).chan rest
        owed := (s.running report).map (·, r) ++ s.owed }
    | _, _ => none
  | .timeout r =>
    if (s.requests r).pc = .selecting then some (s.setRequest r (.answered none)) else none
  | .deliver n =>
    match (s.tasks n).watch with
    | .requesting r =>
      match (s.requests r).pc with
      | .answered reportID =>
        if reportID = some (s.tasks n).report then
          some ((s.setTask n ((s.tasks n).cancel r)).setRequest r .over)
        else some ((s.setTask n ((s.tasks n).at .looping)).setRequest r .over)
      | _ => none
    | _ => none
  | .abandon n =>
    match (s.tasks n).watch with
    | .requesting _ => some (s.setTask n ((s.tasks n).at .looping))
    | _ => none
  | .finish n =>
    if (s.tasks n).finished = false then some (s.setTask n (s.tasks n).end) else none
  | .sendCancelToAgents report =>
    let (ch, t) := s.getOrCreateAgentCancelChLocked
    if (s.chans ch).length < cancelCap then
      some { t with chans := update s.chans ch (s.chans ch ++ [report]) }
    else some t                                             -- channel full, signal dropped
  | .cleanup => some { s with current := none }

/-! ## What a signal is for -/

/-- The answer with the signal that request `r` received is on its way to task `u`. -/
def CancelBook.onItsWay (s : CancelBook) (u r : ℕ) : Prop :=
  (s.tasks u).watch = .requesting r ∧ (s.requests r).pc = .answered (some (s.tasks u).report)

/-- Each task that a received signal was meant for has been cancelled by it, or will be, or
has ended. -/
def SignalsReach (s : CancelBook) : Prop :=
  ∀ u r, (u, r) ∈ s.owed →
    (s.tasks u).cancelledBy = some r ∨ s.onItsWay u r ∨ (s.tasks u).finished = true

/-- A signal is received only by the watcher of the one running task of its report, and no
running task gives up a request whose answer is a signal for it. -/
structure OneWatcher (s : CancelBook) (a : CancelAction) : Prop where
  receive : ∀ r report rest, a = .receive r → (s.requests r).pc = .selecting →
    s.chans (s.requests r).chan = report :: rest →
    ∀ u ∈ s.running report, (s.tasks u).watch = .requesting r
  abandon : ∀ n r, a = .abandon n → ¬ s.onItsWay n r

/-! ## What a step can do -/

section Moves

variable {s t : CancelBook} {a : CancelAction}

/-- The task whose loop or whose end takes the step. -/
def CancelAction.task? : CancelAction → Option ℕ
  | .watchCancelSignal n | .deliver n | .abandon n | .finish n => some n
  | .executeTask _ | .receive _ | .timeout _ | .sendCancelToAgents _ | .cleanup => none

/-- What a step makes of task `n`. -/
inductive TaskMoved (s : CancelBook) (n : ℕ) : CancelAction → RunningTask → Prop
  | kept (a : CancelAction) (hn : a.task? ≠ some n) : TaskMoved s n a (s.tasks n)
  | started (report : String) (hn : n = s.taskCount) :
    TaskMoved s n (.executeTask report) ⟨report, .looping, none, false⟩
  | watched (hw : (s.tasks n).watch = .looping) :
    TaskMoved s n (.watchCancelSignal n) ((s.tasks n).at (.requesting s.requestCount))
  | cancelled (r : ℕ) (hw : (s.tasks n).watch = .requesting r) :
    TaskMoved s n (.deliver n) ((s.tasks n).cancel r)
  | looped (r : ℕ) (reportID : Option String) (hw : (s.tasks n).watch = .requesting r)
      (hr : (s.requests r).pc = .answered reportID) (hne : reportID ≠ some (s.tasks n).report) :
    TaskMoved s n (.deliver n) ((s.tasks n).at .looping)
  | abandoned (r : ℕ) (hw : (s.tasks n).watch = .requesting r) :
    TaskMoved s n (.abandon n) ((s.tasks n).at .looping)
  | ended (hf : (s.tasks n).finished = false) : TaskMoved s n (.finish n) (s.tasks n).end

/-- What a step makes of request `r`. -/
inductive RequestMoved (s : CancelBook) (r : ℕ) : CancelAction → WatchRequest → Prop
  | kept (a : CancelAction) (hr : a ≠ .receive r) : RequestMoved s r a (s.requests r)
  | opened (n ch : ℕ) (hr : r = s.requestCount) :
    RequestMoved s r (.watchCancelSignal n) ⟨ch, .selecting⟩
  | received (report : String) (rest : List String) (hpc : (s.requests r).pc = .selecting)
      (hch : s.chans (s.requests r).chan = report :: rest) :
    RequestMoved s r (.receive r) { s.requests r with pc := .answered (some report) }
  | timedOut (hpc : (s.requests r).pc = .selecting) :
    RequestMoved s r (.timeout r) { s.requests r with pc := .answered none }
  | read (n : ℕ) (hw : (s.tasks n).watch = .requesting r) :
    RequestMoved s r (.deliver n) { s.requests r with pc := .over }

/-- What a step makes of the history. -/
inductive OwedMoved (s : CancelBook) : CancelAction → List (ℕ × ℕ) → Prop
  | kept (a : CancelAction) (ha : ∀ r, a ≠ .receive r) : OwedMoved s a s.owed
  | received (r : ℕ) (report : String) (rest : List String) (hpc : (s.requests r).pc = .selecting)
      (hch : s.chans (s.requests r).chan = report :: rest) :
    OwedMoved s (.receive r) ((s.running report).map (·, r) ++ s.owed)

def CancelBook.taskCountAfter (s : CancelBook) : CancelAction → ℕ
  | .executeTask _ => s.taskCount + 1
  | _ => s.taskCount

def CancelBook.requestCountAfter (s : CancelBook) : CancelAction → ℕ
  | .watchCancelSignal _ => s.requestCount + 1
  | _ => s.requestCount

/-- Everything a step does to the tasks, the requests and the history. -/
structure CancelStepped (s : CancelBook) (a : CancelAction) (t : CancelBook) : Prop where
  task : ∀ n, TaskMoved s n a (t.tasks n)
  request : ∀ r, RequestMoved s r a (t.requests r)
  owed : OwedMoved s a t.owed
  taskCount : t.taskCount = s.taskCountAfter a
  requestCount : t.requestCount = s.requestCountAfter a

/-- A write to task `m` is a move of `m` and of no other. -/
theorem TaskMoved.of_update {m : ℕ} {task : RunningTask} (h : TaskMoved s m a task)
    (ha : ∀ n ∈ a.task?, n = m) (n : ℕ) : TaskMoved s n a (update s.tasks m task n) := by
  by_cases hn : n = m
  · subst hn
    rw [update_self]
    exact h
  · rw [update_of_ne hn]
    exact .kept a fun htask => hn (ha n htask)

theorem RequestMoved.of_update {m : ℕ} {req : WatchRequest} (h : RequestMoved s m a req)
    (ha : ∀ r, a = .receive r → r = m) (r : ℕ) :
    RequestMoved s r a (update s.requests m req r) := by
  by_cases hr : r = m
  · subst hr
    rw [update_self]
    exact h
  · rw [update_of_ne hr]
    exact .kept a fun hreceive => hr (ha r hreceive)

/-- Fetching the channel touches neither tasks, nor requests, nor history. -/
theorem getOrCreateAgentCancelChLocked_frame (s : CancelBook) :
    ∃ ch n c, s.getOrCreateAgentCancelChLocked = (ch, { s with chanCount := n, current := c }) := by
  unfold CancelBook.getOrCreateAgentCancelChLocked
  split
  · exact ⟨_, _, _, rfl⟩
  · exact ⟨_, _, _, rfl⟩

theorem CancelBook.stepped (h : s.step a = some t) : CancelStepped s a t := by
  cases a with simp only [CancelBook.step] at h
  | executeTask report =>
    cases h
    exact ⟨(TaskMoved.started report rfl).of_update nofun, fun r => .kept _ nofun,
      .kept _ nofun, rfl, rfl⟩
  | watchCancelSignal n =>
    obtain ⟨ch, m, c, hget⟩ := getOrCreateAgentCancelChLocked_frame s
    simp only [hget] at h
    split at h
    · next hw =>
      cases h
      exact ⟨(TaskMoved.watched hw).of_update (fun _ => Eq.symm ∘ Option.some.inj),
        (RequestMoved.opened n ch rfl).of_update nofun, .kept _ nofun, rfl, rfl⟩
    · cases h
  | receive r =>
    split at h
    · next report rest hpc hch =>
      cases h
      refine ⟨fun n => .kept _ nofun, (RequestMoved.received report rest hpc hch).of_update ?_,
        .received r report rest hpc hch, rfl, rfl⟩
      intro r' hr'
      cases hr'
      rfl
    · cases h
  | timeout r =>
    split at h
    · next hpc =>
      cases h
      exact ⟨fun n => .kept _ nofun, (RequestMoved.timedOut hpc).of_update nofun, .kept _ nofun,
        rfl, rfl⟩
    · cases h
  | deliver n =>
    split at h
    · next r hw =>
      split at h
      · next reportID hr =>
        split at h
        · cases h
          exact ⟨(TaskMoved.cancelled r hw).of_update (fun _ => Eq.symm ∘ Option.some.inj),
            (RequestMoved.read n hw).of_update nofun, .kept _ nofun, rfl, rfl⟩
        · next hne =>
          cases h
          exact ⟨(TaskMoved.looped r reportID hw hr hne).of_update
              (fun _ => Eq.symm ∘ Option.some.inj),
            (RequestMoved.read n hw).of_update nofun, .kept _ nofun, rfl, rfl⟩
      · cases h
    · cases h
  | abandon n =>
    split at h
    · next r hw =>
      cases h
      exact ⟨(TaskMoved.abandoned r hw).of_update (fun _ => Eq.symm ∘ Option.some.inj),
        fun r => .kept _ nofun, .kept _ nofun, rfl, rfl⟩
    · cases h
  | finish n =>
    split at h
    · next hf =>
      cases h
      exact ⟨(TaskMoved.ended hf).of_update (fun _ => Eq.symm ∘ Option.some.inj),
        fun r => .kept _ nofun, .kept _ nofun, rfl, rfl⟩
    · cases h
  | sendCancelToAgents report =>
    obtain ⟨ch, m, c, hget⟩ := getOrCreateAgentCancelChLocked_frame s
    simp only [hget] at h
    split at h
    · cases h
      exact ⟨fun n => .kept _ nofun, fun r => .kept _ nofun, .kept _ nofun, rfl, rfl⟩
    · cases h
      exact ⟨fun n => .kept _ nofun, fun r => .kept _ nofun, .kept _ nofun, rfl, rfl⟩
  | cleanup =>
    cases h
    exact ⟨fun n => .kept _ nofun, fun r => .kept _ nofun, .kept _ nofun, rfl, rfl⟩

theorem OwedMoved.mono {owed : List (ℕ × ℕ)} (h : OwedMoved s a owed) {x : ℕ × ℕ}
    (hx : x ∈ s.owed) : x ∈ owed := by
  cases h with
  | kept => exact hx
  | received => exact mem_append_right _ hx

theorem CancelStepped.taskCount_le (h : CancelStepped s a t) : s.taskCount ≤ t.taskCount := by
  rw [h.taskCount]
  unfold CancelBook.taskCountAfter
  split
  · exact Nat.le_succ _
  · exact Nat.le_refl _

theorem CancelStepped.requestCount_le (h : CancelStepped s a t) :
    s.requestCount ≤ t.requestCount := by
  rw [h.requestCount]
  unfold CancelBook.requestCountAfter
  split
  · exact Nat.le_succ _
  · exact Nat.le_refl _

/-- A task in a request was in it before, unchanged, or has just sent it. -/
theorem CancelStepped.requesting {n r : ℕ} (h : CancelStepped s a t)
    (hw : (t.tasks n).watch = .requesting r) :
    (s.tasks n).watch = .requesting r ∧ t.tasks n = s.tasks n ∨
      r = s.requestCount ∧ a = .watchCancelSignal n := by
  have hm := h.task n
  generalize t.tasks n = task at hm hw
  cases hm with
  | kept => exact .inl ⟨hw, rfl⟩
  | watched =>
    cases hw
    exact .inr ⟨rfl, rfl⟩
  | started | cancelled | looped | abandoned | ended => cases hw

end Moves

/-! ## Requests and their tasks -/

section Watching

variable {s t : CancelBook} {a : CancelAction}

theorem mem_running {u : ℕ} {report : String} :
    u ∈ s.running report ↔
      u < s.taskCount ∧ (s.tasks u).live = true ∧ (s.tasks u).report = report := by
  unfold CancelBook.running
  rw [mem_filter, mem_range, Bool.and_eq_true, beq_iff_eq]

/-- Each request is waited for by at most one task, which is live, and a task to which a signal
is on its way is owed that signal. -/
structure Watching (s : CancelBook) : Prop where
  unborn : ∀ n, s.taskCount ≤ n → (s.tasks n).watch = .stopped
  unopened : ∀ r, s.requestCount ≤ r → (s.requests r).pc = .over
  fresh : ∀ n r, (s.tasks n).watch = .requesting r → r < s.requestCount
  apart : ∀ m n r, (s.tasks m).watch = .requesting r → (s.tasks n).watch = .requesting r → m = n
  dead : ∀ n, (s.tasks n).live = false → (s.tasks n).watch = .stopped
  owed : ∀ u r, (u, r) ∈ s.owed → u < s.taskCount
  told : ∀ n r, s.onItsWay n r → (n, r) ∈ s.owed

theorem Watching.init : Watching .init where
  unborn _ _ := rfl
  unopened _ _ := rfl
  fresh _ _ h := by cases h
  apart _ _ _ h := by cases h
  dead _ _ := rfl
  owed _ _ h := by cases h
  told _ _ h := by cases h.1

theorem Watching.live_of_requesting (hs : Watching s) {n r : ℕ}
    (hw : (s.tasks n).watch = .requesting r) : (s.tasks n).live = true := by
  by_contra hlive
  rw [hs.dead n (by simpa using hlive)] at hw
  cases hw

theorem CancelStepped.unborn (h : CancelStepped s a t) (hs : Watching s) (n : ℕ)
    (hn : t.taskCount ≤ n) : (t.tasks n).watch = .stopped := by
  have hbefore : s.taskCount ≤ n := Nat.le_trans h.taskCount_le hn
  have hstopped := hs.unborn n hbefore
  have hm := h.task n
  generalize t.tasks n = task at hm
  cases hm with
  | kept => exact hstopped
  | started report hn' =>
    rw [h.taskCount, hn'] at hn
    exact absurd hn (Nat.not_succ_le_self _)
  | watched hw | looped _ _ hw | abandoned _ hw =>
    rw [hstopped] at hw
    cases hw
  | cancelled | ended => rfl

theorem CancelStepped.unopened (h : CancelStepped s a t) (hs : Watching s) (r : ℕ)
    (hr : t.requestCount ≤ r) : (t.requests r).pc = .over := by
  have hbefore : s.requestCount ≤ r := Nat.le_trans h.requestCount_le hr
  have hover := hs.unopened r hbefore
  have hm := h.request r
  generalize t.requests r = req at hm
  cases hm with
  | kept => exact hover
  | opened n ch hr' =>
    rw [h.requestCount, hr'] at hr
    exact absurd hr (Nat.not_succ_le_self _)
  | received _ _ hpc | timedOut hpc =>
    rw [hover] at hpc
    cases hpc
  | read => rfl

theorem CancelStepped.dead (h : CancelStepped s a t) (hs : Watching s) (n : ℕ)
    (hlive : (t.tasks n).live = false) : (t.tasks n).watch = .stopped := by
  have hm := h.task n
  generalize t.tasks n = task at hm hlive
  cases hm with
  | kept => exact hs.dead n hlive
  | started => cases hlive
  | watched hw | looped _ _ hw | abandoned _ hw =>
    rw [hs.dead n hlive] at hw
    cases hw
  | cancelled | ended => rfl

theorem CancelStepped.told (h : CancelStepped s a t) (hs : Watching s) (n r : ℕ)
    (hway : t.onItsWay n r) : (n, r) ∈ t.owed := by
  obtain ⟨hw, hpc⟩ := hway
  have hm := h.request r
  rcases h.requesting hw with ⟨hw', htask⟩ | ⟨rfl, rfl⟩
  · rw [htask] at hpc
    generalize t.requests r = req at hm hpc
    cases hm with
    | kept => exact h.owed.mono (hs.told n r ⟨hw', hpc⟩)
    | opened _ _ hr => exact absurd (hs.fresh n r hw') (by omega)
    | received report rest hsel hch =>
      -- the step that receives the signal records whom it was meant for
      have howed := h.owed
      generalize t.owed = owed at howed
      cases howed with
      | kept _ ha => exact absurd rfl (ha r)
      | received _ report' rest' _ hch' =>
        rw [hch] at hch'
        cases hch'
        refine mem_append_left _ (mem_map.mpr ⟨n, mem_running.mpr ⟨?_, ?_, ?_⟩, rfl⟩)
        · by_contra hn
          rw [hs.unborn n (by omega)] at hw'
          cases hw'
        · exact hs.live_of_requesting hw'
        · cases hpc
          rfl
    | timedOut | read => cases hpc
  · -- a request just sent has no answer yet
    have hover := hs.unopened s.requestCount (Nat.le_refl _)
    generalize t.requests s.requestCount = req at hm hpc
    cases hm with
    | kept =>
      rw [hover] at hpc
      cases hpc
    | opened => cases hpc

/-- **One step** keeps tasks and requests in order. -/
theorem Watching.step (hs : Watching s) (h : s.step a = some t) : Watching t := by
  have hstepped := CancelBook.stepped h
  refine ⟨hstepped.unborn hs, hstepped.unopened hs, ?_, ?_, hstepped.dead hs, ?_, hstepped.told hs⟩
  · intro n r hw
    rcases hstepped.requesting hw with ⟨hw', -⟩ | ⟨rfl, rfl⟩
    · exact Nat.lt_of_lt_of_le (hs.fresh n r hw') hstepped.requestCount_le
    · rw [hstepped.requestCount]
      exact Nat.lt_succ_self _
  · intro m n r hm hn
    rcases hstepped.requesting hm with ⟨hm', -⟩ | ⟨hr, ha⟩
    · rcases hstepped.requesting hn with ⟨hn', -⟩ | ⟨hr', -⟩
      · exact hs.apart m n r hm' hn'
      · exact absurd (hs.fresh m r hm') (by omega)
    · rcases hstepped.requesting hn with ⟨hn', -⟩ | ⟨-, ha'⟩
      · exact absurd (hs.fresh n r hn') (by omega)
      · rw [ha] at ha'
        cases ha'
        rfl
  · intro u r hu
    refine Nat.lt_of_lt_of_le ?_ hstepped.taskCount_le
    have howed := hstepped.owed
    generalize t.owed = owed at howed hu
    cases howed with
    | kept => exact hs.owed u r hu
    | received r' report rest hpc hch =>
      rcases mem_append.mp hu with hnew | hold
      · obtain ⟨u', hu', heq⟩ := mem_map.mp hnew
        cases heq
        exact (mem_running.mp hu').1
      · exact hs.owed u r hold

end Watching

/-! ## The condition is exact -/

section Exact

variable {s t : CancelBook} {a : CancelAction}

/-- A signal on its way to a task arrives, stays on its way, or comes to a task that has ended. -/
theorem CancelStepped.onItsWay {u r : ℕ} (h : CancelStepped s a t) (hs : Watching s)
    (ha : OneWatcher s a) (hway : s.onItsWay u r) :
    (t.tasks u).cancelledBy = some r ∨ t.onItsWay u r ∨ (t.tasks u).finished = true := by
  obtain ⟨hw, hpc⟩ := hway
  have hm := h.task u
  unfold CancelBook.onItsWay
  generalize t.tasks u = task at hm ⊢
  cases hm with
  | kept _ hn =>
    refine .inr (.inl ⟨hw, ?_⟩)
    have hreq := h.request r
    generalize t.requests r = req at hreq
    cases hreq with
    | kept => exact hpc
    | opened _ _ hr => exact absurd (hs.fresh u r hw) (by omega)
    | received _ _ hsel | timedOut hsel =>
      rw [hpc] at hsel
      cases hsel
    | read n hw' =>
      -- the answer is read by the task that waits for it
      have hnu := hs.apart n u r hw' hw
      subst hnu
      exact absurd rfl hn
  | started _ hn =>
    rw [hs.unborn u (Nat.le_of_eq hn.symm)] at hw
    cases hw
  | watched hw' =>
    rw [hw] at hw'
    cases hw'
  | cancelled r' hw' =>
    rw [hw] at hw'
    cases hw'
    exact .inl rfl
  | looped r' reportID hw' hr hne =>
    rw [hw] at hw'
    cases hw'
    rw [hpc] at hr
    cases hr
    exact absurd rfl hne
  | abandoned => exact absurd ⟨hw, hpc⟩ (ha.abandon u r rfl)
  | ended => exact .inr (.inr rfl)

/-- What has happened to a task stays: it is cancelled by one signal at most, and ends once. -/
theorem CancelStepped.settled {u r : ℕ} (h : CancelStepped s a t) (hs : Watching s)
    (hu : u < s.taskCount) (hdone : (s.tasks u).cancelledBy = some r ∨ (s.tasks u).finished = true) :
    (t.tasks u).cancelledBy = some r ∨ (t.tasks u).finished = true := by
  have hstopped : (s.tasks u).watch = .stopped := by
    refine hs.dead u ?_
    unfold RunningTask.live
    rcases hdone with hc | hf
    · rw [hc]
      rfl
    · rw [hf, Bool.not_true, Bool.and_false]
  have hm := h.task u
  generalize t.tasks u = task at hm
  cases hm with
  | kept => exact hdone
  | started _ hn => omega
  | watched hw | cancelled _ hw | looped _ _ hw | abandoned _ hw =>
    rw [hstopped] at hw
    cases hw
  | ended => exact .inr rfl

/-- The receiving step: its request is the one that every task the signal is meant for waits
for. -/
theorem CancelStepped.received {u r : ℕ} {report : String} {rest : List String}
    (h : CancelStepped s (.receive r) t) (ha : OneWatcher s (.receive r))
    (hpc : (s.requests r).pc = .selecting) (hch : s.chans (s.requests r).chan = report :: rest)
    (hu : u ∈ s.running report) : t.onItsWay u r := by
  have htask : t.tasks u = s.tasks u := by
    have hm := h.task u
    generalize t.tasks u = task at hm
    cases hm with
    | kept => rfl
  have hreq : (t.requests r).pc = .answered (some report) := by
    have hm := h.request r
    generalize t.requests r = req at hm
    cases hm with
    | kept _ hne => exact absurd rfl hne
    | received report' _ _ hch' =>
      rw [hch] at hch'
      cases hch'
      rfl
  refine ⟨?_, ?_⟩
  · rw [htask]
    exact ha.receive r report rest rfl hpc hch u hu
  · rw [htask, hreq, (mem_running.mp hu).2.2]

/-- **One step** of a run with one watcher for each signal. -/
theorem SignalsReach.step (hs : SignalsReach s) (hw : Watching s) (ha : OneWatcher s a)
    (h : s.step a = some t) : SignalsReach t := by
  have hstepped := CancelBook.stepped h
  -- whom an old signal has reached, or is reaching
  have hold : ∀ u r, (u, r) ∈ s.owed → (t.tasks u).cancelledBy = some r ∨ t.onItsWay u r ∨
      (t.tasks u).finished = true := by
    intro u r hu
    have hborn := hw.owed u r hu
    rcases hs u r hu with hc | hway | hf
    · exact (hstepped.settled hw hborn (.inl hc)).imp_right .inr
    · exact hstepped.onItsWay hw ha hway
    · exact (hstepped.settled hw hborn (.inr hf)).imp_right .inr
  intro u r hu
  have howed := hstepped.owed
  generalize t.owed = owed at howed hu
  cases howed with
  | kept => exact hold u r hu
  | received r' report rest hpc hch =>
    rcases mem_append.mp hu with hnew | hu'
    · obtain ⟨u', hu', heq⟩ := mem_map.mp hnew
      cases heq
      exact .inr (.inl (hstepped.received ha hpc hch hu'))
    · exact hold u r hu'

/-- A live task that is owed a signal and has no answer on its way has missed it. -/
theorem not_signalsReach {u r : ℕ} (howed : (u, r) ∈ t.owed) (hlive : (t.tasks u).live = true)
    (hway : (t.tasks u).watch ≠ .requesting r) : ¬ SignalsReach t := by
  intro hgood
  unfold RunningTask.live at hlive
  rw [Bool.and_eq_true, Option.isNone_iff_eq_none, Bool.not_eq_true'] at hlive
  rcases hgood u r howed with hc | hway' | hf
  · rw [hlive.1] at hc
    cases hc
  · exact hway hway'.1
  · rw [hlive.2] at hf
    cases hf

theorem not_signalsReach_of_received {u r : ℕ} {report : String} {rest : List String}
    (hpc : (s.requests r).pc = .selecting) (hch : s.chans (s.requests r).chan = report :: rest)
    (hu : u ∈ s.running report) (hother : (s.tasks u).watch ≠ .requesting r) :
    ∃ t, s.step (.receive r) = some t ∧ ¬ SignalsReach t := by
  refine ⟨{ s.setRequest r (.answered (some report)) with
    chans := update s.chans (s.requests r).chan rest
    owed := (s.running report).map (·, r) ++ s.owed }, ?_, not_signalsReach ?_ ?_ hother⟩
  · simp only [CancelBook.step, hpc, hch]
  · exact mem_append_left _ (mem_map_of_mem hu)
  · exact (mem_running.mp hu).2.1

theorem not_signalsReach_of_abandoned {n r : ℕ} (hs : Watching s) (hway : s.onItsWay n r) :
    ∃ t, s.step (.abandon n) = some t ∧ ¬ SignalsReach t := by
  have htask : (s.setTask n ((s.tasks n).at .looping)).tasks n = (s.tasks n).at .looping :=
    update_self ..
  refine ⟨s.setTask n ((s.tasks n).at .looping), by simp only [CancelBook.step, hway.1],
    not_signalsReach (u := n) (r := r) (hs.told n r hway) ?_ ?_⟩
  · rw [htask]
    exact hs.live_of_requesting hway.1
  · rw [htask]
    nofun

theorem OneWatcher.of_not (hs : Watching s) (ha : ¬ OneWatcher s a) :
    ∃ t, s.step a = some t ∧ ¬ SignalsReach t := by
  by_cases hreceive : ∃ r report rest u, a = .receive r ∧ (s.requests r).pc = .selecting ∧
      s.chans (s.requests r).chan = report :: rest ∧ u ∈ s.running report ∧
      (s.tasks u).watch ≠ .requesting r
  · obtain ⟨r, report, rest, u, rfl, hpc, hch, hu, hother⟩ := hreceive
    exact not_signalsReach_of_received hpc hch hu hother
  by_cases habandon : ∃ n r, a = .abandon n ∧ s.onItsWay n r
  · obtain ⟨n, r, rfl, hway⟩ := habandon
    exact not_signalsReach_of_abandoned hs hway
  · refine absurd ⟨?_, ?_⟩ ha
    · intro r report rest hr hpc hch u hu
      by_contra hother
      exact hreceive ⟨r, report, rest, u, hr, hpc, hch, hu, hother⟩
    · intro n r hn hway
      exact habandon ⟨n, r, hn, hway⟩

/-- **A signal reaches the tasks it is meant for exactly when it has one watcher.** In every
state of a run, each task of the report that was running when a watcher received the signal has
been cancelled by it, or has the answer on its way, or has ended, if and only if every signal of
the run was received by the watcher of the one running task of its report and no running task
gave up a request whose answer was a signal for it. -/
theorem signals_reach_iff (as : List CancelAction) :
    Throughout CancelBook.step SignalsReach .init as ↔
      Along CancelBook.step OneWatcher .init as := by
  constructor
  · exact along_of_throughout (fun _ _ _ hs => hs.step) (fun _ _ => OneWatcher.of_not) as
      Watching.init
  · have hstep : ∀ s a s', SignalsReach s ∧ Watching s → OneWatcher s a → s.step a = some s' →
        SignalsReach s' ∧ Watching s' :=
      fun s a s' hs ha h => ⟨hs.1.step hs.2 ha h, hs.2.step h⟩
    exact throughout_of_inv (fun _ hs => hs.1) hstep as ⟨nofun, Watching.init⟩

end Exact

/-- Two tasks of one report; the watcher of the first receives the only signal. -/
def takenByOne : List CancelAction :=
  [.executeTask "r", .executeTask "r", .watchCancelSignal 0, .watchCancelSignal 1,
    .sendCancelToAgents "r", .receive 0, .deliver 0]

/-- A task of the report and one of another; the watcher of the other receives the signal, and
throws it away. -/
def takenByAnother : List CancelAction :=
  [.executeTask "r", .executeTask "q", .watchCancelSignal 0, .watchCancelSignal 1,
    .sendCancelToAgents "r", .receive 1, .deliver 1]

/-- In both runs the signal is gone and a task of the report goes on as if nothing happened. -/
theorem signal_misses_task :
    (∃ s, run CancelBook.step .init takenByOne = some s ∧ (s.tasks 0).cancelledBy = some 0 ∧
      (s.tasks 1).live = true ∧ s.chans 0 = [] ∧ ¬ SignalsReach s) ∧
    ∃ s, run CancelBook.step .init takenByAnother = some s ∧
      (s.tasks 0).live = true ∧ (s.tasks 1).watch = .looping ∧ s.chans 0 = [] ∧
      ¬ SignalsReach s := by
  refine ⟨⟨_, rfl, rfl, rfl, rfl, ?_⟩, ⟨_, rfl, rfl, rfl, rfl, ?_⟩⟩
  · exact not_signalsReach (u := 1) (r := 0) (by decide) rfl (by decide)
  · exact not_signalsReach (u := 0) (r := 1) (by decide) rfl (by decide)

end Robot.Mode
