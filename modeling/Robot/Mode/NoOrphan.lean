import Robot.Mode.TaskOwner

/-!
# Calls that wait for nothing

Between the second select of `enqueueAgentTask` and its result lie five places: the queue
of the agent, a poll response, the agent, the result on its way back, the call's result
channel. A call is orphaned when its task or result is in none of them; it then blocks its
report for the rest of its 35 minutes. There are four ways to fall out, and `orphan_runs`
has a run for each:

* a poll's connection is closed and its select still picks the task (or the connection
  breaks while the response is on its way): the response goes nowhere and nobody puts the
  task back;
* the agent has been away for five minutes and the cleanup deletes its queue with the task
  in it; the agent's next poll gets a new queue;
* the task has an infinite rate, the encoder refuses it, and the poll is answered with nothing;
* another call with the same task key takes over the result entry, and the result wakes
  the other call.

`HandsOver` is the condition on single steps that excludes just these (and the pushes into
a queue already deleted). Along every run whose steps all meet it, no waiting call is ever
orphaned: each hand-over moves the task from one of the places to the next
(`Stepped.located`), and the result entry of a call under way is its own (`Registered`), so
its result reaches its own channel.
-/

namespace Robot.Mode

open Robot.Lib Function List

/-! ## The property and the condition -/

/-- Where the task of call `c`, or its result, is. A result is known by its task key, so the
result in the call's channel is one posted under that key. -/
inductive Located (s : Master) (c : ℕ) : Prop
  /-- In the queue that the agent's next poll will fetch. -/
  | queued (q : ℕ) (hcur : s.agentQueues (s.calls c).agent = some q) (hq : c ∈ s.queues q)
  /-- In a response to the agent, over a connection that is there. -/
  | response (p : ℕ) (hag : (s.polls p).agent = (s.calls c).agent)
      (hcon : (s.polls p).connected = true) (hp : (s.polls p).pc.task? = some c)
  /-- In execution on the agent. -/
  | executing (hx : ((s.calls c).agent, c) ∈ s.executing)
  /-- Its result is posted. -/
  | inFlight (err : String) (hx : (c, err) ∈ s.inFlight)
  /-- The result is about to be sent into the call's channel. -/
  | landing (err : String) (hx : (c, err) ∈ s.landing)
  /-- The result is in the call's channel. -/
  | arrived (err : String) (hch : (s.calls c).resultCh = some err)

/-- No orphan: the task or result of every waiting call is somewhere. -/
def NoOrphan (s : Master) : Prop := ∀ c, (s.calls c).pc.isWaiting = true → Located s c

/-- The queue a call is about to push into. -/
def CallPc.queue? : CallPc → Option ℕ
  | .queuing q _ => some q
  | _ => none

/-- What each step must meet for the hand-over to be without loss. -/
def HandsOver (s : Master) : Action → Prop
  -- no other call with this task key is under way
  | .enqueueAgentTask _ task _ => s.taskResults task.taskKey = none
  -- the queue fetched is still the agent's
  | .push c => ∀ q ∈ (s.calls c).pc.queue?, s.agentQueues (s.calls c).agent = some q
  -- a task is taken only for a connection that is there, and
  | .take p => (s.polls p).connected = true
  -- the encoder takes the task, and
  | .respond p => ∀ c ∈ (s.polls p).pc.task?, (s.calls c).task.finite = true
  -- the connection stays while a response is on its way
  | .disconnect p => (s.polls p).pc.task? = none
  -- the queue that goes with the agent is empty
  | .cleanup agent => ∀ q ∈ s.agentQueues agent, s.queues q = []
  | _ => True

instance (s : Master) : DecidablePred (HandsOver s) := by
  intro a
  unfold HandsOver
  split <;> infer_instance

/-! ## The result entry of a call -/

/-- The call has its entry in `taskResults` and has not deleted it yet. -/
def CallPc.underWay : CallPc → Bool
  | .queuing _ _ | .waiting _ | .leaving _ => true
  | .notCalled | .returned _ => false

/-- Every call under way is the one its task key leads to. -/
def Registered (s : Master) : Prop :=
  ∀ c, (s.calls c).pc.underWay = true → s.taskResults (s.calls c).task.taskKey = some c

theorem Registered.init : Registered Master.init := by
  intro c hc
  cases hc

theorem CallPc.underWay_of_waiting {pc : CallPc} (h : pc.isWaiting = true) :
    pc.underWay = true := by
  cases pc with
  | waiting since => rfl
  | _ => cases h

section Registered

variable {s t : Master} {a : Action}

/-- The part of the condition that the entries need: a new call has a key of its own. -/
def FreeKey (s : Master) (a : Action) : Prop :=
  ∀ agent task ctx, a = .enqueueAgentTask agent task ctx → s.taskResults task.taskKey = none

theorem HandsOver.freeKey (h : HandsOver s a) : FreeKey s a := by
  intro agent task ctx ha
  subst ha
  exact h

/-- Only the call itself deletes its entry. -/
theorem Stepped.entry_kept (h : Stepped s a t) (hfree : FreeKey s a) (k : Registered s) {c : ℕ}
    (hc : (s.calls c).pc.underWay = true) (hne : a ≠ .finish c) :
    t.taskResults (s.calls c).task.taskKey = some c := by
  have hentry := k c hc
  cases h with
  | enqueue agent task ctx q n f m hf =>
    have hnone : s.taskResults task.taskKey = none := hfree agent task ctx rfl
    have hkey : (s.calls c).task.taskKey ≠ task.taskKey := by
      intro he
      rw [he, hnone] at hentry
      cases hentry
    rw [← hentry]
    exact update_of_ne hkey ..
  | finish c' err hpc =>
    have hkey : (s.calls c).task.taskKey ≠ (s.calls c').task.taskKey := by
      intro he
      have hentry' := k c' (by rw [hpc]; rfl)
      rw [← he, hentry] at hentry'
      cases hentry'
      exact hne rfl
    rw [← hentry]
    exact update_of_ne hkey ..
  | _ => exact hentry

/-- A call that has deleted its entry is no longer under way. -/
theorem Stepped.finished {c : ℕ} (h : Stepped s (.finish c) t) :
    (t.calls c).pc.underWay = false := by
  cases h with
  | finish _ err hpc =>
    simp only [update_self]
    rfl

/-- **A step under the condition** keeps every call under way registered. -/
theorem Stepped.registered (h : Stepped s a t) (hfree : FreeKey s a) (k : Registered s) :
    Registered t := by
  intro c hc
  have hne : a ≠ .finish c := by
    intro ha
    subst ha
    rw [h.finished] at hc
    cases hc
  have hkept : (s.calls c).pc.underWay = true →
      t.taskResults (s.calls c).task.taskKey = some c := fun hc => h.entry_kept hfree k hc hne
  have hm := h.call_moved c
  generalize t.calls c = call at hm hc ⊢
  cases hm with
  | same => exact hkept hc
  | enqueue agent task ctx q hcc hlt hq hkey => exact hkey
  | push _ _ hpc | leaveQueue _ _ _ _ hpc | leaveWait _ _ _ _ hpc =>
    exact hkept (by rw [hpc]; rfl)
  | finish => cases hc
  | resultSent => exact hkept hc

end Registered

/-! ## Each hand-over reaches the next place -/

section Located

variable {s t : Master} {a : Action} {c : ℕ}

theorem Fetched.keeps {agent agent' : String} {q n q' : ℕ} {f : ℕ → String}
    {m : String → Option ℕ} (h : Fetched s agent q n f m) (hcur : s.agentQueues agent' = some q') :
    m agent' = some q' := by
  cases h with
  | found q hq => exact hcur
  | made hq =>
    have hne : agent' ≠ agent := by
      intro he
      rw [he, hq] at hcur
      cases hcur
    rw [update_of_ne hne]
    exact hcur

/-- A queue with a task in it stays the agent's. -/
theorem Stepped.queue_kept (h : Stepped s a t) (hover : HandsOver s a) {agent : String} {q : ℕ}
    (hcur : s.agentQueues agent = some q) (hq : c ∈ s.queues q) :
    t.agentQueues agent = some q := by
  cases h with
  | enqueue _ _ _ _ _ _ _ hf => exact hf.keeps hcur
  | poll _ _ _ _ _ _ hf => exact hf.keeps hcur
  | cleanup agent' r =>
    have hne : agent ≠ agent' := by
      intro he
      have hempty : s.queues q = [] := hover q (he ▸ hcur)
      rw [hempty] at hq
      cases hq
    rw [← hcur]
    exact update_of_ne hne ..
  | _ => exact hcur

/-- A queued task stays in its queue, or passes into a response to its agent. -/
theorem Stepped.from_queue (h : Stepped s a t) (hover : HandsOver s a) (i : Owned s) {q : ℕ}
    (hcur : s.agentQueues (s.calls c).agent = some q) (hq : c ∈ s.queues q)
    (hag : (t.calls c).agent = (s.calls c).agent) : Located t c := by
  have hcur' : t.agentQueues (t.calls c).agent = some q := by
    rw [hag]
    exact h.queue_kept hover hcur hq
  cases h with
  | push c' q' since hpc =>
    refine .queued q hcur' ?_
    by_cases hqq : q = q'
    · subst hqq
      simp only [update_self, mem_append]
      exact .inl hq
    · simp only [update_of_ne hqq]
      exact hq
  | take p c' rest hpc hhead =>
    by_cases hqq : q = (s.polls p).queue
    · have hc := hq
      rw [hqq, hhead] at hc
      rcases mem_cons.mp hc with rfl | hc
      · refine .response p ?_ ?_ ?_
        · simp only [update_self]
          exact (i.at_poll hpc (hqq ▸ hq)).1.symm
        · simp only [update_self]
          exact hover
        · simp only [update_self]
          rfl
      · refine .queued q hcur' ?_
        simp only [hqq, update_self]
        exact hc
    · refine .queued q hcur' ?_
      simp only [update_of_ne hqq]
      exact hq
  | _ => exact .queued q hcur' hq

/-- A response stays on its way, or reaches the agent. -/
theorem Stepped.from_response (h : Stepped s a t) (hover : HandsOver s a) (i : Owned s) {p : ℕ}
    (hp : (s.polls p).pc.task? = some c) (hpag : (s.polls p).agent = (s.calls c).agent)
    (hcon : (s.polls p).connected = true) (hag : (t.calls c).agent = (s.calls c).agent) :
    Located t c := by
  have hm := h.poll_moved p
  have hresponse : (t.polls p).agent = (s.polls p).agent → (t.polls p).connected = true →
      (t.polls p).pc.task? = some c → Located t c :=
    fun h₁ h₂ h₃ => .response p (by rw [h₁, hpag, hag]) h₂ h₃
  generalize t.polls p = poll at hm hresponse
  cases hm with
  | same => exact hresponse rfl hcon hp
  | poll agent q hpp =>
    rw [i.unpolled p (by omega)] at hp
    cases hp
  | take _ _ hpc | endPoll hpc =>
    rw [hpc] at hp
    cases hp
  | respond c' hpc =>
    rw [hpc] at hp
    exact hresponse rfl hcon hp
  | respondEmpty c' hpc hfin =>
    have hfinite : (s.calls c).task.finite = true := hover c hp
    rw [hpc] at hp
    cases hp
    rw [hfin] at hfinite
    cases hfinite
  | disconnect =>
    have hnone : (s.polls p).pc.task? = none := hover
    rw [hnone] at hp
    cases hp
  | deliver c' hpc _ hx =>
    rw [hpc] at hp
    cases hp
    exact .executing (by rw [hag, ← hpag]; exact hx)
  | lose c' hpc hlost =>
    rw [hcon] at hlost
    cases hlost

/-- A task in execution stays there, or its result is posted. -/
theorem Stepped.from_agent (h : Stepped s a t) (hx : ((s.calls c).agent, c) ∈ s.executing)
    (hag : (t.calls c).agent = (s.calls c).agent) : Located t c := by
  rw [← hag] at hx
  cases h with
  | deliver => exact .executing (mem_cons_of_mem _ hx)
  | postResult agent c' err =>
    by_cases he : (agent, c') = ((s.calls c).agent, c)
    · obtain ⟨-, rfl⟩ := Prod.mk.inj he
      exact .inFlight err mem_cons_self
    · exact .executing ((mem_erase_of_ne (Ne.symm he)).mpr hx)
  | _ => exact .executing hx

/-- A posted result stays on its way, or finds the channel of its call. -/
theorem Stepped.from_flight (h : Stepped s a t) {err : String} (hx : (c, err) ∈ s.inFlight)
    (hentry : s.taskResults (s.calls c).task.taskKey = some c) : Located t c := by
  cases h with
  | postResult => exact .inFlight err (mem_cons_of_mem _ hx)
  | resultDropped c' err' hkey =>
    have hne : (c, err) ≠ (c', err') := by
      intro he
      obtain ⟨rfl, -⟩ := Prod.mk.inj he
      rw [hentry] at hkey
      cases hkey
    exact .inFlight err ((mem_erase_of_ne hne).mpr hx)
  | resultFound c' d err' hkey =>
    by_cases he : (c, err) = (c', err')
    · obtain ⟨rfl, rfl⟩ := Prod.mk.inj he
      rw [hentry] at hkey
      cases hkey
      exact .landing err mem_cons_self
    · exact .inFlight err ((mem_erase_of_ne he).mpr hx)
  | _ => exact .inFlight err hx

/-- A result for the channel stays on its way, or there is one in the channel. -/
theorem Stepped.from_landing (h : Stepped s a t) {err : String} (hx : (c, err) ∈ s.landing) :
    Located t c := by
  cases h with
  | resultFound => exact .landing err (mem_cons_of_mem _ hx)
  | resultSent d err' hch =>
    by_cases he : (c, err) = (d, err')
    · obtain ⟨rfl, rfl⟩ := Prod.mk.inj he
      exact .arrived err (by simp)
    · exact .landing err ((mem_erase_of_ne he).mpr hx)
  | resultFull d err' old hch =>
    by_cases he : (c, err) = (d, err')
    · obtain ⟨rfl, rfl⟩ := Prod.mk.inj he
      exact .arrived old hch
    · exact .landing err ((mem_erase_of_ne he).mpr hx)
  | _ => exact .landing err hx

/-- **A step under the condition** keeps a call that goes on waiting located. -/
theorem Stepped.located (h : Stepped s a t) (hover : HandsOver s a) (i : Owned s)
    (k : Registered s) (hw : (s.calls c).pc.isWaiting = true)
    (hag : (t.calls c).agent = (s.calls c).agent)
    (hch : ∀ err, (s.calls c).resultCh = some err → (t.calls c).resultCh = some err)
    (l : Located s c) : Located t c := by
  cases l with
  | queued q hcur hq => exact h.from_queue hover i hcur hq hag
  | response p hpag hcon hp => exact h.from_response hover i hp hpag hcon hag
  | executing hx => exact h.from_agent hx hag
  | inFlight err hx => exact h.from_flight hx (k c (CallPc.underWay_of_waiting hw))
  | landing err hx => exact h.from_landing hx
  | arrived err harr => exact .arrived err (hch err harr)

/-- **A step under the condition** orphans no call. -/
theorem Stepped.noOrphan (h : Stepped s a t) (hover : HandsOver s a) (i : Owned s)
    (k : Registered s) (l : NoOrphan s) : NoOrphan t := by
  intro c hw
  have hm := h.call_moved c
  have hkept := fun hw hag hch => h.located (c := c) hover i k hw hag hch (l c hw)
  generalize hcall : t.calls c = call at hm hw
  rw [hcall] at hkept
  cases hm with
  | same => exact hkept hw rfl (fun _ hch => hch)
  | push q since hpc hq =>
    have hcur : t.agentQueues (s.calls c).agent = some q := by
      cases h with
      | push => exact hover q (by rw [hpc]; rfl)
    refine .queued q ?_ hq
    rw [hcall]
    exact hcur
  | resultSent err hch =>
    refine hkept hw rfl ?_
    intro err' hch'
    rw [hch] at hch'
    cases hch'
  | enqueue | leaveQueue | leaveWait | finish => cases hw

end Located

/-- **No orphan, as long as every hand-over is clean.** In every run whose steps all meet
`HandsOver`, in every state reached each call waiting for a result has its task in the
agent's current queue, in a response that reaches the agent or in execution on the agent,
or its result in flight or in its own channel. -/
theorem no_orphan_throughout (as : List Action)
    (hover : Along Master.step HandsOver Master.init as) :
    Throughout Master.step NoOrphan Master.init as := by
  have hstep : ∀ s a s', Owned s ∧ Registered s ∧ NoOrphan s → HandsOver s a →
      Master.step s a = some s' → Owned s' ∧ Registered s' ∧ NoOrphan s' := by
    intro s a s' i hover hs
    have h := Master.stepped hs
    exact ⟨h.owned i.1, h.registered hover.freeKey i.2.1, h.noOrphan hover i.1 i.2.1 i.2.2⟩
  have hinit : NoOrphan Master.init := by
    intro c hc
    cases hc
  exact throughout_of_inv (fun s i => i.2.2) hstep as ⟨Owned.init, Registered.init, hinit⟩ hover

/-! ## Runs -/

/-- The task or result of the waiting call `c` is nowhere, as a computation. -/
def Master.orphaned (s : Master) (c : ℕ) : Bool :=
  (s.calls c).pc.isWaiting &&
    decide (∀ q ∈ s.agentQueues (s.calls c).agent, c ∉ s.queues q) &&
    decide (∀ p < s.pollCount, (s.polls p).connected = true → (s.polls p).pc.task? ≠ some c) &&
    decide (∀ x ∈ s.executing, x ≠ ((s.calls c).agent, c)) &&
    decide (∀ x ∈ s.inFlight, x.1 ≠ c) && decide (∀ x ∈ s.landing, x.1 ≠ c) &&
    (s.calls c).resultCh.isNone

theorem Owned.not_noOrphan {s : Master} (i : Owned s) {c : ℕ} (h : s.orphaned c = true) :
    ¬ NoOrphan s := by
  simp only [Master.orphaned, Bool.and_eq_true, decide_eq_true_eq] at h
  obtain ⟨⟨⟨⟨⟨⟨hw, hqueue⟩, hpoll⟩, hexec⟩, hflight⟩, hland⟩, hch⟩ := h
  intro hno
  cases hno c hw with
  | queued q hcur hq => exact hqueue q hcur hq
  | response p hag hcon hp =>
    refine hpoll p ?_ hcon hp
    by_contra hge
    rw [i.unpolled p (by omega)] at hp
    cases hp
  | executing hx => exact hexec _ hx rfl
  | inFlight err hx => exact hflight _ hx rfl
  | landing err hx => exact hland _ hx rfl
  | arrived err harr =>
    rw [harr] at hch
    cases hch

/-- The agent is registered and polling, and a report is submitted. -/
def agentPolling : List Action :=
  [.book (.handleAgentRegister "a" "s"), .book (.handleSubmitTask "r"), .book (.storeCancel "r" 0),
    .handleAgentPoll "a"]

/-- A call of the report has its task in the agent's queue. -/
def callQueued (c : ℕ) : List Action :=
  [.enqueueAgentTask "a" ⟨"r/0/a", "r", true⟩ 0, .push c]

/-- The agent is handed the first task of its queue, executes it and posts its result. -/
def taskServed : List Action :=
  [.take 0, .respond 0, .deliver 0, .postResult "a" 0 "", .handleAgentResult 0 ""]

/-- A task served over a connection that stays: each step meets the condition, and the run
goes through to the result's way into the channel. -/
theorem no_orphan_served :
    (run Master.step Master.init (agentPolling ++ callQueued 0 ++ taskServed)).isSome = true ∧
      Throughout Master.step NoOrphan Master.init (agentPolling ++ callQueued 0 ++ taskServed) :=
  ⟨by decide +kernel, no_orphan_throughout _ (by decide +kernel)⟩

/-- The agent's connection is gone, and its poll takes the task all the same. -/
def takenForClosedPoll : List Action :=
  agentPolling ++ [.disconnect 0] ++ callQueued 0 ++ [.take 0, .respond 0, .lose 0]

/-- The agent's connection is gone and its poll ends; the agent is away for five minutes with
the task in its queue. -/
def cleanedUp : List Action :=
  agentPolling ++ [.disconnect 0] ++ callQueued 0 ++
    [.endPoll 0, .book (.advance 301), .cleanup "a"]

/-- The line of the task asks for an infinite rate. -/
def notEncoded : List Action :=
  agentPolling ++ [.enqueueAgentTask "a" ⟨"r/0/a", "r", false⟩ 0, .push 0, .take 0, .respond 0]

/-- Two calls have the same task key; the result of the first one's task goes to the second. -/
def keyTakenOver : List Action :=
  agentPolling ++ callQueued 0 ++ callQueued 1 ++ taskServed ++ [.sendResult 1 ""]

/-- In four ways a call is left waiting for a task that is nowhere. -/
theorem orphan_runs (as : List Action)
    (has : as ∈ [takenForClosedPoll, cleanedUp, notEncoded, keyTakenOver]) :
    ∃ t, run Master.step Master.init as = some t ∧ ¬ NoOrphan t := by
  have hrun : (run Master.step Master.init as).map (fun t => t.orphaned 0) = some true := by
    simp only [mem_cons, not_mem_nil, or_false] at has
    rcases has with rfl | rfl | rfl | rfl <;> decide +kernel
  obtain ⟨t, ht, horphan⟩ := Option.map_eq_some_iff.mp hrun
  exact ⟨t, ht, (run_owned_once ht).1.not_noOrphan horphan⟩

/-- A waiting call is orphaned when a poll takes its task for a closed connection. -/
theorem closed_poll_orphans :
    ∃ t, run Master.step Master.init takenForClosedPoll = some t ∧ ¬ NoOrphan t :=
  orphan_runs _ (by simp)

end Robot.Mode
