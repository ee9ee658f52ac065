import Robot.Mode.TaskOwner

/-!
# Tasks that outlive their call

`enqueueAgentTask` gives up through the context or the deadline of its *second* select,
when its task is already in the agent's channel. Nothing takes the task out again: the
call returns "task cancelled", the report counts as stopped, and the next poll of the
agent is handed the task all the same. `stopped_report_starts` is the shortest such run:
a report is stopped while its task waits in the channel, its only call returns, and the
agent then polls and starts executing.

What is right about the hand-over does not depend on any of this: a task is handed out at
most once and only to its own agent, under every interleaving (`TaskOwner`). What the
rest needs is a condition on one step only, `StaysWithTask`: a call leaves its second
select no earlier than its task has left the master. Along every run whose steps all meet
it, each task still in a channel or in a response belongs to a call that is waiting for
it (`Attended`), so no task is handed out, and none is started, after its call has
returned (`no_zombie_throughout`).
-/

namespace Robot.Mode

open Robot.Lib

/-! ## The property and the condition -/

/-- No zombie: each task has been handed to at most one poll, of its own agent and while its
call had not returned; and no agent has started a task whose call had returned. -/
structure NoZombie (s : Master) : Prop where
  once : (s.handouts.map Handout.call).Nodup
  own : ∀ x ∈ s.handouts, (s.calls x.call).agent = x.agent
  handed : ∀ x ∈ s.handouts, x.late = false
  started : ∀ x ∈ s.starts, x.late = false

/-- The task of call `c` has left the master: it is in no channel and in no response still
on its way. -/
def Master.HasLeft (s : Master) (c : ℕ) : Prop :=
  (∀ q < s.queueCount, c ∉ s.queues q) ∧ ∀ p < s.pollCount, (s.polls p).pc.task? ≠ some c

instance (s : Master) (c : ℕ) : Decidable (s.HasLeft c) := by
  unfold Master.HasLeft
  infer_instance

/-- A call leaves its second select only when its task has left the master. -/
def StaysWithTask (s : Master) : Action → Prop
  | .leaveWait c _ => s.HasLeft c
  | _ => True

instance (s : Master) : DecidablePred (StaysWithTask s) := by
  intro a
  unfold StaysWithTask
  split <;> infer_instance

/-! ## The invariant -/

/-- Each task still on the master has its call waiting for it. -/
structure Attended (s : Master) : Prop where
  queued : ∀ q c, c ∈ s.queues q → (s.calls c).pc.isWaiting = true
  held : ∀ p c, (s.polls p).pc.task? = some c → (s.calls c).pc.isWaiting = true
  handed : ∀ x ∈ s.handouts, x.late = false
  started : ∀ x ∈ s.starts, x.late = false

theorem Attended.init : Attended Master.init where
  queued _ _ h := by cases h
  held _ _ h := by cases h
  handed _ h := by cases h
  started _ h := by cases h

theorem CallPc.not_returned_of_waiting {pc : CallPc} (h : pc.isWaiting = true) :
    pc.hasReturned = false := by
  cases pc with
  | waiting since => rfl
  | _ => cases h

section Attended

variable {s t : Master} {a : Action}

theorem Owned.not_left_of_queued (i : Owned s) {q c : ℕ} (hc : c ∈ s.queues q) :
    ¬ s.HasLeft c := by
  intro hleft
  obtain ⟨agent, hq, -⟩ := i.queued q c hc
  exact hleft.1 q hq.1 hc

theorem Owned.not_left_of_held (i : Owned s) {p c : ℕ}
    (hc : (s.polls p).pc.task? = some c) : ¬ s.HasLeft c := by
  intro hleft
  refine hleft.2 p ?_ hc
  by_contra hge
  rw [i.unpolled p (by omega)] at hc
  cases hc

/-- Under the condition, a call whose task is still on the master goes on waiting. -/
theorem Stepped.still_waiting (h : Stepped s a t) (i : Owned s) (hstay : StaysWithTask s a)
    {c : ℕ} (hc : ¬ s.HasLeft c) (hw : (s.calls c).pc.isWaiting = true) :
    (t.calls c).pc.isWaiting = true := by
  have hm := h.call_moved c
  generalize t.calls c = call at hm ⊢
  cases hm with
  | same => exact hw
  | enqueue agent task ctx q hcc =>
    rw [i.unborn c (by omega)] at hw
    cases hw
  | push => rfl
  | leaveQueue _ _ _ _ hpc | finish _ hpc =>
    rw [hpc] at hw
    cases hw
  | leaveWait => exact absurd hstay hc
  | resultSent => exact hw

/-- **A step under the condition** keeps every task on the master attended. -/
theorem Stepped.attended (h : Stepped s a t) (i : Owned s) (hstay : StaysWithTask s a)
    (w : Attended s) : Attended t := by
  refine ⟨?_, ?_, ?_, ?_⟩
  · intro q c hc
    rcases h.mem_queues hc with hc | ⟨rfl, since, hpc⟩
    · exact h.still_waiting i hstay (i.not_left_of_queued hc) (w.queued q c hc)
    · cases h with
      | push c' q' since' hpc' =>
        simp only [Function.update_self]
        rfl
  · intro p c hc
    rcases (h.held hc).2 with hc | ⟨hpc, hc⟩
    · exact h.still_waiting i hstay (i.not_left_of_held hc) (w.held p c hc)
    · exact h.still_waiting i hstay (i.not_left_of_queued hc) (w.queued _ c hc)
  · intro x hx
    rcases h.mem_handouts hx with hx | ⟨p, hpc, hc, -, hlate⟩
    · exact w.handed x hx
    · rw [hlate]
      exact CallPc.not_returned_of_waiting (w.queued _ _ hc)
  · intro x hx
    rcases h.mem_starts hx with hx | ⟨p, hc, -, hlate⟩
    · exact w.started x hx
    · rw [hlate]
      exact CallPc.not_returned_of_waiting (w.held p _ hc)

end Attended

/-- **No zombie, as long as no call leaves its task behind.** In every run in which each
call leaves its second select only when its task has left the master, every state reached
has handed each task to at most one poll, of its own agent and before its call returned,
and no agent has started a task after its call returned. -/
theorem no_zombie_throughout (as : List Action)
    (hstay : Along Master.step StaysWithTask Master.init as) :
    Throughout Master.step NoZombie Master.init as := by
  have hsound : ∀ s, Owned s ∧ Once s ∧ Attended s → NoZombie s := by
    intro s i
    exact ⟨i.2.1.handed, fun x hx => (i.1.handed x hx).1, i.2.2.handed, i.2.2.started⟩
  have hstep : ∀ s a s', Owned s ∧ Once s ∧ Attended s → StaysWithTask s a →
      Master.step s a = some s' → Owned s' ∧ Once s' ∧ Attended s' := by
    intro s a s' i hstay hs
    have h := Master.stepped hs
    exact ⟨h.owned i.1, h.once i.1 i.2.1, h.attended i.1 hstay i.2.2⟩
  exact throughout_of_inv hsound hstep as ⟨Owned.init, Once.init, Attended.init⟩ hstay

/-- A report whose one task has been put into the channel of its agent. -/
def taskQueued : List Action :=
  [.book (.handleAgentRegister "a" "s"), .book (.handleSubmitTask "r"), .book (.storeCancel "r" 0),
    .enqueueAgentTask "a" ⟨"r/0/a", "r", true⟩ 0, .push 0]

/-- The agent polls, is handed the first task of its channel and starts it. -/
def agentPolls : List Action :=
  [.handleAgentPoll "a", .take 0, .respond 0, .deliver 0]

/-- The report is stopped and its call returns. -/
def reportStopped : List Action :=
  [.book (.handleStopTask "r"), .leaveWait 0 (.giveUp .cancelled), .finish 0]

/-- Stopped after the agent has started the task: the condition holds, the run goes through
to the call's return, and there is no zombie. -/
theorem no_zombie_stopped_late :
    (run Master.step Master.init (taskQueued ++ agentPolls ++ reportStopped)).isSome = true ∧
      Throughout Master.step NoZombie Master.init (taskQueued ++ agentPolls ++ reportStopped) :=
  ⟨by decide +kernel, no_zombie_throughout _ (by decide +kernel)⟩

/-- Stopped while the task is still in the channel: the call returns "task cancelled", and the
agent is then handed the task and starts it. -/
theorem stopped_report_starts :
    ∃ t, run Master.step Master.init (taskQueued ++ reportStopped ++ agentPolls) = some t ∧
      (t.calls 0).pc = .returned (some "task cancelled") ∧ t.handouts = [⟨0, "a", true⟩] ∧
      t.starts = [⟨0, "a", true⟩] ∧ ¬ NoZombie t := by
  have hrun : (run Master.step Master.init (taskQueued ++ reportStopped ++ agentPolls)).map
      (fun t => ((t.calls 0).pc, t.handouts, t.starts)) =
        some (.returned (some "task cancelled"), [⟨0, "a", true⟩], [⟨0, "a", true⟩]) := by
    decide +kernel
  obtain ⟨t, ht, hout⟩ := Option.map_eq_some_iff.mp hrun
  obtain ⟨hpc, hhand, hstart⟩ : (t.calls 0).pc = .returned (some "task cancelled") ∧
      t.handouts = [⟨0, "a", true⟩] ∧ t.starts = [⟨0, "a", true⟩] := by
    simpa using hout
  refine ⟨t, ht, hpc, hhand, hstart, ?_⟩
  intro hno
  have hlate := hno.handed ⟨0, "a", true⟩ (by rw [hhand]; exact List.mem_cons_self)
  cases hlate

end Robot.Mode
