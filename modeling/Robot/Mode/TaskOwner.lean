import Robot.Mode.TaskQueue

/-!
# Every task stays with its agent and is handed out once

Two invariants of the master's queues that hold under every interleaving, whatever is
cancelled, cleaned up, disconnected or timed out.

* `Owned`: a channel is made for one agent and only calls and polls of that agent ever
  hold it, so a task is found only where its own agent will look: in a channel of that
  agent, in a poll of that agent, on that agent. The induction rests on two facts that
  never change again: for whom a channel was made (`IsQueueOf`), and for whom a task was
  submitted once it has been put into a channel (`IsTaskFor`).
* `Once`: a call puts its task into one channel, once, and a poll removes what it takes,
  so a task is in at most one place of at most one channel, and no longer in any after it
  has been handed out. No task is handed out twice.

Before them stands one lemma for each place a task can be in: what is there after a step
was there before, or has just come from the place before it.
-/

namespace Robot.Mode

open Robot.Lib Function List

/-! ## Where a task can come from -/

section Places

variable {s t : Master} {a : Action}

variable {c : ℕ}

theorem Stepped.mem_queues (h : Stepped s a t) {q : ℕ} (hc : c ∈ t.queues q) :
    c ∈ s.queues q ∨ a = .push c ∧ ∃ since, (s.calls c).pc = .queuing q since := by
  cases h with
  | push c' q' since hpc =>
    by_cases hqq : q = q'
    · subst hqq
      simp only [update_self, mem_append, mem_singleton] at hc
      rcases hc with hc | rfl
      · exact .inl hc
      · exact .inr ⟨rfl, since, hpc⟩
    · simp only [update_of_ne hqq] at hc
      exact .inl hc
  | take p c' rest hpc hq =>
    by_cases hqq : q = (s.polls p).queue
    · subst hqq
      simp only [update_self] at hc
      rw [hq]
      exact .inl (mem_cons_of_mem c' hc)
    · simp only [update_of_ne hqq] at hc
      exact .inl hc
  | _ => exact .inl hc

theorem Stepped.held (h : Stepped s a t) {p : ℕ} (hc : (t.polls p).pc.task? = some c) :
    (t.polls p).agent = (s.polls p).agent ∧ ((s.polls p).pc.task? = some c ∨
        (s.polls p).pc = .selecting ∧ c ∈ s.queues (s.polls p).queue) := by
  have hm := h.poll_moved p
  generalize t.polls p = poll at hm hc ⊢
  cases hm with
  | same => exact ⟨rfl, .inl hc⟩
  | take c' rest hpc hq =>
    cases hc
    rw [hq]
    exact ⟨rfl, .inr ⟨hpc, mem_cons_self⟩⟩
  | respond c' hpc =>
    cases hc
    rw [hpc]
    exact ⟨rfl, .inl rfl⟩
  | disconnect hcon => exact ⟨rfl, .inl hc⟩
  | poll | respondEmpty | endPoll | deliver | lose => cases hc

theorem Stepped.mem_handouts (h : Stepped s a t) {x : Handout} (hx : x ∈ t.handouts) :
    x ∈ s.handouts ∨ ∃ p, (s.polls p).pc = .selecting ∧
      x.call ∈ s.queues (s.polls p).queue ∧ x.agent = (s.polls p).agent ∧
      x.late = (s.calls x.call).pc.hasReturned := by
  cases h with
  | take p c rest hpc hq =>
    rcases mem_cons.mp hx with rfl | hx
    · exact .inr ⟨p, hpc, by rw [hq]; exact mem_cons_self, rfl, rfl⟩
    · exact .inl hx
  | _ => exact .inl hx

theorem Stepped.mem_starts (h : Stepped s a t) {x : Handout} (hx : x ∈ t.starts) :
    x ∈ s.starts ∨ ∃ p, (s.polls p).pc.task? = some x.call ∧ x.agent = (s.polls p).agent ∧
      x.late = (s.calls x.call).pc.hasReturned := by
  cases h with
  | deliver p c hpc hcon =>
    rcases mem_cons.mp hx with rfl | hx
    · exact .inr ⟨p, by rw [hpc]; rfl, rfl, rfl⟩
    · exact .inl hx
  | _ => exact .inl hx

theorem Stepped.mem_executing (h : Stepped s a t) {agent : String} (hx : (agent, c) ∈ t.executing) :
    (agent, c) ∈ s.executing ∨ ∃ p, (s.polls p).pc.task? = some c ∧ agent = (s.polls p).agent := by
  cases h with
  | deliver p c' hpc hcon =>
    rcases mem_cons.mp hx with he | hx
    · obtain ⟨rfl, rfl⟩ := Prod.mk.inj he
      exact .inr ⟨p, by rw [hpc]; rfl, rfl⟩
    · exact .inl hx
  | postResult agent' c' err => exact .inl (mem_of_mem_erase hx)
  | _ => exact .inl hx

end Places

/-! ## A task stays with its agent -/

/-- Channel `q` was made for `agent`. -/
def Master.IsQueueOf (s : Master) (q : ℕ) (agent : String) : Prop :=
  q < s.queueCount ∧ s.queueAgent q = agent

/-- Call `c` was made for `agent` and has put its task into a queue. -/
def Master.IsTaskFor (s : Master) (c : ℕ) (agent : String) : Prop :=
  (s.calls c).agent = agent ∧ (s.calls c).pc.pushed = true

/-- Every channel, and every task wherever it is, belongs to one agent: the agent of the
call that submitted the task. -/
structure Owned (s : Master) : Prop where
  unborn : ∀ c, s.callCount ≤ c → (s.calls c).pc = .notCalled
  unpolled : ∀ p, s.pollCount ≤ p → (s.polls p).pc = .over
  current : ∀ agent q, s.agentQueues agent = some q → s.IsQueueOf q agent
  queuing : ∀ c q since, (s.calls c).pc = .queuing q since → s.IsQueueOf q (s.calls c).agent
  selecting : ∀ p, (s.polls p).pc = .selecting → s.IsQueueOf (s.polls p).queue (s.polls p).agent
  queued : ∀ q c, c ∈ s.queues q → ∃ agent, s.IsQueueOf q agent ∧ s.IsTaskFor c agent
  held : ∀ p c, (s.polls p).pc.task? = some c → s.IsTaskFor c (s.polls p).agent
  handed : ∀ x ∈ s.handouts, s.IsTaskFor x.call x.agent
  started : ∀ x ∈ s.starts, s.IsTaskFor x.call x.agent
  executed : ∀ agent c, (agent, c) ∈ s.executing → s.IsTaskFor c agent

theorem Owned.init : Owned Master.init where
  unborn _ _ := rfl
  unpolled _ _ := rfl
  current _ _ h := by cases h
  queuing _ _ _ h := by cases h
  selecting _ h := by cases h
  queued _ _ h := by cases h
  held _ _ h := by cases h
  handed _ h := by cases h
  started _ h := by cases h
  executed _ _ h := by cases h

section Owned

variable {s t : Master} {a : Action}

variable {agent : String} {c q : ℕ}

theorem Fetched.isQueueOf {n : ℕ} {f : ℕ → String} {m : String → Option ℕ}
    (h : Fetched s agent q n f m) {q' : ℕ} {agent' : String} (hq : s.IsQueueOf q' agent') :
    q' < n ∧ f q' = agent' := by
  obtain ⟨hlt, hag⟩ := hq
  cases h with
  | found q hq => exact ⟨hlt, hag⟩
  | made hq =>
    refine ⟨by omega, ?_⟩
    rw [update_of_ne (by omega)]
    exact hag

/-- Fetching a queue keeps the queue map right. -/
theorem Fetched.owned {n : ℕ} {f : ℕ → String} {m : String → Option ℕ}
    (h : Fetched s agent q n f m) (i : Owned s) (agent' : String) (q' : ℕ)
    (hq' : m agent' = some q') : q' < n ∧ f q' = agent' := by
  have hkeep : s.IsQueueOf q' agent' → q' < n ∧ f q' = agent' := h.isQueueOf
  cases h with
  | found q hq => exact i.current agent' q' hq'
  | made hq =>
    by_cases hag : agent' = agent
    · subst hag
      rw [update_self] at hq'
      cases hq'
      exact ⟨by omega, update_self ..⟩
    · rw [update_of_ne hag] at hq'
      exact hkeep (i.current agent' q' hq')

/-- A channel keeps its agent. -/
theorem Stepped.isQueueOf (h : Stepped s a t) (hq : s.IsQueueOf q agent) : t.IsQueueOf q agent := by
  cases h with
  | enqueue _ _ _ _ _ _ _ hf => exact hf.isQueueOf hq
  | poll _ _ _ _ _ _ hf => exact hf.isQueueOf hq
  | _ => exact hq

theorem Stepped.current (h : Stepped s a t) (i : Owned s) (agent : String) (q : ℕ)
    (hq : t.agentQueues agent = some q) : t.IsQueueOf q agent := by
  cases h with
  | enqueue _ _ _ _ _ _ _ hf => exact hf.owned i agent q hq
  | poll _ _ _ _ _ _ hf => exact hf.owned i agent q hq
  | cleanup agent' =>
    by_cases hag : agent = agent'
    · subst hag
      simp at hq
    · simp only [update_of_ne hag] at hq
      exact i.current agent q hq
  | _ => exact i.current agent q hq

theorem Owned.born (i : Owned s) (hc : s.IsTaskFor c agent) :
    c < s.callCount := by
  by_contra hge
  have hpushed := hc.2
  rw [i.unborn c (by omega)] at hpushed
  cases hpushed

/-- A submitted task keeps its agent. -/
theorem Stepped.isTaskFor (h : Stepped s a t) (i : Owned s)
    (hc : s.IsTaskFor c agent) : t.IsTaskFor c agent := by
  have hborn := i.born hc
  have hm := h.call_moved c
  unfold Master.IsTaskFor at hc ⊢
  generalize t.calls c = call at hm ⊢
  cases hm with
  | same => exact hc
  | enqueue => omega
  | push | leaveQueue | leaveWait | finish => exact ⟨hc.1, rfl⟩
  | resultSent => exact hc

theorem Stepped.unborn (h : Stepped s a t) (i : Owned s) (c : ℕ) (hc : t.callCount ≤ c) :
    (t.calls c).pc = .notCalled := by
  have hold := i.unborn c (h.counts.1.trans hc)
  have hm := h.call_moved c
  generalize t.calls c = call at hm ⊢
  cases hm with
  | same => exact hold
  | enqueue => omega
  | push _ _ hpc | leaveQueue _ _ _ _ hpc | leaveWait _ _ _ _ hpc | finish _ hpc =>
    rw [hold] at hpc
    cases hpc
  | resultSent => exact hold

theorem Stepped.unpolled (h : Stepped s a t) (i : Owned s) (p : ℕ) (hp : t.pollCount ≤ p) :
    (t.polls p).pc = .over := by
  have hold := i.unpolled p (h.counts.2.trans hp)
  have hm := h.poll_moved p
  generalize t.polls p = poll at hm ⊢
  cases hm with
  | same => exact hold
  | poll => omega
  | take _ _ hpc | respond _ hpc =>
    rw [hold] at hpc
    cases hpc
  | respondEmpty | endPoll | deliver | lose => rfl
  | disconnect => exact hold

theorem Stepped.queuing (h : Stepped s a t) (i : Owned s) (c q since : ℕ)
    (hpc : (t.calls c).pc = .queuing q since) : t.IsQueueOf q (t.calls c).agent := by
  have hm := h.call_moved c
  generalize t.calls c = call at hm hpc ⊢
  cases hm with
  | same => exact h.isQueueOf (i.queuing c q since hpc)
  | enqueue agent task ctx q' hc hlt hq =>
    cases hpc
    exact h.current i agent q hq
  | push | leaveQueue | leaveWait | finish => cases hpc
  | resultSent => exact h.isQueueOf (i.queuing c q since hpc)

theorem Stepped.selecting (h : Stepped s a t) (i : Owned s) (p : ℕ)
    (hpc : (t.polls p).pc = .selecting) : t.IsQueueOf (t.polls p).queue (t.polls p).agent := by
  have hm := h.poll_moved p
  generalize t.polls p = poll at hm hpc ⊢
  cases hm with
  | same => exact h.isQueueOf (i.selecting p hpc)
  | poll agent q hp hlt hq => exact h.current i agent q hq
  | disconnect => exact h.isQueueOf (i.selecting p hpc)
  | take | respond | respondEmpty | endPoll | deliver | lose => cases hpc

/-- A poll that is selecting finds only tasks of its own agent. -/
theorem Owned.at_poll (i : Owned s) {p : ℕ} (hpc : (s.polls p).pc = .selecting)
    (hc : c ∈ s.queues (s.polls p).queue) : s.IsTaskFor c (s.polls p).agent := by
  obtain ⟨agent, hq, hc⟩ := i.queued _ c hc
  have hp := i.selecting p hpc
  rw [← hp.2, hq.2]
  exact hc

/-- **Every step keeps every task with its agent.** -/
theorem Stepped.owned (h : Stepped s a t) (i : Owned s) : Owned t := by
  refine ⟨h.unborn i, h.unpolled i, h.current i, h.queuing i, h.selecting i, ?_, ?_, ?_, ?_, ?_⟩
  · intro q c hc
    rcases h.mem_queues hc with hc | ⟨rfl, since, hpc⟩
    · obtain ⟨agent, hq, hc⟩ := i.queued q c hc
      exact ⟨agent, h.isQueueOf hq, h.isTaskFor i hc⟩
    · refine ⟨(s.calls c).agent, h.isQueueOf (i.queuing c q since hpc), ?_⟩
      cases h with
      | push c' q' since' hpc' =>
        unfold Master.IsTaskFor
        simp only [update_self]
        exact ⟨rfl, rfl⟩
  · intro p c hc
    obtain ⟨hag, hc⟩ := h.held hc
    rw [hag]
    apply h.isTaskFor i
    rcases hc with hc | ⟨hpc, hc⟩
    · exact i.held p c hc
    · exact i.at_poll hpc hc
  · intro x hx
    apply h.isTaskFor i
    rcases h.mem_handouts hx with hx | ⟨p, hpc, hc, hag, -⟩
    · exact i.handed x hx
    · rw [hag]
      exact i.at_poll hpc hc
  · intro x hx
    apply h.isTaskFor i
    rcases h.mem_starts hx with hx | ⟨p, hc, hag, -⟩
    · exact i.started x hx
    · rw [hag]
      exact i.held p _ hc
  · intro agent c hx
    apply h.isTaskFor i
    rcases h.mem_executing hx with hx | ⟨p, hc, rfl⟩
    · exact i.executed agent c hx
    · exact i.held p c hc

end Owned

/-! ## A task is handed out once -/

/-- No task is in two places of the channels, or both there and handed out, or handed out
twice. -/
structure Once (s : Master) : Prop where
  nodup : ∀ q, (s.queues q).Nodup
  apart : ∀ q q' c, c ∈ s.queues q → c ∈ s.queues q' → q = q'
  ahead : ∀ q c, c ∈ s.queues q → ∀ x ∈ s.handouts, x.call ≠ c
  handed : (s.handouts.map Handout.call).Nodup

theorem Once.init : Once Master.init where
  nodup _ := nodup_nil
  apart _ _ _ h := by cases h
  ahead _ _ h := by cases h
  handed := nodup_nil

section Once

variable {s t : Master} {a : Action}

/-- What is not submitted yet is nowhere. -/
theorem Owned.not_submitted (i : Owned s) {c : ℕ} (hc : (s.calls c).pc.pushed = false) :
    (∀ q, c ∉ s.queues q) ∧ ∀ x ∈ s.handouts, x.call ≠ c := by
  constructor
  · intro q hq
    obtain ⟨agent, -, htask⟩ := i.queued q c hq
    rw [htask.2] at hc
    cases hc
  · intro x hx he
    have htask := i.handed x hx
    rw [he] at htask
    rw [htask.2] at hc
    cases hc

/-- Putting a task that is nowhere yet into a channel. -/
theorem Once.push (o : Once s) {c q : ℕ} (hnone : ∀ q, c ∉ s.queues q)
    (hhand : ∀ x ∈ s.handouts, x.call ≠ c) (ht : t.handouts = s.handouts)
    (hq : t.queues = update s.queues q (s.queues q ++ [c])) : Once t := by
  have hmem : ∀ q' c', c' ∈ t.queues q' → c' ∈ s.queues q' ∨ c' = c ∧ q' = q := by
    intro q' c' hc'
    rw [hq] at hc'
    by_cases hqq : q' = q
    · subst hqq
      rw [update_self, mem_append, mem_singleton] at hc'
      rcases hc' with hc' | hc'
      · exact .inl hc'
      · exact .inr ⟨hc', rfl⟩
    · rw [update_of_ne hqq] at hc'
      exact .inl hc'
  refine ⟨?_, ?_, ?_, ?_⟩
  · intro q'
    rw [hq]
    by_cases hqq : q' = q
    · subst hqq
      rw [update_self]
      exact List.Nodup.append (o.nodup q') (nodup_singleton c)
        (disjoint_singleton.mpr (hnone q'))
    · rw [update_of_ne hqq]
      exact o.nodup q'
  · intro q₁ q₂ c' h₁ h₂
    rcases hmem q₁ c' h₁ with h₁ | ⟨rfl, rfl⟩
    · rcases hmem q₂ c' h₂ with h₂ | ⟨rfl, rfl⟩
      · exact o.apart q₁ q₂ c' h₁ h₂
      · exact absurd h₁ (hnone q₁)
    · rcases hmem q₂ c' h₂ with h₂ | ⟨-, rfl⟩
      · exact absurd h₂ (hnone q₂)
      · rfl
  · intro q' c' hc'
    rw [ht]
    rcases hmem q' c' hc' with hc' | ⟨rfl, -⟩
    · exact o.ahead q' c' hc'
    · exact hhand
  · rw [ht]
    exact o.handed

/-- Handing out the head of a channel. -/
theorem Once.take (o : Once s) {q : ℕ} {x : Handout} {rest : List ℕ}
    (hq : s.queues q = x.call :: rest) (ht : t.handouts = x :: s.handouts)
    (hrest : t.queues = update s.queues q rest) : Once t := by
  have hhead : x.call ∈ s.queues q := by
    rw [hq]
    exact mem_cons_self
  have hnodup : x.call ∉ rest ∧ rest.Nodup := by
    have hall := o.nodup q
    rw [hq] at hall
    exact nodup_cons.mp hall
  have hmem : ∀ q' c', c' ∈ t.queues q' → c' ∈ s.queues q' ∧ c' ≠ x.call := by
    intro q' c' hc'
    rw [hrest] at hc'
    by_cases hqq : q' = q
    · subst hqq
      rw [update_self] at hc'
      refine ⟨by rw [hq]; exact mem_cons_of_mem _ hc', ?_⟩
      intro he
      exact hnodup.1 (he ▸ hc')
    · rw [update_of_ne hqq] at hc'
      refine ⟨hc', ?_⟩
      intro he
      exact hqq (o.apart q' q x.call (he ▸ hc') hhead)
  refine ⟨?_, ?_, ?_, ?_⟩
  · intro q'
    rw [hrest]
    by_cases hqq : q' = q
    · subst hqq
      rw [update_self]
      exact hnodup.2
    · rw [update_of_ne hqq]
      exact o.nodup q'
  · intro q₁ q₂ c' h₁ h₂
    exact o.apart q₁ q₂ c' (hmem q₁ c' h₁).1 (hmem q₂ c' h₂).1
  · intro q' c' hc' y hy
    rw [ht] at hy
    rcases mem_cons.mp hy with rfl | hy
    · exact (hmem q' c' hc').2.symm
    · exact o.ahead q' c' (hmem q' c' hc').1 y hy
  · rw [ht, map_cons, nodup_cons]
    refine ⟨?_, o.handed⟩
    intro hin
    obtain ⟨y, hy, he⟩ := mem_map.mp hin
    exact o.ahead q x.call hhead y hy he

/-- **Every step keeps every task unique.** -/
theorem Stepped.once (h : Stepped s a t) (i : Owned s) (o : Once s) : Once t := by
  cases h with
  | push c q since hpc =>
    obtain ⟨hnone, hhand⟩ := i.not_submitted (c := c) (by rw [hpc]; rfl)
    exact o.push hnone hhand rfl rfl
  | take p c rest hpc hq =>
    exact o.take (x := ⟨c, (s.polls p).agent, (s.calls c).pc.hasReturned⟩) hq rfl rfl
  | _ => exact ⟨o.nodup, o.apart, o.ahead, o.handed⟩

end Once

/-- **Whatever is interleaved**, every task stays with its agent and is handed out at most
once. -/
theorem run_owned_once {as : List Action} {t : Master}
    (h : run Master.step Master.init as = some t) : Owned t ∧ Once t := by
  have hstep : ∀ s a s', Owned s ∧ Once s → Master.step s a = some s' → Owned s' ∧ Once s' := by
    intro s a s' i hs
    have h := Master.stepped hs
    exact ⟨h.owned i.1, h.once i.1 i.2⟩
  exact run_inv_all hstep as ⟨Owned.init, Once.init⟩ h

end Robot.Mode
