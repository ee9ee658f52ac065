import Robot.Mode.TaskOwner

/-!
# A task has one result

What a task leaves behind it, from the queue to the result channel of its call: a poll that
holds it, the agent that executes it, the posted result, the result on its way into the channel,
the result in the channel. `TaskOwner` has shown that a task is handed out at most once. This
file follows it from there: it is held by one poll, it is started at most once (`Trail`), and of
the four later places it is never in two (`Master.results_step`): the results of a task, wherever
they are, are at most as many as its starts.

The last needs that a posted result finds the channel of its own call, which is a matter of task
keys. It is the hypothesis `FindsOwn` here.
-/

namespace Robot.Mode

open Robot.Lib List

/-- A call that still reads its result channel, or will. -/
def CallPc.isOpen : CallPc → Bool
  | .queuing _ _ | .waiting _ => true
  | .notCalled | .leaving _ | .returned _ => false

/-- How often the task of call `c` was started. -/
def Master.startsOf (s : Master) (c : ℕ) : ℕ := s.starts.countP fun x => x.call == c

/-- The result is in the channel, and the call will read it. -/
def Call.arrived (call : Call) : ℕ := if call.pc.isOpen && call.resultCh.isSome then 1 else 0

/-- The results of the task of call `c`: being computed, posted, on their way into the channel,
in the channel. -/
def Master.results (s : Master) (c : ℕ) : ℕ :=
  s.executing.countP (fun x => x.2 == c) + s.inFlight.countP (fun x => x.1 == c) +
    s.landing.countP (fun x => x.1 == c) + (s.calls c).arrived

/-! ## Held once, started once -/

/-- A task is held by one poll at most, is not started before that poll delivers it, and
nothing is held or started that was not handed out. -/
structure Trail (s : Master) : Prop where
  held : ∀ p p' c, (s.polls p).pc.task? = some c → (s.polls p').pc.task? = some c → p = p'
  unstarted : ∀ p c, (s.polls p).pc.task? = some c → s.startsOf c = 0
  started : ∀ c, s.startsOf c ≤ 1
  heldHanded : ∀ p c, (s.polls p).pc.task? = some c → ∃ x ∈ s.handouts, x.call = c
  startHanded : ∀ x ∈ s.starts, ∃ y ∈ s.handouts, y.call = x.call

theorem Trail.init : Trail Master.init where
  held _ _ _ h := by cases h
  unstarted _ _ h := by cases h
  started _ := Nat.zero_le 1
  heldHanded _ _ h := by cases h
  startHanded _ h := by cases h

section Trail

variable {s t : Master} {a : Action}

/-- Where a held task comes from: it was held by the same poll, or that poll has just received
it. -/
theorem Stepped.held_by (h : Stepped s a t) {p c : ℕ} (hc : (t.polls p).pc.task? = some c) :
    (s.polls p).pc.task? = some c ∨ a = .take p ∧ c ∈ s.queues (s.polls p).queue := by
  have hm := h.poll_moved p
  generalize t.polls p = poll at hm hc
  cases hm with
  | same | disconnect => exact .inl hc
  | poll | respondEmpty | endPoll | deliver | lose => cases hc
  | take c' rest hpc hq =>
    cases hc
    refine .inr ⟨rfl, ?_⟩
    rw [hq]
    exact mem_cons_self
  | respond c' hpc =>
    refine .inl ?_
    rw [hpc]
    exact hc

/-- A task in a queue is nowhere further on. -/
theorem Trail.queued (r : Trail s) (o : Once s) {q c : ℕ} (hc : c ∈ s.queues q) :
    (∀ p, (s.polls p).pc.task? ≠ some c) ∧ s.startsOf c = 0 := by
  refine ⟨?_, ?_⟩
  · intro p hp
    obtain ⟨x, hx, hcall⟩ := r.heldHanded p c hp
    exact o.ahead q c hc x hx hcall
  · refine countP_eq_zero.mpr ?_
    intro x hx hcall
    obtain ⟨y, hy, hyx⟩ := r.startHanded x hx
    exact o.ahead q c hc y hy (hyx.trans (beq_iff_eq.mp hcall))

/-- The starts after a step: one more if a response is delivered. -/
theorem Stepped.startsOf (h : Stepped s a t) (c : ℕ) :
    t.startsOf c = s.startsOf c ∨
      ∃ p, a = .deliver p ∧ (s.polls p).pc.task? = some c ∧ (t.polls p).pc = .over ∧
        t.startsOf c = s.startsOf c + 1 := by
  cases h with
  | deliver p c' hpc hcon =>
    by_cases hc : c' = c
    · subst hc
      refine .inr ⟨p, rfl, by rw [hpc]; rfl, by simp [Poll.at], ?_⟩
      exact countP_cons_of_pos (beq_self_eq_true c')
    · exact .inl (countP_cons_of_neg fun he => hc (beq_iff_eq.mp he))
  | _ => exact .inl rfl

theorem Stepped.handouts_mono (h : Stepped s a t) {x : Handout} (hx : x ∈ s.handouts) :
    x ∈ t.handouts := by
  cases h with
  | take => exact mem_cons_of_mem _ hx
  | _ => exact hx

/-- A poll that receives a task records it. -/
theorem Stepped.take_handed {p c : ℕ} (h : Stepped s (.take p) t)
    (hc : (t.polls p).pc.task? = some c) : ∃ x ∈ t.handouts, x.call = c := by
  cases h with
  | take _ c' rest hpc hq =>
    simp only [Function.update_self] at hc
    cases hc
    exact ⟨_, mem_cons_self, rfl⟩

/-- **One step** keeps every task on one trail. -/
theorem Stepped.trail (h : Stepped s a t) (o : Once s) (r : Trail s) : Trail t := by
  refine ⟨?_, ?_, ?_, ?_, ?_⟩
  · intro p p' c hp hp'
    rcases h.held_by hp with hs | ⟨ha, hq⟩
    · rcases h.held_by hp' with hs' | ⟨-, hq'⟩
      · exact r.held p p' c hs hs'
      · exact absurd hs ((r.queued o hq').1 p)
    · rcases h.held_by hp' with hs' | ⟨ha', -⟩
      · exact absurd hs' ((r.queued o hq).1 p')
      · rw [ha] at ha'
        cases ha'
        rfl
  · intro p c hp
    have hbefore : s.startsOf c = 0 := by
      rcases h.held_by hp with hs | ⟨-, hq⟩
      · exact r.unstarted p c hs
      · exact (r.queued o hq).2
    rcases h.startsOf c with hsame | ⟨p', rfl, hp', hover, -⟩
    · rw [hsame, hbefore]
    · -- the delivering poll was the only one that held the task
      rcases h.held_by hp with hs | ⟨ha, -⟩
      · rw [r.held p p' c hs hp', hover] at hp
        cases hp
      · cases ha
  · intro c
    rcases h.startsOf c with hsame | ⟨p, -, hp, -, hone⟩
    · rw [hsame]
      exact r.started c
    · rw [hone, r.unstarted p c hp]
  · intro p c hp
    rcases h.held_by hp with hs | ⟨rfl, -⟩
    · obtain ⟨x, hx, hcall⟩ := r.heldHanded p c hs
      exact ⟨x, h.handouts_mono hx, hcall⟩
    · exact h.take_handed hp
  · intro x hx
    rcases h.mem_starts hx with hs | ⟨p, hp, -, -⟩
    · obtain ⟨y, hy, hcall⟩ := r.startHanded x hs
      exact ⟨y, h.handouts_mono hy, hcall⟩
    · obtain ⟨y, hy, hcall⟩ := r.heldHanded p x.call hp
      exact ⟨y, h.handouts_mono hy, hcall⟩

end Trail

/-! ## One result -/

/-- A posted result whose key is looked up finds the channel of its own call. -/
def FindsOwn (s : Master) (a : Action) : Prop :=
  ∀ c err d, a = .handleAgentResult c err → s.taskResults (s.calls c).task.taskKey = some d → d = c

section Results

variable {s t : Master} {a : Action}

theorem Master.inFlight_of_step {c : ℕ} {err : String}
    (h : s.step (.handleAgentResult c err) = some t) : (c, err) ∈ s.inFlight := by
  simp only [Master.step] at h
  split at h
  · next hin => exact hin
  · cases h

theorem Master.landing_of_step {d : ℕ} {err : String}
    (h : s.step (.sendResult d err) = some t) : (d, err) ∈ s.landing := by
  simp only [Master.step] at h
  split at h
  · next hin => exact hin
  · cases h

/-- Only a send into the channel of a call makes its result arrive. -/
theorem Stepped.arrived_le (h : Stepped s a t) (c : ℕ) (hne : ∀ err, a ≠ .sendResult c err) :
    (t.calls c).arrived ≤ (s.calls c).arrived := by
  have hm := h.call_moved c
  generalize t.calls c = call at hm
  cases hm with
  | same => exact Nat.le_refl _
  | enqueue | leaveQueue | leaveWait | finish => exact Nat.zero_le _
  | push q since hpc =>
    refine Nat.le_of_eq ?_
    unfold Call.arrived Call.at
    rw [hpc]
    rfl
  | resultSent err => exact absurd rfl (hne err)

theorem Call.arrived_le_one (call : Call) : call.arrived ≤ 1 := by
  unfold Call.arrived
  split
  · exact Nat.le_refl 1
  · exact Nat.zero_le 1

/-- Taking a listed item out. -/
theorem countP_erase_add {α : Type} [BEq α] [LawfulBEq α] (p : α → Bool) {l : List α} {x : α}
    (hx : x ∈ l) : (l.erase x).countP p + (if p x = true then 1 else 0) = l.countP p := by
  by_cases hp : p x = true
  · have hpos : 0 < l.countP p := countP_pos_iff.mpr ⟨x, hx, hp⟩
    rw [countP_erase, if_pos ⟨hx, hp⟩, if_pos hp]
    omega
  · rw [countP_erase, if_neg fun h => hp h.2, if_neg hp]
    omega

/-- **One step**: results are made by starts and by nothing else. -/
theorem Master.results_step (h : s.step a = some t) (hown : FindsOwn s a) (c : ℕ)
    (hs : s.results c ≤ s.startsOf c) : t.results c ≤ t.startsOf c := by
  have hstepped := Master.stepped h
  have harrived := hstepped.arrived_le c
  unfold Master.results Master.startsOf at *
  cases hstepped with
  | deliver p c' hpc hcon =>
    have hle := harrived nofun
    simp only [countP_cons] at *
    omega
  | postResult agent c' err hx =>
    have hle := harrived nofun
    have hexec := countP_erase_add (fun x : String × ℕ => x.2 == c) hx
    simp only [countP_cons] at *
    omega
  | resultDropped c' err hkey =>
    have hle := harrived nofun
    have hflight := countP_erase_add (fun x : ℕ × String => x.1 == c) (inFlight_of_step h)
    simp only at *
    omega
  | resultFound c' d err hkey =>
    have hle := harrived nofun
    have hd : d = c' := hown c' err d rfl hkey
    subst hd
    have hflight := countP_erase_add (fun x : ℕ × String => x.1 == c) (inFlight_of_step h)
    simp only [countP_cons] at *
    omega
  | resultSent d err hch =>
    have hland := countP_erase_add (fun x : ℕ × String => x.1 == c) (landing_of_step h)
    by_cases hd : d = c
    · -- the channel was empty, so nothing had arrived
      subst hd
      have hnone : (s.calls d).arrived = 0 := by simp [Call.arrived, hch]
      have hone := Call.arrived_le_one { s.calls d with resultCh := some err }
      simp only [Function.update_self, beq_self_eq_true, if_true] at *
      omega
    · have hle := harrived fun err' he => hd (by cases he; rfl)
      simp only at *
      omega
  | resultFull d err old hch =>
    have hland := countP_erase_add (fun x : ℕ × String => x.1 == c) (landing_of_step h)
    simp only at *
    omega
  | _ => exact Nat.le_trans (Nat.add_le_add_left (harrived nofun) _) hs

end Results

end Robot.Mode
