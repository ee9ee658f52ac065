import Robot.Data.SendReq

/-!
# A response reaches the request it answers

When does `SendReq` return the response that carries its own sequence? The matching is
spread over the ring slot, the mutable `AwaitData` and a one-slot channel that outlives
the request, so the question is what is left on the task object when a request starts.

`CleanStart` is that condition, on the state before a `SetAwaitData`: no other request
is waiting on the object, its channel holds no response, and the receive loop is not
between the test and the send of a `Resume` for it. Under it, everything the channel can
receive while the request waits was unpacked under the request's sequence (`Matched`),
because `AwaitData` names that sequence or nothing until the request is over.

Without it the code does deliver a stale response: `staleTrace` kills a task whose
response is already being resumed, recycles the object, and lets the next request take
the old response.
-/

namespace Robot.Data

open Robot.Base Robot.Lib Function List

variable {ρ : Type}

/-- Program points at which a request is waiting on its task object: `AwaitData` has been
set and the channel has not been read. -/
def SendPc.waiting : SendPc ρ → Bool
  | .store | .write | .writeErrClear _ | .writeErrDelete _ | .yield | .guard | .recv => true
  | _ => false

/-- Program points that only a request asking for a response reaches. -/
def SendPc.asks : SendPc ρ → Bool
  | .setAwait | .store | .writeErrClear _ | .writeErrDelete _ | .yield | .guard | .recv => true
  | _ => false

/-- The response a call has in hand or has returned. -/
def SendPc.carried : SendPc ρ → Option ρ
  | .clear (.data d) | .after (.data d) | .done (.ok (some d)) => some d
  | _ => none

/-- The call waits for a response on its task object. -/
def SendCall.active (c : SendCall ρ) : Prop := c.needRsp = true ∧ c.pc.waiting = true

open RpcState

/-! ## The invariant -/

/-- What holds while every request starts clean, for any fact `Q s d` about the messages the
receive loop hands on: it holds of every response on its way to a request, paired with
that request's own sequence. -/
structure Matched (Q : UInt64 → ρ → Prop) (st : RpcState ρ) : Prop where
  needs : ∀ i, (st.calls i).pc.asks = true → (st.calls i).needRsp = true
  await : ∀ i, (st.calls i).active →
    (st.taskOf i).awaitData = ⟨.rpc, (st.calls i).sequence⟩ ∨ (st.taskOf i).awaitData = .zero
  alone : ∀ i j, (st.calls i).active → (st.calls j).active →
    (st.calls i).task = (st.calls j).task → i = j
  queued : ∀ i d, (st.calls i).active → .data d ∈ (st.taskOf i).items →
    Q (st.calls i).sequence d
  pushing : ∀ i s d, (st.calls i).active → st.recv = .push (st.calls i).task s d →
    s = (st.calls i).sequence
  heard : ∀ t s d, st.recv = .check t s d ∨ st.recv = .push t s d → Q s d
  taken : ∀ i d, (st.calls i).pc.carried = some d → Q (st.calls i).sequence d

variable {Q : UInt64 → ρ → Prop}

variable {st st' : RpcState ρ} {s : UInt64} {d : ρ} {a : RpcAct ρ}

theorem Matched.mono {Q' : UInt64 → ρ → Prop} (h : Matched Q st)
    (hQ : ∀ s d, Q s d → Q' s d) : Matched Q' st :=
  ⟨h.needs, h.await, h.alone, fun i d hi hd => hQ _ _ (h.queued i d hi hd), h.pushing,
    fun t s d hr => hQ _ _ (h.heard t s d hr), fun i d hd => hQ _ _ (h.taken i d hd)⟩

/-- `Matched` reads the calls, the tasks and the receive loop, nothing else. -/
theorem Matched.congr (h : Matched Q st) (hc : st'.calls = st.calls)
    (ht : st'.tasks = st.tasks) (hr : st'.recv = st.recv) : Matched Q st' := by
  obtain ⟨h1, h2, h3, h4, h5, h6, h7⟩ := h
  unfold taskOf at h2 h4
  refine ⟨?_, ?_, ?_, ?_, ?_, ?_, ?_⟩
  · rw [hc]; exact h1
  · unfold taskOf; rw [hc, ht]; exact h2
  · rw [hc]; exact h3
  · unfold taskOf; rw [hc, ht]; exact h4
  · rw [hc, hr]; exact h5
  · rw [hr]; exact h6
  · rw [hc]; exact h7

/-- Moving a call on: no request becomes active by it, and a response it now carries
was unpacked for it. -/
theorem Matched.setPc (h : Matched Q st) (i : Nat) (pc : SendPc ρ)
    (hneeds : pc.asks = true → (st.calls i).needRsp = true)
    (hact : (st.calls i).needRsp = true → pc.waiting = true → (st.calls i).pc.waiting = true)
    (hcarry : ∀ d, pc.carried = some d → Q (st.calls i).sequence d) :
    Matched Q (st.setPc i pc) := by
  have hback : ∀ j, ((st.setPc i pc).calls j).active → (st.calls j).active := by
    intro j hj
    obtain ⟨hn, hw⟩ := hj
    rw [setPc_needRsp] at hn
    rw [setPc_pc] at hw
    split at hw
    next he => subst he; exact ⟨hn, hact hn hw⟩
    next => exact ⟨hn, hw⟩
  refine ⟨?_, ?_, ?_, ?_, ?_, h.heard, ?_⟩
  · intro j hj
    rw [setPc_pc] at hj
    rw [setPc_needRsp]
    split at hj
    next he => subst he; exact hneeds hj
    next => exact h.needs j hj
  · intro j hj
    have := h.await j (hback j hj)
    unfold taskOf at this ⊢
    rw [setPc_task, setPc_sequence]
    exact this
  · intro j k hj hk hjk
    rw [setPc_task, setPc_task] at hjk
    exact h.alone j k (hback j hj) (hback k hk) hjk
  · intro j d hj hd
    unfold taskOf at hd
    rw [setPc_task] at hd
    rw [setPc_sequence]
    exact h.queued j d (hback j hj) hd
  · intro j s d hj hr
    rw [setPc_task] at hr
    rw [setPc_sequence]
    exact h.pushing j s d (hback j hj) hr
  · intro j d hd
    rw [setPc_pc] at hd
    rw [setPc_sequence]
    split at hd
    next he => subst he; exact hcarry d hd
    next => exact h.taken j d hd

/-- Touching a task object: no response appears in its channel, and `AwaitData` stays
or is cleared. -/
theorem Matched.setTask (h : Matched Q st) (t : Nat) (x : TaskActionBase ρ)
    (hitems : ∀ d, .data d ∈ x.items → .data d ∈ (st.tasks t).items)
    (hawait : x.awaitData = (st.tasks t).awaitData ∨ x.awaitData = .zero) :
    Matched Q (st.setTask t x) := by
  refine ⟨h.needs, ?_, h.alone, ?_, h.pushing, h.heard, h.taken⟩
  · intro i hi
    have hold := h.await i hi
    unfold taskOf at hold ⊢
    rw [setTask_tasks]
    split
    next he =>
      rw [setTask_calls] at he
      rw [he] at hold
      rcases hawait with hsame | hzero
      · rw [hsame]; exact hold
      · exact Or.inr hzero
    next => exact hold
  · intro i d hi hd
    unfold taskOf at hd
    rw [setTask_tasks] at hd
    refine h.queued i d hi ?_
    unfold taskOf
    split at hd
    next he => rw [setTask_calls] at he; rw [he]; exact hitems d hd
    next => exact hd

/-! ## Clean starts -/

/-- Nothing is left on task object `t`: no request waits on it, no response sits in its
channel, and no `Resume` for it is past its test. -/
def Clean (st : RpcState ρ) (t : Nat) : Prop :=
  (∀ j, (st.calls j).active → (st.calls j).task ≠ t) ∧
  (∀ d, .data d ∉ (st.tasks t).items) ∧
  (∀ s d, st.recv ≠ .push t s d)

/-- The condition on a step: a request sets its `AwaitData` on a clean object. -/
def CleanStart (st : RpcState ρ) : RpcAct ρ → Prop
  | .setAwait i => Clean st (st.calls i).task
  | _ => True

/-! ## One step -/

/-- A new call: it is not waiting yet and carries nothing. -/
theorem Matched.start (h : Matched Q st) (i t : Nat) (s : UInt64) (n : Bool)
    (used : List UInt64) :
    Matched Q { st with calls := update st.calls i ⟨t, s, n, .entry⟩, used := used } := by
  have hold : ∀ j, (update st.calls i ⟨t, s, n, .entry⟩ j).active →
      j ≠ i ∧ (st.calls j).active := by
    intro j hj
    by_cases he : j = i
    · subst he
      simp [SendCall.active, SendPc.waiting] at hj
    · rw [update_of_ne he] at hj
      exact ⟨he, hj⟩
  refine ⟨?_, ?_, ?_, ?_, ?_, h.heard, ?_⟩
  · intro j hj
    by_cases he : j = i
    · subst he
      simp [SendPc.asks] at hj
    · simp only [update_of_ne he] at hj ⊢
      exact h.needs j hj
  · intro j hj
    obtain ⟨he, hact⟩ := hold j hj
    simp only [taskOf, update_of_ne he]
    exact h.await j hact
  · intro j k hj hk hjk
    obtain ⟨hej, hactj⟩ := hold j hj
    obtain ⟨hek, hactk⟩ := hold k hk
    simp only [update_of_ne hej, update_of_ne hek] at hjk
    exact h.alone j k hactj hactk hjk
  · intro j d hj hd
    obtain ⟨he, hact⟩ := hold j hj
    simp only [taskOf, update_of_ne he] at hd ⊢
    exact h.queued j d hact hd
  · intro j s' d hj hr
    obtain ⟨he, hact⟩ := hold j hj
    simp only [update_of_ne he] at hr ⊢
    exact h.pushing j s' d hact hr
  · intro j d hd
    by_cases he : j = i
    · subst he
      simp [SendPc.carried] at hd
    · simp only [update_of_ne he] at hd ⊢
      exact h.taken j d hd

/-- `SetAwaitData` on a clean object: the only step by which a request becomes active. -/
theorem Matched.setAwait (h : Matched Q st) (i : Nat)
    (hpc : (st.calls i).pc = .setAwait) (hclean : Clean st (st.calls i).task) :
    Matched Q ((st.setTask (st.calls i).task
      ((st.taskOf i).setAwaitData ⟨.rpc, (st.calls i).sequence⟩)).setPc i .store) := by
  obtain ⟨hother, hchan, hpush⟩ := hclean
  -- any other active request was active before, so it is on another object
  have hold : ∀ j, j ≠ i →
      (((st.setTask (st.calls i).task
        ((st.taskOf i).setAwaitData ⟨.rpc, (st.calls i).sequence⟩)).setPc i .store).calls j).active →
      (st.calls j).active ∧ (st.calls j).task ≠ (st.calls i).task := by
    intro j hne hj
    have hact : (st.calls j).active := by
      obtain ⟨hn, hw⟩ := hj
      rw [setPc_needRsp] at hn
      rw [setPc_pc, if_neg hne] at hw
      exact ⟨hn, hw⟩
    exact ⟨hact, hother j hact⟩
  refine ⟨?_, ?_, ?_, ?_, ?_, h.heard, ?_⟩
  · intro j hj
    rw [setPc_pc] at hj
    rw [setPc_needRsp]
    split at hj
    next he =>
      subst he
      refine h.needs j ?_
      rw [hpc]
      rfl
    next => exact h.needs j hj
  · intro j hj
    unfold taskOf
    rw [setPc_tasks, setPc_task, setPc_sequence, setTask_calls, setTask_tasks]
    by_cases he : j = i
    · subst he
      rw [if_pos rfl]
      exact Or.inl rfl
    · obtain ⟨hact, hne⟩ := hold j he hj
      rw [if_neg hne]
      exact h.await j hact
  · intro j k hj hk hjk
    rw [setPc_task, setPc_task, setTask_calls] at hjk
    by_cases hej : j = i
    · by_cases hek : k = i
      · rw [hej, hek]
      · exact absurd (hej ▸ hjk.symm) (hold k hek hk).2
    · by_cases hek : k = i
      · exact absurd (hek ▸ hjk) (hold j hej hj).2
      · exact h.alone j k (hold j hej hj).1 (hold k hek hk).1 hjk
  · intro j d hj hd
    unfold taskOf at hd
    rw [setPc_tasks, setPc_task, setTask_calls, setTask_tasks] at hd
    rw [setPc_sequence]
    by_cases he : j = i
    · subst he
      rw [if_pos rfl] at hd
      exact absurd hd (hchan d)
    · obtain ⟨hact, hne⟩ := hold j he hj
      rw [if_neg hne] at hd
      exact h.queued j d hact hd
  · intro j s d hj hr
    rw [setPc_task, setTask_calls] at hr
    rw [setPc_sequence]
    by_cases he : j = i
    · subst he
      exact absurd hr (hpush s d)
    · exact h.pushing j s d (hold j he hj).1 hr
  · intro j d hd
    rw [setPc_pc] at hd
    rw [setPc_sequence]
    split at hd
    next => simp [SendPc.carried] at hd
    next => exact h.taken j d hd

/-- `Resume` puts the response into the channel of the request it was unpacked for. -/
theorem Matched.resumePush (h : Matched Q st) {t : Nat}
    {x : TaskActionBase ρ} (hr : st.recv = .push t s d)
    (hx : (st.tasks t).send (.data d) = some x) :
    Matched Q { st.setTask t x with recv := .idle } := by
  obtain ⟨-, hitems, hawait⟩ := TaskActionBase.send_eq hx
  refine ⟨h.needs, ?_, h.alone, ?_, ?_, ?_, h.taken⟩
  · intro i hi
    have hold := h.await i hi
    show ((st.setTask t x).tasks (st.calls i).task).awaitData = ⟨.rpc, (st.calls i).sequence⟩ ∨
      ((st.setTask t x).tasks (st.calls i).task).awaitData = .zero
    unfold taskOf at hold
    rw [setTask_tasks]
    split
    next he => rw [hawait, ← he]; exact hold
    next => exact hold
  · intro i d' hi hd
    change _ ∈ ((st.setTask t x).tasks (st.calls i).task).items at hd
    rw [setTask_tasks] at hd
    split at hd
    next he =>
      rw [hitems, mem_singleton, TaskActionResumeData.data.injEq] at hd
      subst hd
      have hs := h.pushing i s d' hi (he ▸ hr)
      exact hs ▸ h.heard t s d' (Or.inr hr)
    next => exact h.queued i d' hi hd
  · intro i s' d' _ hr'
    simp at hr'
  · intro t' s' d' hr'
    simp at hr'

/-- The receive loop takes up a message for which `Q` holds, or drops one. -/
theorem Matched.unpack (h : Matched Q st) (s : UInt64) (d : ρ)
    (ring : RPCRingBuffer Nat) (rx : RecvPc ρ) (unpacked : List (UInt64 × ρ))
    (hrx : rx = .idle ∨ (Q s d ∧ ∃ t, rx = .check t s d)) :
    Matched Q { st with rpcAwaitTask := ring, recv := rx, unpacked := unpacked } := by
  refine ⟨h.needs, h.await, h.alone, h.queued, ?_, ?_, h.taken⟩
  · intro i s' d' _ hr
    rcases hrx with hidle | ⟨-, t, hcheck⟩
    · simp [hidle] at hr
    · simp [hcheck] at hr
  · intro t' s' d' hr
    rcases hrx with hidle | ⟨hq, t, hcheck⟩
    · simp [hidle] at hr
    · simp only [hcheck, RecvPc.check.injEq, reduceCtorEq, or_false] at hr
      obtain ⟨-, hs, hd⟩ := hr
      exact hs ▸ hd ▸ hq

/-- The test of `Resume`: what gets past it is the sequence the object waits for. -/
theorem Matched.resumeCheck (h : Matched Q st) {t : Nat}
    (hr : st.recv = .check t s d) (ha : (st.tasks t).awaitData = ⟨.rpc, s⟩) :
    Matched Q { st with recv := .push t s d } := by
  refine ⟨h.needs, h.await, h.alone, h.queued, ?_, ?_, h.taken⟩
  · intro i s' d' hi hr'
    simp only [RecvPc.push.injEq] at hr'
    obtain ⟨ht, hs, -⟩ := hr'
    have hold := h.await i hi
    unfold taskOf at hold
    rw [← ht, ha] at hold
    simp only [TaskActionAwaitData.mk.injEq, true_and, TaskActionAwaitData.zero,
      reduceCtorEq, false_and, or_false] at hold
    exact hs ▸ hold
  · intro t' s' d' hr'
    simp only [reduceCtorEq, RecvPc.push.injEq, false_or] at hr'
    obtain ⟨-, hs, hd⟩ := hr'
    exact hs ▸ hd ▸ h.heard t s d (Or.inl hr)

/-- The receive loop gives up on the message in hand. -/
theorem Matched.resumeNo (h : Matched Q st) : Matched Q { st with recv := .idle } := by
  refine ⟨h.needs, h.await, h.alone, h.queued, ?_, ?_, h.taken⟩
  · intro i s d _ hr
    simp at hr
  · intro t s d hr
    simp at hr

/-- A waiting request stays waiting. -/
theorem Matched.waits (h : Matched Q st) (i : Nat) (pc : SendPc ρ)
    (hn : (st.calls i).needRsp = true) (hw : (st.calls i).pc.waiting = true)
    (hc : pc.carried = none) : Matched Q (st.setPc i pc) :=
  h.setPc i pc (fun _ => hn) (fun _ _ => hw) (fun d hd => by rw [hc] at hd; simp at hd)

/-- A call returns; a response it returns is one it carried. -/
theorem Matched.returns (h : Matched Q st) (i : Nat) (r : Except String (Option ρ))
    (hr : ∀ d, r = .ok (some d) → Q (st.calls i).sequence d) :
    Matched Q (st.setPc i (.done r)) := by
  refine h.setPc i _ (by simp [SendPc.asks]) (by simp [SendPc.waiting]) ?_
  intro d hd
  refine hr d ?_
  unfold SendPc.carried at hd
  split at hd <;> simp_all

theorem Matched.fails (h : Matched Q st) (i : Nat) (e : String) :
    Matched Q (st.setPc i (.done (.error e))) := h.returns i _ (by simp)

/-- **One step keeps the matching**, if a request that starts in it starts clean and `Q`
holds of a message that finds its sequence in the ring. -/
theorem Matched.step (h : Matched Q st)
    (hclean : CleanStart st a) (hstep : st.step a = some st')
    (hQ : ∀ s d t ring, a = .unpack s d →
      st.rpcAwaitTask.loadAndDelete s = ((some t, true), ring) → Q s d) : Matched Q st' := by
  cases step_cases hstep with
  | start hpc hs => exact h.start _ _ _ _ _
  | entryErr hpc => exact h.fails _ _
  | entryAsk hpc hn =>
    exact h.setPc _ .setAwait (fun _ => hn) (by simp [SendPc.waiting]) (by simp [SendPc.carried])
  | entryTell hpc hn =>
    exact h.setPc _ .write (by simp [SendPc.asks]) (by simp [hn]) (by simp [SendPc.carried])
  | setAwait hpc => exact h.setAwait _ hpc hclean
  | store hpc hring =>
    exact (h.waits _ .write (h.needs _ (by rw [hpc]; rfl)) (by rw [hpc]; rfl) rfl).congr
      rfl rfl rfl
  | writeErrAsk hpc hn => exact h.waits _ _ hn (by rw [hpc]; rfl) rfl
  | writeErrTell hpc hn => exact h.fails _ _
  | writeAsk hpc hn => exact h.waits _ _ hn (by rw [hpc]; rfl) rfl
  | writeTell hpc hn => exact h.returns _ _ (by simp)
  | writeErrClear hpc hx =>
    refine (h.setTask _ _ ?_ ?_).waits _ _ (h.needs _ (by rw [hpc]; rfl))
      (by rw [setTask_calls, hpc]; rfl) rfl
    · intro d hd
      rcases hx with hx | hx <;> (rw [hx] at hd; exact hd)
    · rcases hx with hx | hx
      · exact Or.inr (by rw [hx]; rfl)
      · exact Or.inl (by rw [hx]; rfl)
  | @writeErrDelete i e hpc => exact (h.fails i e).congr rfl rfl rfl
  | yieldFail hpc hfail => exact h.fails _ _
  | yieldOk hpc => exact h.waits _ _ (h.needs _ (by rw [hpc]; rfl)) (by rw [hpc]; rfl) rfl
  | guardFail hpc hfail => exact h.fails _ _
  | guardOk hpc => exact h.waits _ _ (h.needs _ (by rw [hpc]; rfl)) (by rw [hpc]; rfl) rfl
  | @recv i item x hpc hx =>
    obtain ⟨hitems, hawait⟩ := TaskActionBase.receive_eq hx
    refine (h.setTask _ _ ?_ (Or.inl hawait)).setPc _ (.clear item) (by simp [SendPc.asks])
      (by simp [SendPc.waiting]) ?_
    · intro d hd
      show .data d ∈ (st.taskOf i).items
      rw [hitems]
      exact mem_cons_of_mem _ hd
    · -- the item taken is a response only if one was queued for this request
      intro d hd
      refine h.queued i d ⟨h.needs i (by rw [hpc]; rfl), by rw [hpc]; rfl⟩ ?_
      rw [hitems]
      cases item with
      | err e => simp [SendPc.carried] at hd
      | data d' => exact mem_cons.mpr (Or.inl (by simpa [SendPc.carried] using hd.symm))
  | @clear i r hpc =>
    refine (h.setTask _ (st.taskOf i).clearAwaitData (fun d hd => hd) (Or.inr rfl)).setPc _
      (.after r) (by simp [SendPc.asks]) (by simp [SendPc.waiting]) ?_
    intro d hd
    refine h.taken i d ?_
    rw [hpc]
    cases r with
    | err e => simp [SendPc.carried] at hd
    | data d' => exact hd
  | afterErr hpc => exact h.fails _ _
  | @afterOk i r hpc =>
    refine h.returns i _ ?_
    intro d hd
    refine h.taken i d ?_
    rw [hpc]
    cases r with
    | err e => simp [yielded] at hd
    | data d' => simpa [yielded, SendPc.carried] using hd
  | @unpackHit s d t ring hr hring => exact h.unpack s d ring _ _ (Or.inr ⟨hQ s d t ring rfl hring, t, rfl⟩)
  | @unpackMiss s d ring res hr hring => exact h.unpack s d ring st.recv _ (Or.inl hr)
  | resumeYes hr ha => exact h.resumeCheck hr ha
  | resumeNo hr => exact h.resumeNo
  | resumePush hr hx => exact h.resumePush hr hx
  | killMiss => exact h
  | killBegin hx =>
    obtain ⟨hitems, hawait⟩ := TaskActionBase.beginKill_eq hx
    exact (h.setTask _ _ (fun d hd => hitems ▸ hd) (Or.inl hawait)).congr rfl rfl rfl
  | killPushes => exact h.congr rfl rfl rfl
  | @killFinish k t =>
    exact (h.setTask t (st.tasks t).finish (by simp) (by simp)).congr rfl rfl rfl
  | killPush hx =>
    -- an error goes into the channel, never a response
    obtain ⟨-, hitems, hawait⟩ := TaskActionBase.send_eq hx
    exact (h.setTask _ _ (by simp [hitems]) (Or.inl hawait)).congr rfl rfl rfl
  | @finish t => exact h.setTask t _ (by simp) (by simp)
  | @resetForReuse t =>
    refine h.setTask t _ (fun d hd => ?_) (Or.inr rfl)
    rw [TaskActionBase.resetForReuse_items] at hd
    exact mem_of_mem_drop hd
  | @initTaskId t => exact h.setTask t _ (fun _ hd => hd) (Or.inl rfl)

theorem matched_init : Matched Q (rpcInit ρ) := by
  refine ⟨?_, ?_, ?_, ?_, ?_, ?_, ?_⟩ <;>
    simp [rpcInit, SendCall.active, SendPc.waiting, SendPc.asks, SendPc.carried]

/-! ## The result -/

/-- The log of the receive loop only grows. -/
theorem unpacked_mono (hstep : st.step a = some st')
      (h : (s, d) ∈ st.unpacked) : (s, d) ∈ st'.unpacked := by
  cases step_cases hstep <;> first | exact h | exact mem_cons_of_mem _ h

/-- A message taken up is in the log. -/
theorem unpack_logged
    (hstep : st.step (.unpack s d) = some st') : (s, d) ∈ st'.unpacked := by
  cases step_cases hstep <;> exact mem_cons_self

/-- Every response on its way is in the log under the sequence of the request it goes to. -/
def Logged (st : RpcState ρ) : Prop := Matched (fun s d => (s, d) ∈ st.unpacked) st

theorem Logged.step (h : Logged st)
    (hclean : CleanStart st a) (hstep : st.step a = some st') : Logged st' := by
  have hlog : Matched (fun s d => (s, d) ∈ st'.unpacked) st :=
    h.mono fun s d => unpacked_mono hstep
  refine hlog.step hclean hstep ?_
  intro s d t ring ha _
  subst ha
  exact unpack_logged hstep

/-- **A response answers its own request.** In every interleaving in which each request
sets its `AwaitData` on a clean task object, whatever `SendReq` returns without an error
was unpacked by the receive loop under the sequence of that call. -/
theorem sendReq_returns_own_response (acts : List (RpcAct ρ)) (st : RpcState ρ)
    (hclean : Along RpcState.step CleanStart (rpcInit ρ) acts)
    (hrun : run RpcState.step (rpcInit ρ) acts = some st) (i : Nat) (d : ρ)
    (hdone : (st.calls i).pc = .done (.ok (some d))) :
    ((st.calls i).sequence, d) ∈ st.unpacked := by
  have hm : Logged st :=
    run_inv (fun _ _ _ hs hp ha => hs.step hp ha) acts matched_init hclean hrun
  refine hm.taken i d ?_
  rw [hdone]
  rfl

/-- One request on a fresh task object, answered while it waits. -/
def answeredTrace : List (RpcAct String) :=
  [.start 0 0 100 true, .entry 0 none, .setAwait 0, .store 0, .write 0 none, .yield 0,
   .guard 0 true none, .unpack 100 "A", .resumeCheck, .resumePush, .recv 0, .clear 0, .after 0 none]

/-- What a run leaves of call `i`: its sequence, whether it asked, where it stands, and the
log of the receive loop. -/
def outcome (i : Nat) (st : RpcState String) :
    UInt64 × Bool × SendPc String × List (UInt64 × String) :=
  ((st.calls i).sequence, (st.calls i).needRsp, (st.calls i).pc, st.unpacked)

theorem answeredTrace_clean : Along RpcState.step CleanStart (rpcInit String) answeredTrace := by
  refine ⟨trivial, fun s1 h1 => ⟨trivial, fun s2 h2 => ⟨?_, ?_⟩⟩⟩
  · simp only [RpcState.step, rpcInit, not_mem_nil, if_false, Option.some.injEq] at h1
    subst h1
    simp only [RpcState.step, update_self, if_true, Option.some.injEq] at h2
    subst h2
    refine ⟨?_, ?_, ?_⟩
    · intro j hj
      obtain ⟨-, hw⟩ := hj
      rw [setPc_pc] at hw
      by_cases hj0 : j = 0
      · simp [hj0, SendPc.waiting] at hw
      · simp [hj0, SendPc.waiting] at hw
    · intro d hd
      simp at hd
    · intro s d hr
      simp at hr
  · -- the other steps are under no condition
    exact fun s _ => along_of_forall _ s (by simp [CleanStart])

theorem answeredTrace_returns :
    ∃ st, run RpcState.step (rpcInit String) answeredTrace = some st ∧
      (st.calls 0).pc = .done (.ok (some "A")) ∧ ((st.calls 0).sequence, "A") ∈ st.unpacked := by
  have hrun : (run RpcState.step (rpcInit String) answeredTrace).map (outcome 0) =
      some (100, true, .done (.ok (some "A")), [(100, "A")]) := by decide +kernel
  obtain ⟨st, hst, hout⟩ := Option.map_eq_some_iff.mp hrun
  simp only [outcome, Prod.mk.injEq] at hout
  obtain ⟨-, -, hpc, -⟩ := hout
  exact ⟨st, hst, hpc,
    sendReq_returns_own_response answeredTrace st answeredTrace_clean hst 0 "A" hpc⟩

/-- A killed request whose response is already past the test of `Resume`: the object is
recycled, its channel drained of the kill, and the response then sent into it. The next
request on the object finds it there. -/
def staleTrace : List (RpcAct String) :=
  [.start 0 0 100 true, .entry 0 none, .setAwait 0, .store 0, .write 0 none,
   .killBegin 0 0 "sys timeout", .killLook 0, .killPush 0,
   .unpack 100 "A", .resumeCheck, .yield 0, .finish 0, .resetForReuse 0, .resumePush,
   .initTaskId 0, .start 1 0 101 true, .entry 1 none, .setAwait 1, .store 1, .write 1 none,
   .yield 1, .guard 1 true none, .recv 1, .clear 1, .after 1 none]

/-- The request with sequence `101` returns "A", which was unpacked with sequence `100`. -/
theorem staleTrace_returns_other_response :
    ∃ st, run RpcState.step (rpcInit String) staleTrace = some st ∧
      (st.calls 1).needRsp = true ∧ (st.calls 1).pc = .done (.ok (some "A")) ∧
      ((st.calls 1).sequence, "A") ∉ st.unpacked := by
  have hrun : (run RpcState.step (rpcInit String) staleTrace).map (outcome 1) =
      some (101, true, .done (.ok (some "A")), [(100, "A")]) := by decide +kernel
  obtain ⟨st, hst, hout⟩ := Option.map_eq_some_iff.mp hrun
  simp only [outcome, Prod.mk.injEq] at hout
  obtain ⟨hseq, hneeds, hpc, hlog⟩ := hout
  refine ⟨st, hst, hneeds, hpc, ?_⟩
  rw [hseq, hlog]
  decide

end Robot.Data
