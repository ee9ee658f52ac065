import Robot.Data.RpcMatch

/-!
# Which requests give their slot back

A request files its sequence in the ring with `StoreBlocking`. Two parties take it out
again: the receive loop (`LoadAndDelete`), and `SendReq` itself, but only after a failed
write. The other exits rely on the receive loop having been there before. This file says
which of them may.

* A response in hand proves it: a message is handed on only after its sequence left the
  ring, and a sequence that left the ring after its store never comes back (`Spent`,
  stable under every step because sequences are fresh). So a request that returns a
  response has no slot.
* The exits of a failed `Yield` prove nothing: killed before the wait, guard not taken, or
  woken by the killer's error. `FreeExit` asks of exactly those steps that the receive
  loop has already taken the sequence, and under clean starts this is *equivalent* to
  the absence of leaks in every state of the run.
-/

namespace Robot.Data

open Robot.Base Robot.Lib RpcState Function

variable {ρ : Type}

/-! ## Ring facts -/

theorem RPCRingBuffer.loadAndDelete_abs {τ : Type} (r : RPCRingBuffer τ) (s : UInt64) :
    (r.loadAndDelete s).2.abs = fun s' => if s = s' then none else r.abs s' := by
  rcases r.loadAndDelete_cases s with ⟨habs, heq⟩ | ⟨t, habs, heq⟩
  · rw [heq]
    funext s'
    split
    next he => exact he ▸ habs
    next => rfl
  · rw [heq]
    exact r.abs_freeSlot s (by rw [habs]; simp)

variable {s : UInt64} {st st' : RpcState ρ} {i : Nat} {a : RpcAct ρ}

/-- A `StoreBlocking` that returned filed exactly its own sequence. -/
theorem RPCRingBuffer.storeBlocking_abs {τ : Type} {r r' : RPCRingBuffer τ}
    {t : Option τ} (h : r.storeBlocking s t = some r') :
    r'.abs = fun s' => if s = s' then some t else r.abs s' := by
  rcases r.storeBlocking_cases s t with ⟨-, hnone⟩ | ⟨hfree, hsome⟩
  · rw [hnone] at h
    simp at h
  · rw [hsome, Option.some.injEq] at h
    rw [← h]
    exact r.abs_putSlot s t hfree

/-! ## What a step does to the calls and the ring -/

/-- Program points from which a call never stores again. -/
def SendPc.past : SendPc ρ → Bool
  | .idle | .entry | .setAwait | .store => false
  | _ => true

/-- Program points at which a request may still own its slot: it has stored, has not
deleted, and holds no response. -/
def SendPc.holds : SendPc ρ → Bool
  | .write | .writeErrClear _ | .writeErrDelete _ | .yield | .guard | .recv
  | .clear (.err _) | .after (.err _) => true
  | _ => false

/-- The call that leaves through a failed `Yield` in this step, if any: killed before the
wait, guard not taken or `BeforeYield` failed, or woken with the killer's error. -/
def failedYield (st : RpcState ρ) : RpcAct ρ → Option Nat
  | .yield i =>
    match (st.calls i).pc with
    | .yield =>
      if (st.taskOf i).kill || (st.taskOf i).awaitChannel.isNone then some i else none
    | _ => none
  | .guard i taken before =>
    match (st.calls i).pc with
    | .guard => if !taken || before.isSome then some i else none
    | _ => none
  | .after i _ =>
    match (st.calls i).pc with
    | .after (.err _) => some i
    | _ => none
  | _ => none

/-- The condition on a step: a `Yield` that fails does so after the receive loop has taken
the request's sequence out of the ring. -/
def FreeExit (st : RpcState ρ) (a : RpcAct ρ) : Prop :=
  ∀ i ∈ failedYield st a, st.rpcAwaitTask.abs (st.calls i).sequence = none

instance (st : RpcState ρ) (a : RpcAct ρ) : Decidable (FreeExit st a) :=
  inferInstanceAs (Decidable (∀ i ∈ failedYield st a, _))

theorem failedYield_yield (hpc : (st.calls i).pc = .yield)
    (hfail : (st.taskOf i).kill = true ∨ (st.taskOf i).awaitChannel = none) :
    failedYield st (.yield i) = some i := by
  unfold failedYield
  simp only [hpc]
  exact if_pos (by simpa using hfail)

theorem failedYield_guard {taken : Bool} {before : Option String}
    (hpc : (st.calls i).pc = .guard) (hfail : taken = false ∨ before ≠ none) :
    failedYield st (.guard i taken before) = some i := by
  unfold failedYield
  simp only [hpc]
  exact if_pos (by simpa [Option.isSome_iff_ne_none] using hfail)

theorem failedYield_after {e : String} (err : Option String)
    (hpc : (st.calls i).pc = .after (.err e)) : failedYield st (.after i err) = some i := by
  unfold failedYield
  simp only [hpc]

/-- A call that still holds its slot after the wait has got an error. -/
theorem failedYield_of_holds_after {r : TaskActionResumeData ρ}
    (err : Option String) (hpc : (st.calls i).pc = .after r) (hholds : (st.calls i).pc.holds = true) :
    failedYield st (.after i err) = some i := by
  cases r with
  | err e => exact failedYield_after err hpc
  | data d => rw [hpc] at hholds; simp [SendPc.holds] at hholds

/-- The effect of a step on the calls and the ring; most steps have none. `move` says of a
call that goes on how it may stop holding its slot: with a response in hand, or by an
exit that `FreeExit` speaks about. -/
inductive Effect (st : RpcState ρ) (a : RpcAct ρ) (st' : RpcState ρ) : Prop where
  | quiet (hcalls : st'.calls = st.calls) (hused : st'.used = st.used)
      (hring : st'.rpcAwaitTask = st.rpcAwaitTask)
  | start (i t : Nat) (s : UInt64) (n : Bool) (hpc : (st.calls i).pc = .idle) (hs : s ∉ st.used)
      (hcalls : st'.calls = update st.calls i ⟨t, s, n, .entry⟩)
      (hused : st'.used = s :: st.used) (hring : st'.rpcAwaitTask = st.rpcAwaitTask)
  | move (i : Nat) (pc : SendPc ρ) (hidle : (st.calls i).pc ≠ .idle)
      (hpast : (st.calls i).pc.past = true → pc.past = true)
      (hkeep : (st.calls i).needRsp = true → (st.calls i).pc.holds = true →
        pc.holds = true ∨ pc.carried.isSome = true ∨
        (FreeExit st a → st.rpcAwaitTask.abs (st.calls i).sequence = none))
      (hcalls : st'.calls = (st.setPc i pc).calls) (hused : st'.used = st.used)
      (hring : st'.rpcAwaitTask = st.rpcAwaitTask)
  | store (i : Nat) (hpc : (st.calls i).pc = .store)
      (hcalls : st'.calls = (st.setPc i .write).calls) (hused : st'.used = st.used)
      (hring : st'.rpcAwaitTask.abs = fun s => if (st.calls i).sequence = s
        then some (some (st.calls i).task) else st.rpcAwaitTask.abs s)
  | delete (i : Nat) (e : String) (hpc : (st.calls i).pc = .writeErrDelete e)
      (hcalls : st'.calls = (st.setPc i (.done (.error e))).calls) (hused : st'.used = st.used)
      (hring : st'.rpcAwaitTask.abs = fun s => if (st.calls i).sequence = s
        then none else st.rpcAwaitTask.abs s)
  | unpack (s : UInt64) (hcalls : st'.calls = st.calls) (hused : st'.used = st.used)
      (hring : st'.rpcAwaitTask.abs = fun s' => if s = s' then none else st.rpcAwaitTask.abs s')

theorem step_effect (hstep : st.step a = some st') :
    Effect st a st' := by
  cases step_cases hstep with
  | @start i t s n hpc hs => exact .start i t s n hpc hs rfl rfl rfl
  | @entryErr i e hpc =>
    exact .move i _ (by rw [hpc]; simp) (fun _ => rfl) (by simp [hpc, SendPc.holds]) rfl rfl rfl
  | @entryAsk i hpc hn =>
    exact .move i _ (by rw [hpc]; simp) (by simp [hpc, SendPc.past])
      (by simp [hpc, SendPc.holds]) rfl rfl rfl
  | @entryTell i hpc hn =>
    exact .move i _ (by rw [hpc]; simp) (fun _ => rfl) (by simp [hn]) rfl rfl rfl
  | @setAwait i hpc =>
    exact .move i .store (by rw [hpc]; simp) (by simp [hpc, SendPc.past])
      (by simp [hpc, SendPc.holds]) rfl rfl rfl
  | @store i ring hpc hring =>
    exact .store i hpc rfl rfl (RPCRingBuffer.storeBlocking_abs hring)
  | @writeErrAsk i e hpc hn =>
    exact .move i _ (by rw [hpc]; simp) (fun _ => rfl) (fun _ _ => Or.inl rfl) rfl rfl rfl
  | @writeErrTell i e hpc hn =>
    exact .move i _ (by rw [hpc]; simp) (fun _ => rfl) (by simp [hn]) rfl rfl rfl
  | @writeAsk i hpc hn =>
    exact .move i _ (by rw [hpc]; simp) (fun _ => rfl) (fun _ _ => Or.inl rfl) rfl rfl rfl
  | @writeTell i hpc hn =>
    exact .move i _ (by rw [hpc]; simp) (fun _ => rfl) (by simp [hn]) rfl rfl rfl
  | @writeErrClear i e x hpc hx =>
    exact .move i (.writeErrDelete e) (by rw [hpc]; simp) (fun _ => rfl) (fun _ _ => Or.inl rfl)
      rfl rfl rfl
  | @writeErrDelete i e hpc =>
    exact .delete i e hpc rfl rfl (st.rpcAwaitTask.delete_abs _)
  | @yieldFail i e hpc hfail =>
    exact .move i _ (by rw [hpc]; simp) (fun _ => rfl)
      (fun _ _ => Or.inr (Or.inr fun hfree => hfree i (failedYield_yield hpc hfail))) rfl rfl rfl
  | @yieldOk i hpc =>
    exact .move i _ (by rw [hpc]; simp) (fun _ => rfl) (fun _ _ => Or.inl rfl) rfl rfl rfl
  | @guardFail i taken before e hpc hfail =>
    exact .move i _ (by rw [hpc]; simp) (fun _ => rfl)
      (fun _ _ => Or.inr (Or.inr fun hfree => hfree i (failedYield_guard hpc hfail))) rfl rfl rfl
  | @guardOk i hpc =>
    exact .move i _ (by rw [hpc]; simp) (fun _ => rfl) (fun _ _ => Or.inl rfl) rfl rfl rfl
  | @recv i item x hpc hx =>
    refine .move i (.clear item) (by rw [hpc]; simp) (fun _ => rfl) (fun _ _ => ?_) rfl rfl rfl
    -- the killer's error keeps the slot, a response shows that it is gone
    cases item with
    | err e => exact Or.inl rfl
    | data d => exact Or.inr (Or.inl rfl)
  | @clear i r hpc =>
    refine .move i (.after r) (by rw [hpc]; simp) (fun _ => rfl) (fun _ _ => ?_) rfl rfl rfl
    cases r with
    | err e => exact Or.inl rfl
    | data d => exact Or.inr (Or.inl rfl)
  | @afterErr i r e hpc =>
    exact .move i _ (by rw [hpc]; simp) (fun _ => rfl) (fun _ hholds =>
      Or.inr (Or.inr fun hfree => hfree i (failedYield_of_holds_after _ hpc hholds))) rfl rfl rfl
  | @afterOk i r hpc =>
    exact .move i _ (by rw [hpc]; simp) (fun _ => rfl) (fun _ hholds =>
      Or.inr (Or.inr fun hfree => hfree i (failedYield_of_holds_after _ hpc hholds))) rfl rfl rfl
  | @unpackHit s d t ring hr hring =>
    exact .unpack s rfl rfl (by rw [← st.rpcAwaitTask.loadAndDelete_abs, hring])
  | @unpackMiss s d ring res hr hring =>
    exact .unpack s rfl rfl (by rw [← st.rpcAwaitTask.loadAndDelete_abs, hring])
  | resumeYes hr ha => exact .quiet rfl rfl rfl
  | resumeNo hr => exact .quiet rfl rfl rfl
  | resumePush hr hx => exact .quiet rfl rfl rfl
  | killMiss => exact .quiet rfl rfl rfl
  | killBegin hx => exact .quiet rfl rfl rfl
  | killPushes => exact .quiet rfl rfl rfl
  | killFinish => exact .quiet rfl rfl rfl
  | killPush hx => exact .quiet rfl rfl rfl
  | finish => exact .quiet rfl rfl rfl
  | resetForReuse => exact .quiet rfl rfl rfl
  | initTaskId => exact .quiet rfl rfl rfl

/-! ## Fresh sequences -/

/-- Every sequence belongs to one call. -/
structure Fresh (st : RpcState ρ) : Prop where
  used : ∀ i, (st.calls i).pc ≠ .idle → (st.calls i).sequence ∈ st.used
  uniq : ∀ i j, (st.calls i).pc ≠ .idle → (st.calls j).pc ≠ .idle →
    (st.calls i).sequence = (st.calls j).sequence → i = j

/-- No call goes back to `idle`, and only `start` leaves it: this is all `Fresh` needs of a
step. -/
theorem Fresh.of_calls (h : Fresh st) (hseq : ∀ i, (st'.calls i).sequence = (st.calls i).sequence)
    (hpc : ∀ i, (st'.calls i).pc ≠ .idle → (st.calls i).pc ≠ .idle)
    (hused : st'.used = st.used) : Fresh st' := by
  refine ⟨?_, ?_⟩
  · intro i hi
    rw [hseq, hused]
    exact h.used i (hpc i hi)
  · intro i j hi hj hij
    rw [hseq, hseq] at hij
    exact h.uniq i j (hpc i hi) (hpc j hj) hij

theorem Fresh.setPc (h : Fresh st) (i : Nat) (pc : SendPc ρ)
    (hi : (st.calls i).pc ≠ .idle) (hcalls : st'.calls = (st.setPc i pc).calls)
    (hused : st'.used = st.used) : Fresh st' := by
  refine h.of_calls (fun j => by rw [hcalls, setPc_sequence]) ?_ hused
  intro j hj
  rw [hcalls, setPc_pc] at hj
  by_cases he : j = i
  · exact he ▸ hi
  · rw [if_neg he] at hj
    exact hj

theorem Fresh.start (h : Fresh st) (i t : Nat) (s : UInt64) (n : Bool)
    (hs : s ∉ st.used) (hcalls : st'.calls = update st.calls i ⟨t, s, n, .entry⟩)
    (hused : st'.used = s :: st.used) : Fresh st' := by
  refine ⟨?_, ?_⟩
  · intro j hj
    rw [hcalls] at hj ⊢
    rw [hused]
    by_cases he : j = i
    · subst he
      simp
    · rw [update_of_ne he] at hj ⊢
      exact List.mem_cons_of_mem _ (h.used j hj)
  · intro j k hj hk hjk
    rw [hcalls] at hj hk hjk
    by_cases hej : j = i
    · by_cases hek : k = i
      · rw [hej, hek]
      · -- the sequence just handed out was not in use
        subst hej
        rw [update_of_ne hek] at hk
        rw [update_self, update_of_ne hek] at hjk
        have hused' := h.used k hk
        rw [← hjk] at hused'
        exact absurd hused' hs
    · rw [update_of_ne hej] at hj
      by_cases hek : k = i
      · subst hek
        rw [update_self, update_of_ne hej] at hjk
        have hused' := h.used j hj
        rw [hjk] at hused'
        exact absurd hused' hs
      · rw [update_of_ne hek] at hk
        rw [update_of_ne hej, update_of_ne hek] at hjk
        exact h.uniq j k hj hk hjk

theorem Fresh.step (h : Fresh st) (hstep : st.step a = some st') : Fresh st' := by
  cases step_effect hstep with
  | quiet hcalls hused hring =>
    exact h.of_calls (fun i => by rw [hcalls]) (fun i hi => by rw [hcalls] at hi; exact hi) hused
  | start i t s n hpc hs hcalls hused hring => exact h.start i t s n hs hcalls hused
  | move i pc hidle hpast hkeep hcalls hused hring => exact h.setPc i pc hidle hcalls hused
  | store i hpc hcalls hused hring => exact h.setPc i _ (by rw [hpc]; simp) hcalls hused
  | delete i e hpc hcalls hused hring => exact h.setPc i _ (by rw [hpc]; simp) hcalls hused
  | unpack s hcalls hused hring =>
    exact h.of_calls (fun i => by rw [hcalls]) (fun i hi => by rw [hcalls] at hi; exact hi) hused

theorem fresh_init : Fresh (rpcInit ρ) :=
  ⟨fun _ hi => absurd rfl hi, fun _ _ hi => absurd rfl hi⟩

/-! ## Spent sequences -/

/-- Sequence `s` has left the ring for good: its call is past its store. -/
def Spent (st : RpcState ρ) (s : UInt64) : Prop :=
  st.rpcAwaitTask.abs s = none ∧
    ∃ i, (st.calls i).sequence = s ∧ (st.calls i).pc.past = true

theorem past_ne_idle {pc : SendPc ρ} (h : pc.past = true) : pc ≠ .idle := by
  intro he
  rw [he] at h
  simp [SendPc.past] at h

/-- A call that is past its store stays past it. -/
theorem past_step (hstep : st.step a = some st') (h : (st.calls i).pc.past = true) :
    (st'.calls i).sequence = (st.calls i).sequence ∧ (st'.calls i).pc.past = true := by
  have hmoved : ∀ j pc, ((st.calls j).pc.past = true → pc.past = true) →
      st'.calls = (st.setPc j pc).calls →
      (st'.calls i).sequence = (st.calls i).sequence ∧ (st'.calls i).pc.past = true := by
    intro j pc hpast hcalls
    rw [hcalls, setPc_sequence, setPc_pc]
    refine ⟨rfl, ?_⟩
    by_cases he : i = j
    · rw [if_pos he]
      exact hpast (he ▸ h)
    · rw [if_neg he]
      exact h
  cases step_effect hstep with
  | quiet hcalls hused hring => rw [hcalls]; exact ⟨rfl, h⟩
  | start j t s n hpc hs hcalls hused hring =>
    have hne : i ≠ j := fun he => past_ne_idle h (he ▸ hpc)
    rw [hcalls, update_of_ne hne]
    exact ⟨rfl, h⟩
  | move j pc hidle hpast hkeep hcalls hused hring => exact hmoved j pc hpast hcalls
  | store j hpc hcalls hused hring => exact hmoved j _ (fun _ => rfl) hcalls
  | delete j e hpc hcalls hused hring => exact hmoved j _ (fun _ => rfl) hcalls
  | unpack s hcalls hused hring => rw [hcalls]; exact ⟨rfl, h⟩

/-- **What is spent stays spent**: only the call of a sequence can store it, once. -/
theorem Spent.step (hfresh : Fresh st)
    (h : Spent st s) (hstep : st.step a = some st') : Spent st' s := by
  obtain ⟨hnone, i, hseq, hpast⟩ := h
  obtain ⟨hseq', hpast'⟩ := past_step hstep hpast
  refine ⟨?_, i, hseq' ▸ hseq, hpast'⟩
  cases step_effect hstep with
  | quiet hcalls hused hring => rw [hring]; exact hnone
  | start j t s n hpc hs hcalls hused hring => rw [hring]; exact hnone
  | move j pc hidle hpast hkeep hcalls hused hring => rw [hring]; exact hnone
  | store j hpc hcalls hused hring =>
    have hne : (st.calls j).sequence ≠ s := by
      intro he
      have hij := hfresh.uniq j i (by rw [hpc]; simp) (past_ne_idle hpast) (he.trans hseq.symm)
      rw [← hij, hpc] at hpast
      simp [SendPc.past] at hpast
    rw [hring]
    exact (if_neg hne).trans hnone
  | delete j e hpc hcalls hused hring =>
    rw [hring]
    exact ite_eq_left_iff.mpr fun _ => hnone
  | unpack s' hcalls hused hring =>
    rw [hring]
    exact ite_eq_left_iff.mpr fun _ => hnone

/-! ## Held slots -/

/-- Every occupied slot belongs to a request that may still own it. -/
def Held (st : RpcState ρ) : Prop :=
  ∀ s, st.rpcAwaitTask.abs s ≠ none →
    ∃ i, (st.calls i).sequence = s ∧ (st.calls i).needRsp = true ∧ (st.calls i).pc.holds = true

theorem holds_past {pc : SendPc ρ} (h : pc.holds = true) : pc.past = true := by
  unfold SendPc.holds at h
  split at h <;> first | rfl | simp at h

/-- A call moves on; if it owned a slot it still may, or the slot is free. -/
theorem Held.move (h : Held st) (i : Nat) (pc : SendPc ρ)
    (hcalls : st'.calls = (st.setPc i pc).calls)
    (hring : ∀ s, st'.rpcAwaitTask.abs s ≠ none → st.rpcAwaitTask.abs s ≠ none)
    (hkeep : (st.calls i).needRsp = true → (st.calls i).pc.holds = true →
      pc.holds = true ∨ st'.rpcAwaitTask.abs (st.calls i).sequence = none) : Held st' := by
  intro s hs
  obtain ⟨j, hseq, hn, hh⟩ := h s (hring s hs)
  refine ⟨j, ?_, ?_, ?_⟩
  · rw [hcalls, setPc_sequence]; exact hseq
  · rw [hcalls, setPc_needRsp]; exact hn
  · rw [hcalls, setPc_pc]
    by_cases he : j = i
    · subst he
      rw [if_pos rfl]
      rcases hkeep hn hh with hpc | hfree
      · exact hpc
      · exact absurd (hseq ▸ hfree) hs
    · rw [if_neg he]
      exact hh

theorem Held.of_eq (h : Held st) (hcalls : st'.calls = st.calls)
    (hring : ∀ s, st'.rpcAwaitTask.abs s ≠ none → st.rpcAwaitTask.abs s ≠ none) : Held st' := by
  intro s hs
  rw [hcalls]
  exact h s (hring s hs)

/-- Taking sequences out of the ring frees slots and fills none. -/
theorem erased_of_ne_none {f g : UInt64 → Option (Option Nat)} {s₀ : UInt64}
    (hg : g = fun s => if s₀ = s then none else f s) (s : UInt64) (hs : g s ≠ none) :
    f s ≠ none ∧ s₀ ≠ s := by
  rw [hg] at hs
  by_cases he : s₀ = s
  · exact absurd (if_pos he) hs
  · exact ⟨fun hf => hs ((if_neg he).trans hf), he⟩

/-- **One step keeps slots with their requests**, if the exits of a failed `Yield` are free
exits. `hgone` is the other half of the argument: a response in hand means a spent sequence. -/
theorem Held.step (h : Held st)
    (hneeds : ∀ i, (st.calls i).pc = .store → (st.calls i).needRsp = true)
    (hgone : ∀ i, (st'.calls i).pc.carried.isSome = true → Spent st' (st'.calls i).sequence)
    (hfree : FreeExit st a) (hstep : st.step a = some st') : Held st' := by
  cases step_effect hstep with
  | quiet hcalls hused hring => exact h.of_eq hcalls (fun s hs => hring ▸ hs)
  | start i t s n hpc hs hcalls hused hring =>
    intro s' hs'
    obtain ⟨j, hj⟩ := h s' (hring ▸ hs')
    have hne : j ≠ i := fun he => past_ne_idle (holds_past hj.2.2) (he ▸ hpc)
    exact ⟨j, by rw [hcalls, update_of_ne hne]; exact hj⟩
  | move i pc hidle hpast hkeep hcalls hused hring =>
    refine h.move i pc hcalls (fun s hs => hring ▸ hs) ?_
    intro hn hh
    rcases hkeep hn hh with hpc | hcar | hexit
    · exact Or.inl hpc
    · have hspent := hgone i (by rw [hcalls, setPc_pc, if_pos rfl]; exact hcar)
      rw [hcalls, setPc_sequence] at hspent
      exact Or.inr hspent.1
    · exact Or.inr (hring ▸ hexit hfree)
  | store i hpc hcalls hused hring =>
    intro s hs
    by_cases he : (st.calls i).sequence = s
    · refine ⟨i, ?_, ?_, ?_⟩
      · rw [hcalls, setPc_sequence]; exact he
      · rw [hcalls, setPc_needRsp]; exact hneeds i hpc
      · rw [hcalls, setPc_pc, if_pos rfl]; rfl
    · rw [hring] at hs
      obtain ⟨j, hseq, hn, hh⟩ := h s (fun hf => hs ((if_neg he).trans hf))
      have hne : j ≠ i := fun hji => he (hji ▸ hseq)
      refine ⟨j, ?_, ?_, ?_⟩
      · rw [hcalls, setPc_sequence]; exact hseq
      · rw [hcalls, setPc_needRsp]; exact hn
      · rw [hcalls, setPc_pc, if_neg hne]; exact hh
  | delete i e hpc hcalls hused hring =>
    refine h.move i _ hcalls (fun s hs => (erased_of_ne_none hring s hs).1) ?_
    intro _ _
    exact Or.inr (by rw [hring]; exact if_pos rfl)
  | unpack s hcalls hused hring =>
    exact h.of_eq hcalls (fun s' hs' => (erased_of_ne_none hring s' hs').1)

/-! ## The result -/

/-- The call has been made and has not returned. -/
def SendCall.outstanding (c : SendCall ρ) : Prop := c.pc ≠ .idle ∧ ∀ r, c.pc ≠ .done r

/-- No slot outlives its request, so a `StoreBlocking` that spins spins on an outstanding
request of the same residue. -/
def NoLeak (st : RpcState ρ) : Prop :=
  (∀ s, st.rpcAwaitTask.abs s ≠ none →
    ∃ i, (st.calls i).sequence = s ∧ (st.calls i).outstanding) ∧
  (∀ s t, st.rpcAwaitTask.storeBlocking s t = none →
    ∃ i, (st.calls i).outstanding ∧ (st.calls i).sequence ≠ s ∧
      st.rpcAwaitTask.residue (st.calls i).sequence = st.rpcAwaitTask.residue s)

theorem Held.noLeak (h : Held st) : NoLeak st := by
  have howner : ∀ s, st.rpcAwaitTask.abs s ≠ none →
      ∃ i, (st.calls i).sequence = s ∧ (st.calls i).outstanding := by
    intro s hs
    obtain ⟨i, hseq, -, hh⟩ := h s hs
    refine ⟨i, hseq, past_ne_idle (holds_past hh), ?_⟩
    intro r hr
    rw [hr] at hh
    simp [SendPc.holds] at hh
  refine ⟨howner, ?_⟩
  intro s t hspin
  rcases st.rpcAwaitTask.storeBlocking_cases s t with ⟨⟨s', hne, hres, hheld⟩, -⟩ | ⟨-, hsome⟩
  · obtain ⟨i, hseq, hout⟩ := howner s' hheld
    exact ⟨i, hout, hseq ▸ hne, hseq ▸ hres⟩
  · rw [hsome] at hspin
    simp at hspin

/-- What holds of every state while requests start clean and failed `Yield`s exit free. -/
structure Released (st : RpcState ρ) : Prop where
  fresh : Fresh st
  matched : Matched (fun s _ => Spent st s) st
  held : Held st

/-- A message that finds its sequence in the ring spends it. -/
theorem Held.unpack_spends (h : Held st) {d : ρ} {t : Nat}
    {ring : RPCRingBuffer Nat} (hring : st.rpcAwaitTask.loadAndDelete s = ((some t, true), ring))
    (hstep : st.step (.unpack s d) = some st') : Spent st' s := by
  have hheld : st.rpcAwaitTask.abs s ≠ none := by
    rcases st.rpcAwaitTask.loadAndDelete_cases s with ⟨-, hmiss⟩ | ⟨t', habs, -⟩
    · rw [hmiss] at hring
      simp at hring
    · rw [habs]
      simp
  obtain ⟨i, hseq, -, hh⟩ := h s hheld
  obtain ⟨hseq', hpast'⟩ := past_step hstep (holds_past hh)
  refine ⟨?_, i, hseq' ▸ hseq, hpast'⟩
  have hout : (st.rpcAwaitTask.loadAndDelete s).2.abs s = none := by
    rw [st.rpcAwaitTask.loadAndDelete_abs]
    exact if_pos rfl
  cases step_cases hstep with
  | unpackHit hr hring' => rw [hring'] at hout; exact hout
  | unpackMiss hr hring' => rw [hring'] at hout; exact hout

theorem Released.step (h : Released st)
    (hclean : CleanStart st a) (hfree : FreeExit st a) (hstep : st.step a = some st') :
    Released st' := by
  have hmatched : Matched (fun s _ => Spent st' s) st' := by
    refine (h.matched.mono fun s _ hs => hs.step h.fresh hstep).step hclean hstep ?_
    intro s d t ring ha hring
    subst ha
    exact h.held.unpack_spends hring hstep
  refine ⟨h.fresh.step hstep, hmatched, h.held.step ?_ ?_ hfree hstep⟩
  · intro i hpc
    exact h.matched.needs i (by rw [hpc]; rfl)
  · intro i hcar
    obtain ⟨d, hd⟩ := Option.isSome_iff_exists.mp hcar
    exact hmatched.taken i d hd

theorem userRing_abs (s : UInt64) : userRing.abs s = none := by
  obtain ⟨r, hr⟩ : ∃ r, newRPCRingBuffer (τ := Nat) 256 = some r := ⟨userRing, by simp [userRing]⟩
  have hring : userRing = r := by simp [userRing, hr]
  rw [hring, RPCRingBuffer.new_abs hr]

theorem released_init : Released (rpcInit ρ) :=
  ⟨fresh_init, matched_init, fun s hs => absurd (userRing_abs s) hs⟩

theorem failedYield_returns (h : failedYield st a = some i) :
    ∃ r, st.step a = some (st.setPc i (.done r)) ∧ (st.calls i).pc ≠ .idle := by
  unfold failedYield at h
  split at h
  next j =>
    split at h
    next hpc =>
      split at h
      next hfail =>
        cases h
        refine ⟨.error (if (st.taskOf i).kill then "task action killed"
          else "task action not set await data"), ?_, by rw [hpc]; simp⟩
        simp only [RpcState.step, hpc]
        cases hk : (st.taskOf i).kill with
        | true => simp
        | false =>
          rw [hk, Bool.false_or] at hfail
          simp [hfail]
      next => simp at h
    next => simp at h
  next j taken before =>
    split at h
    next hpc =>
      split at h
      next hfail =>
        cases h
        simp only [RpcState.step, hpc]
        cases taken with
        | false => exact ⟨_, rfl, by simp⟩
        | true =>
          obtain ⟨e, he⟩ := Option.isSome_iff_exists.mp hfail
          rw [he]
          exact ⟨_, rfl, by simp⟩
      next => simp at h
    next => simp at h
  next j err =>
    split at h
    next e hpc =>
      cases h
      simp only [RpcState.step, hpc]
      cases err with
      | none => exact ⟨_, rfl, by simp⟩
      | some e' => exact ⟨_, rfl, by simp⟩
    next => simp at h
  next => simp at h

/-- A failed `Yield` that leaves its slot behind leaks it: the call has returned and no other
call has its sequence. -/
theorem leak_of_failedYield (hfresh : Fresh st)
    (hbad : ¬ FreeExit st a) : ∃ st', st.step a = some st' ∧ ¬ NoLeak st' := by
  obtain ⟨i, hi, hheld⟩ : ∃ i, failedYield st a = some i ∧
      st.rpcAwaitTask.abs (st.calls i).sequence ≠ none := by
    obtain ⟨i, hi⟩ := Classical.not_forall.mp hbad
    exact ⟨i, Classical.not_imp.mp hi⟩
  obtain ⟨r, hstep, hidle⟩ := failedYield_returns hi
  refine ⟨_, hstep, ?_⟩
  intro hno
  obtain ⟨j, hseq, hout⟩ := hno.1 (st.calls i).sequence hheld
  rw [setPc_sequence] at hseq
  have hne : j ≠ i := by
    intro he
    refine hout.2 r ?_
    rw [setPc_pc, if_pos he]
  have hj : (st.calls j).pc ≠ .idle := by
    have := hout.1
    rw [setPc_pc, if_neg hne] at this
    exact this
  exact hne (hfresh.uniq j i hj hidle hseq)

/-- **Which runs leak no slot.** When every request starts on a clean task object, no slot is
ever held for a request that has returned exactly when every failed `Yield` finds its
sequence already taken by the receive loop. -/
theorem noLeak_iff_freeExit (acts : List (RpcAct ρ))
    (hclean : Along RpcState.step CleanStart (rpcInit ρ) acts) :
    Throughout RpcState.step NoLeak (rpcInit ρ) acts ↔
      Along RpcState.step FreeExit (rpcInit ρ) acts := by
  constructor
  · intro hno
    exact along_of_throughout (fun s a s' (hf : Fresh s) hs => hf.step hs)
      (fun _ _ hf hbad => leak_of_failedYield hf hbad) acts fresh_init hno
  · intro hfree
    exact throughout_of_inv (fun _ hr => hr.held.noLeak)
      (fun _ _ _ hr hp hs => hr.step hp.1 hp.2 hs) acts released_init (along_and acts hclean hfree)

theorem answeredTrace_noLeak :
    Throughout RpcState.step NoLeak (rpcInit String) answeredTrace :=
  (noLeak_iff_freeExit answeredTrace answeredTrace_clean).mpr (by decide +kernel)

/-- A request that is killed while it waits for a response that never comes. -/
def killedTrace : List (RpcAct String) :=
  [.start 0 0 100 true, .entry 0 none, .setAwait 0, .store 0, .write 0 none, .yield 0,
   .guard 0 true none, .killBegin 0 0 "sys timeout", .killLook 0, .killPush 0, .recv 0,
   .clear 0, .after 0 none]

/-- The call has returned, its slot is still held, and the sequence `256` later spins on it. -/
theorem killedTrace_leaks :
    ∃ st, run RpcState.step (rpcInit String) killedTrace = some st ∧
      (st.calls 0).pc = .done (.error "sys timeout") ∧
      st.rpcAwaitTask.abs 100 = some (some 0) ∧
      (st.rpcAwaitTask.storeBlocking 356 (some 1)).isNone = true ∧ ¬ NoLeak st := by
  have hrun : (run RpcState.step (rpcInit String) killedTrace).map (fun st =>
      ((st.calls 0).sequence, (st.calls 0).pc, st.rpcAwaitTask.abs 100,
        (st.rpcAwaitTask.storeBlocking 356 (some 1)).isNone)) =
      some (100, .done (.error "sys timeout"), some (some 0), true) := by decide +kernel
  obtain ⟨st, hst, hout⟩ := Option.map_eq_some_iff.mp hrun
  simp only [Prod.mk.injEq] at hout
  obtain ⟨hseq, hpc, habs, hspin⟩ := hout
  refine ⟨st, hst, hpc, habs, hspin, ?_⟩
  intro hno
  have hfresh : Fresh st := run_inv_all
    (fun s a s' (hf : Fresh s) (hs : s.step a = some s') => hf.step hs) _ fresh_init hst
  obtain ⟨j, hj, hidle, hdone⟩ := hno.1 100 (by rw [habs]; simp)
  have hj0 : j = 0 := hfresh.uniq j 0 hidle (by rw [hpc]; simp) (hj.trans hseq.symm)
  exact hdone _ (hj0 ▸ hpc)

end Robot.Data
