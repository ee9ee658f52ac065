import Robot.Mode.Balance
import Robot.Mode.NoOrphan
import Robot.Mode.ResultTrail

/-!
# Results find their task by its key

A result comes back with the key of its task, and `handleAgentResult` sends it into the channel
that `taskResults` has under that key at that moment. The keys are texts: report id, case index
and agent id for a line (`taskKey`); a time stamp *in seconds*, case index, name and agent id for a
control instruction (`controlTaskKey`). Nothing makes them unique among the tasks that are
outstanding: two reboots of an agent in the same second, or two submissions under one report id,
give the same text, and so do other ids with a slash in the right place.

`FreshKey` is what it takes: a call is made only with a key that no outstanding task has, where a
task is outstanding while its call is under way *or* the task is still somewhere between the queue
and its posted result (a call may have given up long before). Then keys tell outstanding tasks
apart (`KeysApart`), the map leads from each key to its one call (`Entries`, `Registered`), every
result finds its own call, and with one result a task (`ResultTrail`) there is room for it:
`results_reach_their_task`.
-/

namespace Robot.Mode

open Robot.Lib Function List

/-! ## The keys -/

/-- `fmt.Sprintf("control/%s/%d/%s/%s", stamp, caseIndex, cp.Name, agent.ID)`. -/
def controlTaskKey (stamp : String) (caseIndex : ℕ) (name agentID : String) : String :=
  "control/" ++ stamp ++ "/" ++ toString caseIndex ++ "/" ++ name ++ "/" ++ agentID

/-- The tasks that `distributeControlInstruction` enqueues, each with its agent: one for every
target, or for the target that the clock picks if the instruction is dispatched at random. The
stamp is the second of the call. -/
def distributeControlInstruction (entries : List AgentEntry) (stamp : String) (random : Option ℕ)
    (reportID : String) (caseIndex : ℕ) (name targetGroup : String) (targetAgents : List String) :
    List (String × AgentTask) :=
  let agents := selectOnlineAgents entries targetGroup targetAgents
  let agents := match random with
    | some nanos => (agents[nanos % agents.length]?).toList
    | none => agents
  agents.map fun agent => (agent.id, ⟨controlTaskKey stamp caseIndex name agent.id, reportID, true⟩)

/-- Different ids, one key. -/
example : taskKey "r/1" 2 "a" = taskKey "r" 1 "2/a" := by decide +kernel

/-! ## Outstanding tasks -/

/-- Call `c` is under way, or its task is somewhere between the queue and its posted result. -/
inductive Outstanding (s : Master) (c : ℕ) : Prop
  | call (hpc : (s.calls c).pc.underWay = true)
  | queued (q : ℕ) (hq : c ∈ s.queues q)
  | held (p : ℕ) (hp : (s.polls p).pc.task? = some c)
  | executing (agent : String) (hx : (agent, c) ∈ s.executing)
  | inFlight (err : String) (hx : (c, err) ∈ s.inFlight)

/-- `Outstanding`, looked up in the queues and polls there are. -/
def Master.outstanding (s : Master) (c : ℕ) : Bool :=
  (s.calls c).pc.underWay || (List.range s.queueCount).any (fun q => (s.queues q).contains c) ||
    (List.range s.pollCount).any (fun p => (s.polls p).pc.task? == some c) ||
    s.executing.any (fun x => x.2 == c) || s.inFlight.any (fun x => x.1 == c)

/-- A call is made with a key that no outstanding task has. -/
def FreshKey (s : Master) : Action → Prop
  | .enqueueAgentTask _ task _ =>
    ∀ c < s.callCount, (s.calls c).task.taskKey = task.taskKey → s.outstanding c = false
  | _ => True

instance decidableFreshKey (s : Master) : ∀ a : Action, Decidable (FreshKey s a)
  | .enqueueAgentTask _ task _ =>
    inferInstanceAs (Decidable (∀ c < s.callCount,
      (s.calls c).task.taskKey = task.taskKey → s.outstanding c = false))
  | .book _ | .push _ | .leaveQueue _ _ | .leaveWait _ _ | .finish _ | .handleAgentPoll _ | .take _
  | .respond _ | .endPoll _ | .disconnect _ | .deliver _ | .lose _ | .postResult _ _ _
  | .handleAgentResult _ _ | .sendResult _ _ | .cleanup _ => isTrue trivial

section Outstanding

variable {s t : Master} {a : Action} {c : ℕ}

theorem Stepped.mem_inFlight (h : Stepped s a t) {err : String} (hx : (c, err) ∈ t.inFlight) :
    (c, err) ∈ s.inFlight ∨ ∃ agent, a = .postResult agent c err ∧ (agent, c) ∈ s.executing := by
  cases h with
  | postResult agent c' err' hx' =>
    rcases mem_cons.mp hx with he | hx
    · cases he
      exact .inr ⟨agent, rfl, hx'⟩
    · exact .inl hx
  | resultDropped | resultFound => exact .inl (mem_of_mem_erase hx)
  | _ => exact .inl hx

theorem Stepped.mem_landing (h : Stepped s a t) {d : ℕ} {err : String} (hx : (d, err) ∈ t.landing) :
    (d, err) ∈ s.landing ∨
      ∃ c, a = .handleAgentResult c err ∧ s.taskResults (s.calls c).task.taskKey = some d := by
  cases h with
  | resultFound c d' err' hkey =>
    rcases mem_cons.mp hx with he | hx
    · cases he
      exact .inr ⟨c, rfl, hkey⟩
    · exact .inl hx
  | resultSent | resultFull => exact .inl (mem_of_mem_erase hx)
  | _ => exact .inl hx

/-- A call under way was under way before, with the same task, or has just been made. -/
theorem Stepped.underWay_before (h : Stepped s a t) (hc : (t.calls c).pc.underWay = true) :
    (s.calls c).pc.underWay = true ∧ (t.calls c).task = (s.calls c).task ∨
      c = s.callCount ∧ ∃ agent ctx, a = .enqueueAgentTask agent (t.calls c).task ctx := by
  have hm := h.call_moved c
  generalize t.calls c = call at hm hc ⊢
  cases hm with
  | same | resultSent => exact .inl ⟨hc, rfl⟩
  | enqueue agent task ctx q hcc => exact .inr ⟨hcc, agent, ctx, rfl⟩
  | push _ _ hpc | leaveQueue _ _ _ _ hpc | leaveWait _ _ _ _ hpc =>
    refine .inl ⟨?_, rfl⟩
    rw [hpc]
    rfl
  | finish => cases hc

/-- A call stays under way until it finishes. -/
theorem Stepped.underWay_after (h : Stepped s a t) (i : Owned s)
    (hc : (s.calls c).pc.underWay = true) (hne : a ≠ .finish c) :
    (t.calls c).pc.underWay = true ∧ (t.calls c).task = (s.calls c).task := by
  have hm := h.call_moved c
  generalize t.calls c = call at hm ⊢
  cases hm with
  | same | resultSent => exact ⟨hc, rfl⟩
  | enqueue agent task ctx q hcc =>
    rw [i.unborn c (Nat.le_of_eq hcc.symm)] at hc
    cases hc
  | push | leaveQueue | leaveWait => exact ⟨rfl, rfl⟩
  | finish => exact absurd rfl hne

/-- A task keeps its key. -/
theorem Stepped.task_kept (h : Stepped s a t) (hc : c < s.callCount) :
    (t.calls c).task = (s.calls c).task := by
  have hm := h.call_moved c
  generalize t.calls c = call at hm ⊢
  cases hm with
  | enqueue agent task ctx q hcc => omega
  | same | push | leaveQueue | leaveWait | finish | resultSent => rfl

/-- An outstanding task was outstanding before, or its call has just been made. -/
theorem Stepped.outstanding_before (h : Stepped s a t) (hc : Outstanding t c) :
    Outstanding s c ∨ c = s.callCount ∧ ∃ agent ctx, a = .enqueueAgentTask agent (t.calls c).task ctx := by
  cases hc with
  | call hpc => exact (h.underWay_before hpc).imp_left fun hs => .call hs.1
  | queued q hq =>
    rcases h.mem_queues hq with hs | ⟨-, since, hpc⟩
    · exact .inl (.queued q hs)
    · refine .inl (.call ?_)
      rw [hpc]
      rfl
  | held p hp =>
    rcases h.held_by hp with hs | ⟨-, hq⟩
    · exact .inl (.held p hs)
    · exact .inl (.queued _ hq)
  | executing agent hx =>
    rcases h.mem_executing hx with hs | ⟨p, hp, -⟩
    · exact .inl (.executing agent hs)
    · exact .inl (.held p hp)
  | inFlight err hx =>
    rcases h.mem_inFlight hx with hs | ⟨agent, -, hx⟩
    · exact .inl (.inFlight err hs)
    · exact .inl (.executing agent hx)

end Outstanding

/-! ## The invariant -/

/-- The map leads from a key to a call under way with that key. -/
def Entries (s : Master) : Prop :=
  ∀ key d, s.taskResults key = some d →
    (s.calls d).pc.underWay = true ∧ (s.calls d).task.taskKey = key

/-- A call under way has a key that no other outstanding task has. -/
def KeysApart (s : Master) : Prop :=
  ∀ c d, Outstanding s c → (s.calls d).pc.underWay = true →
    (s.calls c).task.taskKey = (s.calls d).task.taskKey → c = d

/-- A result with text `err` was posted for the task of call `c`. -/
def PostedFor (past : List Action) (c : ℕ) (err : String) : Prop :=
  ∃ agent, Action.postResult agent c err ∈ past

/-- Each result on its way to a call, or in its channel, was posted for the task of that call. -/
structure Posted (past : List Action) (s : Master) : Prop where
  flight : ∀ c err, (c, err) ∈ s.inFlight → PostedFor past c err
  landing : ∀ d err, (d, err) ∈ s.landing → PostedFor past d err
  arrived : ∀ d err, (s.calls d).pc.isOpen = true → (s.calls d).resultCh = some err →
    PostedFor past d err

/-- All of it, after the steps `past`. -/
structure Tracked (past : List Action) (s : Master) : Prop where
  owned : Owned s
  once : Once s
  trail : Trail s
  results : ∀ c, s.results c ≤ s.startsOf c
  entries : Entries s
  registered : Registered s
  apart : KeysApart s
  posted : Posted past s

theorem Tracked.init : Tracked [] Master.init where
  owned := Owned.init
  once := Once.init
  trail := Trail.init
  results _ := Nat.le_refl 0
  entries _ _ h := by cases h
  registered := Registered.init
  apart _ _ _ h := by cases h
  posted := ⟨nofun, nofun, nofun⟩

section Tracked

variable {s t : Master} {a : Action} {c : ℕ} {past : List Action}

/-- A task with a posted result was started, so its call has been made. -/
theorem Tracked.born (k : Tracked past s) (hc : Outstanding s c) : c < s.callCount := by
  cases hc with
  | call hpc =>
    by_contra hge
    rw [k.owned.unborn c (by omega)] at hpc
    cases hpc
  | queued q hq =>
    obtain ⟨agent, -, htask⟩ := k.owned.queued q c hq
    exact k.owned.born htask
  | held p hp => exact k.owned.born (k.owned.held p c hp)
  | executing agent hx => exact k.owned.born (k.owned.executed agent c hx)
  | inFlight err hx =>
    have hflight : 0 < s.inFlight.countP (fun x => x.1 == c) :=
      countP_pos_iff.mpr ⟨_, hx, beq_self_eq_true c⟩
    have hle := k.results c
    unfold Master.results at hle
    have hpos : 0 < s.startsOf c := by omega
    obtain ⟨x, hx, hcall⟩ := countP_pos_iff.mp hpos
    rw [← beq_iff_eq.mp hcall]
    exact k.owned.born (k.owned.started x hx)

/-- Queues and polls that hold a task are among those there are. -/
theorem Tracked.outstanding (k : Tracked past s) (hc : Outstanding s c) : s.outstanding c = true := by
  unfold Master.outstanding
  simp only [Bool.or_eq_true, any_eq_true, mem_range]
  cases hc with
  | call hpc => exact .inl (.inl (.inl (.inl hpc)))
  | queued q hq =>
    obtain ⟨agent, hqueue, -⟩ := k.owned.queued q c hq
    exact .inl (.inl (.inl (.inr ⟨q, hqueue.1, contains_iff_mem.mpr hq⟩)))
  | held p hp =>
    refine .inl (.inl (.inr ⟨p, ?_, beq_iff_eq.mpr hp⟩))
    by_contra hge
    rw [k.owned.unpolled p (by omega)] at hp
    cases hp
  | executing agent hx => exact .inl (.inr ⟨_, hx, beq_self_eq_true c⟩)
  | inFlight err hx => exact .inr ⟨_, hx, beq_self_eq_true c⟩

/-- A fresh key is that of no outstanding task. -/
theorem Tracked.not_outstanding (k : Tracked past s) {agent : String} {task : AgentTask} {ctx : ℕ}
    (hfresh : FreshKey s (.enqueueAgentTask agent task ctx))
    (hkey : (s.calls c).task.taskKey = task.taskKey) : ¬ Outstanding s c := by
  intro hc
  have hnot := hfresh c (k.born hc) hkey
  rw [k.outstanding hc] at hnot
  cases hnot

theorem Tracked.freeKey (k : Tracked past s) (hfresh : FreshKey s a) : FreeKey s a := by
  intro agent task ctx ha
  subst ha
  cases hentry : s.taskResults task.taskKey with
  | none => rfl
  | some d =>
    obtain ⟨hd, hkey⟩ := k.entries _ d hentry
    exact absurd (.call hd) (k.not_outstanding hfresh hkey)

/-- A posted result finds the channel of its own call. -/
theorem Tracked.findsOwn (k : Tracked past s) (h : s.step a = some t) : FindsOwn s a := by
  intro c err d ha hentry
  subst ha
  obtain ⟨hd, hkey⟩ := k.entries _ d hentry
  exact (k.apart c d (.inFlight err (Master.inFlight_of_step h)) hd hkey.symm).symm

theorem Tracked.entries_step (k : Tracked past s) (h : Stepped s a t) : Entries t := by
  intro key d hentry
  -- an entry that was there leads to a call that is still under way
  have hkept : s.taskResults key = some d → a ≠ .finish d →
      (t.calls d).pc.underWay = true ∧ (t.calls d).task.taskKey = key := by
    intro hs hne
    obtain ⟨hd, hkey⟩ := k.entries key d hs
    obtain ⟨hd', htask⟩ := h.underWay_after k.owned hd hne
    exact ⟨hd', by rw [htask, hkey]⟩
  cases h with
  | enqueue agent task ctx q n f m hf =>
    by_cases hkey : key = task.taskKey
    · subst hkey
      simp only [update_self, Option.some.injEq] at hentry
      subst hentry
      simp only [update_self]
      exact ⟨rfl, trivial⟩
    · simp only [update_of_ne hkey] at hentry
      exact hkept hentry nofun
  | finish c err hpc =>
    by_cases hkey : key = (s.calls c).task.taskKey
    · subst hkey
      simp only [update_self] at hentry
      cases hentry
    · simp only [update_of_ne hkey] at hentry
      refine hkept hentry ?_
      intro ha
      cases ha
      exact hkey (k.entries key d hentry).2.symm
  | _ => exact hkept hentry nofun

theorem Tracked.apart_step (k : Tracked past s) (h : Stepped s a t) (hfresh : FreshKey s a) :
    KeysApart t := by
  intro c d hc hd hkey
  have hmade : ∀ {c}, Outstanding s c → ∀ {d agent ctx}, a = .enqueueAgentTask agent (t.calls d).task ctx →
      (t.calls c).task.taskKey ≠ (t.calls d).task.taskKey := by
    intro c hc d agent ctx ha hkey
    rw [h.task_kept (k.born hc)] at hkey
    rw [ha] at hfresh
    exact k.not_outstanding hfresh hkey hc
  rcases h.outstanding_before hc with hc' | ⟨hcc, agent, ctx, ha⟩
  · rcases h.underWay_before hd with ⟨hd', htask⟩ | ⟨hdd, agent, ctx, ha⟩
    · rw [h.task_kept (k.born hc'), htask] at hkey
      exact k.apart c d hc' hd' hkey
    · exact absurd hkey (hmade hc' ha)
  · rcases h.underWay_before hd with ⟨hd', htask⟩ | ⟨hdd, -⟩
    · exact absurd hkey.symm (hmade (.call hd') ha)
    · rw [hcc, hdd]

theorem PostedFor.mono {err : String} (h : PostedFor past c err) (a : Action) :
    PostedFor (past ++ [a]) c err := by
  obtain ⟨agent, hpost⟩ := h
  exact ⟨agent, mem_append_left _ hpost⟩

theorem Tracked.posted_step (k : Tracked past s) (h : s.step a = some t) :
    Posted (past ++ [a]) t := by
  have hstepped := Master.stepped h
  refine ⟨?_, ?_, ?_⟩
  · intro c err hx
    rcases hstepped.mem_inFlight hx with hs | ⟨agent, rfl, -⟩
    · exact (k.posted.flight c err hs).mono a
    · exact ⟨agent, mem_append_right _ mem_cons_self⟩
  · intro d err hx
    rcases hstepped.mem_landing hx with hs | ⟨c, rfl, hentry⟩
    · exact (k.posted.landing d err hs).mono a
    · have hd := k.findsOwn h c err d rfl hentry
      subst hd
      exact (k.posted.flight d err (Master.inFlight_of_step h)).mono _
  · intro d err hopen hch
    have hm := hstepped.call_moved d
    generalize t.calls d = call at hm hopen hch
    cases hm with
    | same => exact (k.posted.arrived d err hopen hch).mono _
    | enqueue => cases hch
    | push q since hpc =>
      refine (k.posted.arrived d err ?_ hch).mono _
      rw [hpc]
      rfl
    | leaveQueue | leaveWait | finish => cases hopen
    | resultSent err' =>
      cases hch
      exact (k.posted.landing d err (Master.landing_of_step h)).mono _

/-- **One step** with a fresh key keeps everything tracked. -/
theorem Tracked.step (k : Tracked past s) (hfresh : FreshKey s a) (h : s.step a = some t) :
    Tracked (past ++ [a]) t := by
  have hstepped := Master.stepped h
  exact {
    owned := hstepped.owned k.owned
    once := hstepped.once k.owned k.once
    trail := hstepped.trail k.once k.trail
    results := fun c => Master.results_step h (k.findsOwn h) c (k.results c)
    entries := k.entries_step hstepped
    registered := hstepped.registered (k.freeKey hfresh) k.registered
    apart := k.apart_step hstepped hfresh
    posted := k.posted_step h }

end Tracked

/-- **A whole run** in which each call is made with a fresh key. -/
theorem tracked_run {t : Master} (as : List Action)
    (hfresh : Along Master.step FreshKey Master.init as)
    (hrun : run Master.step Master.init as = some t) : Tracked as t :=
  run_inv_history (fun _ _ _ _ k hfresh h => k.step hfresh h) as [] Tracked.init hfresh hrun

/-! ## The result -/

/-- Results reach their calls, in the state after the steps `past`. -/
structure Correlated (past : List Action) (s : Master) : Prop where
  /-- A call that returns because of a result returns one that was posted for its task. -/
  own : ∀ c t, s.step (.leaveWait c .result) = some t →
    ∃ err, PostedFor past c err ∧ (t.calls c).pc = .leaving (resultError err)
  /-- A result whose call is still waiting is not unknown: its key leads to that call. -/
  known : ∀ c err, (c, err) ∈ s.inFlight → (s.calls c).pc.isOpen = true →
    s.taskResults (s.calls c).task.taskKey = some c
  /-- Nor is the channel full when the result gets there. -/
  room : ∀ c err, (c, err) ∈ s.landing → (s.calls c).pc.isOpen = true →
    (s.calls c).resultCh = none

section Correlated

variable {s t : Master} {c : ℕ} {past : List Action}

/-- A call that returns because of a result was waiting with a result in its channel. -/
theorem Master.leaveWait_result (h : s.step (.leaveWait c .result) = some t) :
    ∃ err, (s.calls c).pc.isOpen = true ∧ (s.calls c).resultCh = some err ∧
      (t.calls c).pc = .leaving (resultError err) := by
  simp only [Master.step] at h
  split at h
  · next since err hpc hch =>
    cases h
    refine ⟨err, by rw [hpc]; rfl, hch, ?_⟩
    simp only [Master.setCall, update_self]
  · cases h

/-- A result on its way into the channel is the only one its task has. -/
theorem Tracked.room (k : Tracked past s) {err : String} (hx : (c, err) ∈ s.landing)
    (hopen : (s.calls c).pc.isOpen = true) : (s.calls c).resultCh = none := by
  have hlanding : 0 < s.landing.countP (fun x => x.1 == c) :=
    countP_pos_iff.mpr ⟨_, hx, beq_self_eq_true c⟩
  have hone : s.results c ≤ 1 := Nat.le_trans (k.results c) (k.trail.started c)
  by_contra hsome
  have harrived : (s.calls c).arrived = 1 := by
    unfold Call.arrived
    rw [hopen, Option.isSome_iff_ne_none.mpr hsome]
    rfl
  unfold Master.results at hone
  omega

theorem CallPc.underWay_of_isOpen {pc : CallPc} (h : pc.isOpen = true) : pc.underWay = true := by
  cases pc with
  | queuing | waiting => rfl
  | notCalled | leaving | returned => cases h

theorem Tracked.correlated (k : Tracked past s) : Correlated past s where
  own c t h := by
    obtain ⟨err, hopen, hch, hpc⟩ := Master.leaveWait_result h
    exact ⟨err, k.posted.arrived c err hopen hch, hpc⟩
  known c _ _ hopen := k.registered c (CallPc.underWay_of_isOpen hopen)
  room _ _ hx hopen := k.room hx hopen

end Correlated

/-- **Results reach the task they belong to** in every run in which no call is made with the key
of an outstanding task: a call that returns because of a result returns one posted for its own
task, and the result of a call that is waiting finds it, with room in its channel. -/
theorem results_reach_their_task {t : Master} (as : List Action)
    (hfresh : Along Master.step FreshKey Master.init as)
    (hrun : run Master.step Master.init as = some t) : Correlated as t :=
  (tracked_run as hfresh hrun).correlated

/-- A task is served and its result received. -/
theorem served_task_correlated :
    ∃ t, run Master.step Master.init (agentPolling ++ callQueued 0 ++ taskServed ++ [.sendResult 0 ""])
        = some t ∧ t.step (.leaveWait 0 .result) ≠ none ∧
      Correlated (agentPolling ++ callQueued 0 ++ taskServed ++ [.sendResult 0 ""]) t := by
  have hready : (run Master.step Master.init
      (agentPolling ++ callQueued 0 ++ taskServed ++ [.sendResult 0 ""])).map
        (fun t => (t.step (.leaveWait 0 .result)).isSome) = some true := by decide +kernel
  obtain ⟨t, hrun, hsome⟩ := Option.map_eq_some_iff.mp hready
  exact ⟨t, hrun, Option.isSome_iff_ne_none.mp hsome,
    results_reach_their_task _ (by decide +kernel) hrun⟩

/-! ## Two reboots in the same second -/

/-- `handleAgentReboot` for the one agent there is, at a fixed second, with the context `ctx`. -/
def rebootCalled (ctx : ℕ) : List Action :=
  .book .openContext ::
    (distributeControlInstruction [⟨"a", "", .online⟩] "20260101-000000" none "" 0 "reboot" "" []).map
      fun x => .enqueueAgentTask x.1 x.2 ctx

/-- The call for whose task the step posts a result. -/
def Action.postedFor? : Action → Option ℕ
  | .postResult _ c _ => some c
  | _ => none

/-- Two reboots are asked for in the same second. The agent executes the first one's task, and its
result goes to the call of the second. -/
def rebootedTwice : List Action :=
  [.book (.handleAgentRegister "a" "s"), .handleAgentPoll "a"] ++ rebootCalled 0 ++ rebootCalled 1 ++
    [.push 0, .push 1] ++ taskServed ++ [.sendResult 1 ""]

/-- The second reboot returns with success, and nothing was posted for its task. -/
theorem reboot_takes_others_result :
    ∃ t, run Master.step Master.init rebootedTwice = some t ∧ ¬ Correlated rebootedTwice t := by
  have hready : (run Master.step Master.init rebootedTwice).map
      (fun t => (t.step (.leaveWait 1 .result)).isSome) = some true := by decide +kernel
  obtain ⟨t, hrun, hsome⟩ := Option.map_eq_some_iff.mp hready
  refine ⟨t, hrun, ?_⟩
  intro hcorr
  obtain ⟨t', ht'⟩ := Option.isSome_iff_exists.mp hsome
  obtain ⟨err, ⟨agent, hpost⟩, -⟩ := hcorr.own 1 t' ht'
  have hnone : ∀ a ∈ rebootedTwice, a.postedFor? ≠ some 1 := by decide +kernel
  exact hnone _ hpost rfl

end Robot.Mode
