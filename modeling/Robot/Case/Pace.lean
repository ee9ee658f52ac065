import Robot.Case.DispatchExact
import Robot.Case.QpsWaiters

/-!
# Dispatching at a rate

`RunCaseInner` (`case/case.go`) with its `QPSController`. Between the receive of a holder and
`RunTaskAction` a worker calls `Acquire`, in adaptive mode after a `SetQPS` to the rate of the
pressure controller, and goes on when the call is over. `PacedRun` puts the dispatch machine and the
controller side by side. The deferred `Stop` comes after all workers, so it is no action here.

The rate decides when a task is dispatched and, where a call of `Acquire` never comes back, whether:
at a rate of a millionth of a call a second every tick is worth nothing, and after the first dispatch
all workers wait for ever. `PacedRun.Inv.finishes` says that this is all: with a target that is zero
or below, or that the refiller serves (`Served`), every state leads on to the end, by steps of the run
and ticks on time. The counters have to stay inside their types as well: two users with `2 ^ 62` runs on
one worker make its `totalTaskCount` negative, and it stops after one dispatch
(`overflow_stops_after_one`).
-/

namespace Robot.Case

open Robot.Lib Function QPSController

/-- `int64(targetQPS * tokenScale)`, for a rate in the range. -/
def scaledQPS (targetQPS : ℚ) : ℤ := (targetQPS * tokenScale).num.tdiv (targetQPS * tokenScale).den

/-- `params.TargetQPS <= 0 && pressure != nil`. -/
def Params.adaptiveMode (p : Params) (pressure : Bool) : Bool := decide (p.targetQPS ≤ 0) && pressure

/-- A target with which a call of `Acquire` comes back: no limit, or one that is served. -/
def Served (target : ℤ) : Prop := target ≤ 0 ∨ Refills target

instance (target : ℤ) : Decidable (Served target) :=
  inferInstanceAs (Decidable (target ≤ 0 ∨ Refills target))

structure PacedRun where
  run : CaseRun
  qps : QPSController
  /-- The call of `Acquire` of a worker, until its `RunTaskAction`. -/
  call : ℕ → Option ℕ

inductive PacedAct where
  | dispatch (a : DispatchAct)
  /-- Worker `w` calls `Acquire`, in adaptive mode after `SetQPS(rate)`. -/
  | acquire (w : ℕ) (rate : ℤ)
  /-- A step of a call or of the refiller. -/
  | qps (a : QpsAction)

/-- The steps of the calls and of the refiller, ticks early or late. -/
def QpsAction.inner : QpsAction → Bool
  | .advance _ | .tick _ | .seeStop | .refill => true
  | .acquire | .setQPS _ | .stop => false

/-- A new call, in adaptive mode with a new rate. -/
def QPSController.begin (q : QPSController) (adaptive : Bool) (rate : ℤ) : QPSController :=
  { q with
    targetQPS := if adaptive then rate else q.targetQPS
    calls := q.calls ++ [.entered] }

namespace PacedRun

/-- The call of worker `w` is over. -/
def acquired (s : PacedRun) (w : ℕ) : Bool :=
  ((s.call w).bind fun i => s.qps.calls[i]?).any AcquirePc.over

/-- Before the first step; `first` is the rate of the pressure controller at its start. -/
def init (p : Params) (adaptive : Bool) (first : ℤ) (index : String → Int) : PacedRun where
  run := ⟨index, Exec.init⟩
  qps := newQPSController (if adaptive then first else scaledQPS p.targetQPS)
  call _ := none

section Steps

variable (plan : RunPlan) (adaptive : Bool)

/-- `RunTaskAction` comes after `Acquire`. -/
def dispatchStep (s : PacedRun) : DispatchAct → Option PacedRun
  | .runTask w =>
    if s.acquired w then
      (s.run.step plan (.runTask w)).map fun run =>
        { s with run := run, call := update s.call w none }
    else none
  | a => (s.run.step plan a).map fun run => { s with run := run }

def acquire (s : PacedRun) (w : ℕ) (rate : ℤ) : Option PacedRun :=
  match s.run.exec.pc w, s.call w with
  | .holding _, none =>
    some { s with
      qps := s.qps.begin adaptive rate
      call := update s.call w (some s.qps.calls.length) }
  | _, _ => none

def step (s : PacedRun) : PacedAct → Option PacedRun
  | .dispatch a => s.dispatchStep plan a
  | .acquire w rate => s.acquire adaptive w rate
  | .qps a => if a.inner then (s.qps.step a).map fun qps => { s with qps := qps } else none

end Steps

end PacedRun

namespace PacedAct

/-- No failure breaks the run, it is not cancelled, and the pressure controller gives rates that are
served. -/
def quiet (plan : RunPlan) (adaptive : Bool) : PacedAct → Prop
  | .dispatch a => a.quiet plan
  | .acquire _ rate => adaptive = true → Refills rate
  | .qps _ => True

/-- And ticks come on time. -/
def onTime (plan : RunPlan) (adaptive : Bool) : PacedAct → Prop
  | .qps a => a.own = true
  | a => a.quiet plan adaptive

def isDispatch : PacedAct → Bool
  | .dispatch _ => true
  | _ => false

variable {plan : RunPlan} {adaptive : Bool}

theorem quiet_of_onTime : ∀ {a : PacedAct}, a.onTime plan adaptive → a.quiet plan adaptive
  | .dispatch _, h => h
  | .acquire _ _, h => h
  | .qps _, _ => trivial

end PacedAct

/-! ## What the controller does meanwhile -/

namespace QPSController

variable {q q' : QPSController} {i : ℕ} {pc : AcquirePc}

/-- The controller's own steps leave its settings alone. -/
theorem inner_frame {a : QpsAction} (ha : a.inner = true) (h : q.step a = some q') :
    q'.targetQPS = q.targetQPS ∧ q'.stopped = q.stopped ∧ q'.calls.length = q.calls.length := by
  cases a with
  | acquire | setQPS | stop => cases ha
  | advance i =>
    obtain ⟨tokens, mu, pc', rfl, -⟩ := advance_frame h
    exact ⟨rfl, rfl, List.length_set⟩
  | tick elapsed =>
    obtain ⟨-, rfl⟩ := tick_cases h
    exact ⟨rfl, rfl, rfl⟩
  | seeStop =>
    obtain ⟨-, rfl⟩ := seeStop_cases h
    exact ⟨rfl, rfl, rfl⟩
  | refill =>
    have hframe := refillStep_frame h
    refine ⟨hframe.target, hframe.stopped, ?_⟩
    rcases hframe.calls with hcalls | hcalls
    · rw [hcalls]
    · rw [hcalls, List.length_map]

/-- The controller runs, and its target is served as soon as somebody calls. -/
structure Paces (q : QPSController) : Prop where
  attended : q.Attended
  running : q.stopped = false
  served : q.calls ≠ [] → Served q.targetQPS

theorem Paces.considerate {a : QpsAction} (h : q.Paces) (ha : a.inner = true) : Considerate q a := by
  cases a with
  | acquire | setQPS | stop => cases ha
  | advance i =>
    intro hpc
    exact (h.served (List.ne_nil_of_mem (List.mem_of_getElem? hpc))).imp id fun hr => ⟨hr, h.running⟩
  | tick | seeStop | refill => trivial

theorem Paces.inner {a : QpsAction} (h : q.Paces) (ha : a.inner = true) (hs : q.step a = some q') :
    q'.Paces := by
  obtain ⟨htarget, hstopped, hlen⟩ := inner_frame ha hs
  refine ⟨h.attended.step (h.considerate ha) hs, hstopped.trans h.running, fun hne => ?_⟩
  rw [htarget]
  refine h.served fun hnil => hne (List.length_eq_zero_iff.mp ?_)
  rw [hlen, hnil]
  rfl

/-- A call begins: with a rate that is served, or where the target is. -/
theorem Paces.begin (h : q.Paces) {adaptive : Bool} {rate : ℤ} (hrate : adaptive = true → Refills rate)
    (htarget : adaptive = false → Served q.targetQPS) : (q.begin adaptive rate).Paces := by
  cases adaptive with
  | false => exact ⟨h.attended.step (a := .acquire) trivial rfl, h.running, fun _ => htarget rfl⟩
  | true =>
    have hset := h.attended.step (a := .setQPS rate) (.inl (hrate rfl)) rfl
    exact ⟨hset.step (a := .acquire) trivial rfl, h.running, fun _ => .inr (hrate rfl)⟩

/-- **Every call can return.** -/
theorem Paces.canReturn (h : q.Paces) (hpc : q.calls[i]? = some pc) : q.CanReturn i := by
  have hunder : ∀ {q : QPSController}, q.Attended → q.UnderWay i → q.CanReturn i :=
    fun ha hi => ha.canReturn hi
  cases pc with
  | returned | passed => exact ⟨q, _, Reaches.refl q, hpc, rfl⟩
  | entered =>
    -- without a limit the call passes, with one it is under way
    refine CanReturn.advance hpc rfl ?_
    have hnext : (q.goto i (if q.targetQPS ≤ 0 then .passed else .subtracting)).Attended :=
      h.attended.advance (h.considerate rfl) hpc rfl
    by_cases htarget : q.targetQPS ≤ 0
    · rw [if_pos htarget]
      exact ⟨_, .passed, Reaches.refl _, getElem?_goto hpc _, rfl⟩
    · rw [if_neg htarget] at hnext ⊢
      exact hunder hnext ⟨_, getElem?_goto hpc _, rfl⟩
  | _ => exact hunder h.attended ⟨_, hpc, rfl⟩

end QPSController

/-! ## Runs -/

namespace PacedRun

variable {plan : RunPlan} {adaptive : Bool} {s t : PacedRun}

/-- What holds at every point of a quiet run. -/
structure Inv (plan : RunPlan) (adaptive : Bool) (s : PacedRun) : Prop where
  dispatch : s.run.exec.Inv plan s.run.index
  paces : s.qps.Paces
  target : adaptive = false → Served s.qps.targetQPS
  called : ∀ w i, s.call w = some i → i < s.qps.calls.length

theorem dispatchStep_of_ne {a : DispatchAct} (ha : ∀ w, a ≠ .runTask w) :
    s.dispatchStep plan a = (s.run.step plan a).map fun run => { s with run := run } := by
  cases a with
  | runTask w => exact absurd rfl (ha w)
  | _ => rfl

/-- What a step of the dispatch machine is here. -/
theorem dispatchStep_frame {a : DispatchAct} (h : s.dispatchStep plan a = some t) :
    s.run.step plan a = some t.run ∧ t.qps = s.qps ∧
      ∀ w i, t.call w = some i → s.call w = some i := by
  by_cases ha : ∃ w, a = .runTask w
  · obtain ⟨w, rfl⟩ := ha
    obtain ⟨-, h⟩ := Option.ite_none_right_eq_some.mp h
    obtain ⟨r, hr, rfl⟩ := Option.map_eq_some_iff.mp h
    refine ⟨hr, rfl, (forall_update_iff s.call fun v c => ∀ i, c = some i → s.call v = some i).mpr
      ⟨nofun, fun _ _ _ hi => hi⟩⟩
  · rw [dispatchStep_of_ne (not_exists.mp ha)] at h
    obtain ⟨r, hr, rfl⟩ := Option.map_eq_some_iff.mp h
    exact ⟨hr, rfl, fun _ _ hi => hi⟩

/-- **One quiet step** keeps the invariant; a dispatch takes away from the work. -/
theorem Inv.step (h : s.Inv plan adaptive) (hfits : plan.Fits) {a : PacedAct}
    (hquiet : a.quiet plan adaptive) (hs : s.step plan adaptive a = some t) :
    t.Inv plan adaptive ∧
      t.run.exec.work plan + (if a.isDispatch then 1 else 0) ≤ s.run.exec.work plan := by
  cases a with
  | dispatch a =>
    obtain ⟨hr, hqps, hcall⟩ := dispatchStep_frame hs
    obtain ⟨hinv, hwork⟩ := CaseRun.inv_step hfits h.dispatch hquiet hr
    refine ⟨⟨hinv, ?_, ?_, fun w i hi => ?_⟩, hwork⟩
    · rw [hqps]
      exact h.paces
    · rw [hqps]
      exact h.target
    · rw [hqps]
      exact h.called w i (hcall w i hi)
  | acquire w rate =>
    change s.acquire adaptive w rate = some t at hs
    unfold acquire at hs
    split at hs
    next =>
      cases hs
      refine ⟨⟨h.dispatch, h.paces.begin hquiet h.target, fun ha => ?_, ?_⟩, Nat.le_refl _⟩
      · subst ha
        exact h.target rfl
      · have hlen : (s.qps.begin adaptive rate).calls.length = s.qps.calls.length + 1 :=
          List.length_append
        refine (forall_update_iff s.call fun _ c => ∀ i, c = some i →
          i < (s.qps.begin adaptive rate).calls.length).mpr ⟨fun i hi => ?_, fun v _ i hi => ?_⟩
        · cases hi
          omega
        · have := h.called v i hi
          omega
    next => cases hs
  | qps a =>
    obtain ⟨ha, hs⟩ := Option.ite_none_right_eq_some.mp hs
    obtain ⟨q, hq, rfl⟩ := Option.map_eq_some_iff.mp hs
    obtain ⟨htarget, -, hlen⟩ := inner_frame ha hq
    refine ⟨⟨h.dispatch, h.paces.inner ha hq, ?_, fun w i hi => ?_⟩, Nat.le_refl _⟩
    · rw [htarget]
      exact h.target
    · rw [hlen]
      exact h.called w i hi

/-- **A quiet run** keeps the invariant, and every dispatch in it has taken away from the work. -/
theorem Inv.run (hfits : plan.Fits) : ∀ (acts : List PacedAct) {s : PacedRun}, s.Inv plan adaptive →
    (∀ a ∈ acts, a.quiet plan adaptive) → Lib.run (PacedRun.step plan adaptive) s acts = some t →
    t.Inv plan adaptive ∧ t.run.exec.work plan + acts.countP PacedAct.isDispatch ≤ s.run.exec.work plan := by
  intro acts
  induction acts with
  | nil =>
    intro s h _ hrun
    cases hrun
    exact ⟨h, Nat.le_refl _⟩
  | cons a acts ih =>
    intro s h hquiet hrun
    obtain ⟨s', hs, hrun⟩ := run_cons.mp hrun
    obtain ⟨hinv, hwork⟩ := h.step hfits (hquiet a List.mem_cons_self) hs
    obtain ⟨hend, hrest⟩ := ih hinv (fun b hb => hquiet b (List.mem_cons_of_mem a hb)) hrun
    refine ⟨hend, ?_⟩
    rw [List.countP_cons]
    omega

/-! ## Every run can be finished -/

/-- Some steps, with ticks on time, lead from `s` to `t`. -/
def Leads (plan : RunPlan) (adaptive : Bool) (s t : PacedRun) : Prop :=
  ∃ acts : List PacedAct, (∀ a ∈ acts, a.onTime plan adaptive) ∧
    Lib.run (step plan adaptive) s acts = some t

theorem Leads.refl (s : PacedRun) : Leads plan adaptive s s := ⟨[], nofun, rfl⟩

theorem Leads.trans {u : PacedRun} (h : Leads plan adaptive s t) (h' : Leads plan adaptive t u) :
    Leads plan adaptive s u := by
  obtain ⟨acts, honTime, hrun⟩ := h
  obtain ⟨more, honTime', hrun'⟩ := h'
  exact ⟨acts ++ more, fun a ha => (List.mem_append.mp ha).elim (honTime a) (honTime' a),
    run_append.mpr ⟨t, hrun, hrun'⟩⟩

theorem Leads.single {a : PacedAct} (ha : a.onTime plan adaptive) (h : s.step plan adaptive a = some t) :
    Leads plan adaptive s t :=
  ⟨[a], fun _ hb => List.mem_singleton.mp hb ▸ ha, run_cons.mpr ⟨t, h, rfl⟩⟩

theorem Leads.inv (h : Leads plan adaptive s t) (hfits : plan.Fits) (hinv : s.Inv plan adaptive) :
    t.Inv plan adaptive := by
  obtain ⟨acts, honTime, hrun⟩ := h
  exact (Inv.run hfits acts hinv (fun a ha => PacedAct.quiet_of_onTime (honTime a ha)) hrun).1

/-- The controller's own runs are runs of the whole. -/
theorem leads_of_reaches {q : QPSController} (h : Reaches ownStep s.qps q) :
    Leads plan adaptive s { s with qps := q } := by
  obtain ⟨acts, hrun⟩ := h
  induction acts generalizing s with
  | nil =>
    cases hrun
    exact Leads.refl s
  | cons a acts ih =>
    obtain ⟨q', hq', hrun⟩ := run_cons.mp hrun
    obtain ⟨hown, hq'⟩ := Option.ite_none_right_eq_some.mp hq'
    have hinner : a.inner = true := by cases a <;> first | rfl | cases hown
    have hstep : s.step plan adaptive (.qps a) = some { s with qps := q' } := by
      show (if a.inner then _ else none) = _
      rw [if_pos hinner, hq']
      rfl
    exact (Leads.single (a := .qps a) hown hstep).trans (ih (s := { s with qps := q' }) hrun)

/-- A worker with a holder gets through its `Acquire`. -/
theorem Inv.acquires (h : s.Inv plan adaptive) (hfits : plan.Fits) {w : ℕ} {holder : String}
    (hpc : s.run.exec.pc w = .holding holder) :
    ∃ t, Leads plan adaptive s t ∧ t.run = s.run ∧ t.acquired w = true := by
  have hin : ∀ {s : PacedRun} {i : ℕ}, s.Inv plan adaptive → s.call w = some i →
      ∃ t, Leads plan adaptive s t ∧ t.run = s.run ∧ t.acquired w = true := by
    intro s i h hi
    obtain ⟨q, pc, hreach, hpc, hover⟩ :=
      h.paces.canReturn (List.getElem?_eq_getElem (h.called w i hi))
    refine ⟨_, leads_of_reaches hreach, rfl, ?_⟩
    show ((s.call w).bind fun i => q.calls[i]?).any AcquirePc.over = true
    rw [hi, Option.bind_some, hpc]
    exact hover
  cases hcall : s.call w with
  | some i => exact hin h hcall
  | none =>
    have hstep : s.step plan adaptive (.acquire w tokenScale) = some
        { s with
          qps := s.qps.begin adaptive tokenScale
          call := update s.call w (some s.qps.calls.length) } := by
      show s.acquire adaptive w tokenScale = _
      unfold acquire
      rw [hpc, hcall]
    have hbegin : Leads plan adaptive s _ :=
      Leads.single (a := .acquire w tokenScale) (fun _ => by decide) hstep
    obtain ⟨t, hlead, hrun, hover⟩ := hin (hbegin.inv hfits h) (update_self ..)
    exact ⟨t, hbegin.trans hlead, hrun, hover⟩

/-- Whatever the dispatch machine can do is done sooner or later. -/
theorem Inv.dispatches (h : s.Inv plan adaptive) (hfits : plan.Fits) {a : DispatchAct}
    (hquiet : a.quiet plan) {r : CaseRun} (hr : s.run.step plan a = some r) :
    ∃ t, Leads plan adaptive s t ∧ t.run = r := by
  by_cases ha : ∃ w, a = .runTask w
  · obtain ⟨w, rfl⟩ := ha
    obtain ⟨e, he, -⟩ := Option.map_eq_some_iff.mp hr
    cases Exec.stepped_of_step he with
    | runTask hw hpc =>
      obtain ⟨t, hlead, hrun, hover⟩ := h.acquires hfits hpc
      have hstep : t.step plan adaptive (.dispatch (.runTask w)) = some
          { t with run := r, call := update t.call w none } := by
        show (if t.acquired w then _ else none) = _
        rw [if_pos hover, hrun, hr]
        rfl
      exact ⟨_, hlead.trans (Leads.single (a := .dispatch (.runTask w)) hquiet hstep), rfl⟩
  · have hstep : s.step plan adaptive (.dispatch a) = some { s with run := r } := by
      show s.dispatchStep plan a = _
      rw [dispatchStep_of_ne (not_exists.mp ha), hr]
      rfl
    exact ⟨_, Leads.single (a := .dispatch a) hquiet hstep, rfl⟩

/-- **Every state of a quiet run leads on to the end.** -/
theorem Inv.finishes (h : s.Inv plan adaptive) (hfits : plan.Fits) :
    ∃ t, Leads plan adaptive s t ∧ t.run.exec.Finished plan := by
  induction hwork : s.run.exec.work plan using Nat.strong_induction_on generalizing s with
  | _ n ih =>
    subst hwork
    by_cases hfin : s.run.exec.Finished plan
    · exact ⟨s, Leads.refl s, hfin⟩
    obtain ⟨a, hquiet, ha⟩ := h.dispatch.progress hfits hfin
    obtain ⟨e, he⟩ := Option.isSome_iff_exists.mp ha
    have hr : s.run.step plan a = some _ := Option.map_eq_some_iff.mpr ⟨e, he, rfl⟩
    obtain ⟨t, hlead, hrun⟩ := h.dispatches hfits hquiet hr
    have hlt : t.run.exec.work plan < s.run.exec.work plan := by
      rw [hrun]
      exact (CaseRun.inv_step hfits h.dispatch hquiet hr).2
    obtain ⟨u, hlead', hfin⟩ := ih _ hlt (hlead.inv hfits h) rfl
    exact ⟨u, hlead.trans hlead', hfin⟩

theorem inv_init {p : Params} (hrate : Served (scaledQPS p.targetQPS)) (first : ℤ)
    (index : String → Int) : (init p adaptive first index).Inv plan adaptive where
  dispatch := Exec.inv_init plan index
  paces := ⟨attended_init _, rfl, fun h => absurd rfl h⟩
  target ha := by
    subst ha
    exact hrate
  called := nofun

end PacedRun

/-- **Dispatch is exact.** In every state of every quiet run, no user is dispatched more
often than it should be or has more than a batch of its tasks in flight, sends have room and
waiting workers have something to wait for; no run has more than `maxSteps` steps of the workers and
tasks, every one can be continued to its end, and there every user has been dispatched
`max(RunTime, 1)` times. -/
theorem runCaseInner_dispatch_exact {caseMapContainer : String → Bool} {p : Params}
    {gomaxprocs : ℕ} {plan : RunPlan}
    (hplan : runPlan caseMapContainer p gomaxprocs = .ok plan) (hfits : plan.Fits)
    (hrate : Served (scaledQPS p.targetQPS)) (pressure : Bool) {first : ℤ} {index : String → Int}
    {acts : List PacedAct} {s : PacedRun}
    (hquiet : ∀ a ∈ acts, a.quiet plan (p.adaptiveMode pressure))
    (hrun : run (PacedRun.step plan (p.adaptiveMode pressure))
      (.init p (p.adaptiveMode pressure) first index) acts = some s) :
    (plan.runTime : Int) = max p.runTime.toInt 1 ∧ plan.batchSize ≤ 5 ∧
      s.run.exec.DispatchSound plan ∧
      acts.countP PacedAct.isDispatch ≤ plan.maxSteps ∧
      ∃ t, PacedRun.Leads plan (p.adaptiveMode pressure) s t ∧ t.run.exec.Finished plan ∧
        t.run.exec.DispatchSound plan := by
  obtain ⟨hinv, hbound⟩ := PacedRun.Inv.run hfits acts (PacedRun.inv_init hrate first index) hquiet hrun
  obtain ⟨t, hlead, hfin⟩ := hinv.finishes hfits
  obtain ⟨hu, hp⟩ := runPlan_ok hplan
  refine ⟨?_, plan.batchSize_le_five, hinv.dispatch.dispatchSound hfits, ?_, t, hlead, hfin,
    (hlead.inv hfits hinv).dispatch.dispatchSound hfits⟩
  · rw [hp]
    show (p.runTimeOrOne.toNatClampNeg : Int) = _
    rw [toNatClampNeg_cast p.runTimeOrOne_pos, p.runTimeOrOne_toInt]
  · have hinit : Exec.init.work plan = plan.maxSteps := Exec.work_init plan
    have hle : s.run.exec.work plan + acts.countP PacedAct.isDispatch ≤ Exec.init.work plan := hbound
    omega

/-- Two users with two runs each, one at a time, at 2000 calls a second. -/
def twoUsersLine : Params :=
  { caseName := "login"
    caseIndex := 0
    errorBreak := true
    openIDPrefix := "u"
    openIDStart := 0
    openIDEnd := 2
    targetQPS := 2000
    userBatchCount := 1
    runTime := 2
    extraArgs := [] }

def twoUsersPlan : RunPlan := twoUsersLine.plan 2 (by decide)

/-- Worker `0` receives a holder, and its call `i` of `Acquire` finds a token. -/
def takeHolder (i : ℕ) : List PacedAct :=
  [.dispatch (.check 0), .dispatch (.receive 0), .acquire 0 0] ++ List.replicate 3 (.qps (.advance i)) ++
    [.dispatch (.runTask 0)]

/-- The task of user `k` ends, and the user is sent back. -/
def redispatch (holder : String) (k : ℤ) : List PacedAct :=
  [.dispatch (.load ⟨0, holder, .running⟩), .dispatch (.add ⟨0, holder, .loaded k⟩),
   .dispatch (.send ⟨0, holder, .sending⟩), .dispatch (.close ⟨0, holder, .closing⟩ false)]

/-- The last task of user `k` ends. -/
def lastTask (holder : String) (k : ℤ) : List PacedAct :=
  [.dispatch (.load ⟨0, holder, .running⟩), .dispatch (.add ⟨0, holder, .loaded k⟩),
   .dispatch (.close ⟨0, holder, .closing⟩ false)]

/-- A tick of a millisecond is worth two calls. -/
def twoTokens : List PacedAct :=
  [.qps (.tick 1000000), .qps .refill, .qps .refill, .qps .refill, .qps .refill]

def twoUsersActs : List PacedAct :=
  List.replicate 6 (.dispatch .main) ++ takeHolder 0 ++ redispatch "u0" 0 ++ twoTokens ++ takeHolder 1 ++
    redispatch "u1" 1 ++ takeHolder 2 ++ lastTask "u0" 0 ++ twoTokens ++ takeHolder 3 ++
    lastTask "u1" 1 ++ [.dispatch (.waitAll 0)]

instance (plan : RunPlan) (adaptive : Bool) : ∀ a : PacedAct, Decidable (a.quiet plan adaptive)
  | .dispatch a => inferInstanceAs (Decidable (a.quiet plan))
  | .acquire _ rate => inferInstanceAs (Decidable (adaptive = true → Refills rate))
  | .qps _ => isTrue trivial

theorem twoUsersLine_dispatched_twice :
    ∃ s, run (PacedRun.step twoUsersPlan false) (.init twoUsersLine false 0 fun _ => 0) twoUsersActs
        = some s ∧ s.run.exec.Finished twoUsersPlan ∧
      ∀ i < 2, s.run.exec.dispatched twoUsersPlan i = 2 := by
  have hsome : (run (PacedRun.step twoUsersPlan false) (.init twoUsersLine false 0 fun _ => 0)
      twoUsersActs).map (fun s => (s.run.exec.main, s.run.exec.pc 0)) = some (.running, .returned) := by
    decide +kernel
  obtain ⟨s, hs, hend⟩ := Option.map_eq_some_iff.mp hsome
  obtain ⟨hmain, hpc⟩ := Prod.mk.inj hend
  have hplan : runPlan (fun _ => true) twoUsersLine 2 = .ok twoUsersPlan := rfl
  have hexact := runCaseInner_dispatch_exact hplan ⟨by decide, by decide, by decide⟩ (by decide +kernel)
    false (by decide +kernel) hs
  have hfin : s.run.exec.Finished twoUsersPlan := by
    refine ⟨hmain, fun w hw => ?_⟩
    have hw0 : w = 0 := by
      have hw1 : w < 1 := hw
      omega
    rw [hw0, hpc]
  exact ⟨s, hs, hfin, hexact.2.2.1.finished hfin⟩

/-! ## A worker's total past `int64` -/

/-- Two users with `2 ^ 62` runs each, on one worker. -/
def hugeLine : Params :=
  { caseName := "login"
    caseIndex := 0
    errorBreak := false
    openIDPrefix := "u"
    openIDStart := 0
    openIDEnd := 2
    userBatchCount := 1
    runTime := 4611686018427387904
    extraArgs := [] }

def hugePlan : RunPlan := hugeLine.plan 2 (by decide)

def hugeActs : List PacedAct :=
  List.replicate 6 (.dispatch .main) ++ [.dispatch (.check 0), .dispatch (.receive 0), .acquire 0 0,
    .qps (.advance 0), .dispatch (.runTask 0)] ++ redispatch "u0" 0 ++ [.dispatch (.waitAll 0)]

/-- The worker's `totalTaskCount` wraps to a negative number: after one dispatch all workers
have returned, and the second user has not been dispatched at all. -/
theorem overflow_stops_after_one : runPlan (fun _ => true) hugeLine 2 = .ok hugePlan ∧
    Served (scaledQPS hugeLine.targetQPS) ∧ (∀ a ∈ hugeActs, a.quiet hugePlan false) ∧
    ∃ s, run (PacedRun.step hugePlan false) (.init hugeLine false 0 fun _ => 0) hugeActs = some s ∧
      s.run.exec.Finished hugePlan ∧ s.run.exec.dispatched hugePlan 1 = 0 ∧ hugePlan.runTime = 2 ^ 62 := by
  have hsome : (run (PacedRun.step hugePlan false) (.init hugeLine false 0 fun _ => 0) hugeActs).map
      (fun s => (s.run.exec.main, s.run.exec.pc 0, s.run.exec.dispatched hugePlan 1))
        = some (.running, .returned, 0) := by decide +kernel
  obtain ⟨s, hs, hend⟩ := Option.map_eq_some_iff.mp hsome
  obtain ⟨hmain, hrest⟩ := Prod.mk.inj hend
  obtain ⟨hpc, hzero⟩ := Prod.mk.inj hrest
  refine ⟨rfl, by decide +kernel, by decide +kernel, s, hs, ⟨hmain, fun w hw => ?_⟩, hzero, by decide⟩
  have hw0 : w = 0 := by
    have hw1 : w < 1 := hw
    omega
  rw [hw0, hpc]

end Robot.Case
