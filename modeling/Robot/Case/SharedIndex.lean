import Robot.Case.Placement

/-!
# Case lines that run at the same time

Lines marked `&` run in goroutines of their own (`RunCaseFileStandAlone`, `StartSolo`), and
the holders of their users are the same objects wherever their OpenIDs are the same. Each
run stores the position a user has *in its own range*, so a user that stands at different
positions in two ranges has one cell and two right answers: whichever run stored last wins,
and the callbacks of the other read a record of somebody else, or panic.

`CaseRuns` is any number of runs on one set of cells. The condition under which every
callback reads its own user's record is that no OpenID stands at two different positions
(`SamePositions`), which for lines with one prefix means that their ranges start at the
same number or do not meet (`samePositions_iff`), and that the positions fit into `int32`.
The proof is one step lemma: a run keeps its own holders in place (`Placed.step`), and the
store of another run into one of its cells stores what is already there.
-/

namespace Robot.Case

open Robot.Lib Function

/-- Runs of `RunCaseInner` on the cells of one process. -/
structure CaseRuns (κ : Type) where
  index : String → Int
  exec : κ → Exec

variable {κ : Type} [DecidableEq κ]

def CaseRuns.init (index : String → Int) : CaseRuns κ := { index := index, exec := fun _ => Exec.init }

/-- One step of one of the runs. -/
def CaseRuns.step (plans : κ → RunPlan) (s : CaseRuns κ) (a : κ × DispatchAct) :
    Option (CaseRuns κ) :=
  ((s.exec a.1).step (plans a.1) s.index a.2).map fun exec =>
    { index := storeIndex s.index ((s.exec a.1).writes (plans a.1) a.2)
      exec := update s.exec a.1 exec }

/-- Every callback that has read a position reads a record of `userCaseDatas`, and the record
is that of the task's user. -/
def Exec.ReadsOwn (plan : RunPlan) (s : Exec) : Prop :=
  ∀ t ∈ s.tasks, ∀ k, t.phase = .loaded k →
    0 ≤ k ∧ k < plan.userCount ∧ plan.openId k.toNat = t.holder

/-- No OpenID stands at two different positions of the two ranges. -/
def SamePositions (p q : Params) : Prop :=
  ∀ i < p.userCount.toNatClampNeg, ∀ j < q.userCount.toNatClampNeg, p.openId i = q.openId j → i = j

/-- Lines with one prefix agree on positions when they start at the same number, or when
no number is in both ranges. -/
theorem samePositions_iff {p q : Params} (hpre : p.openIDPrefix = q.openIDPrefix) :
    SamePositions p q ↔ p.openIDStart = q.openIDStart ∨
      ∀ i < p.userCount.toNatClampNeg, ∀ j < q.userCount.toNatClampNeg,
        p.openIDStart + Int64.ofNat i ≠ q.openIDStart + Int64.ofNat j := by
  constructor
  · intro h
    by_cases hmeet : ∃ i < p.userCount.toNatClampNeg, ∃ j < q.userCount.toNatClampNeg,
        p.openIDStart + Int64.ofNat i = q.openIDStart + Int64.ofNat j
    · obtain ⟨i, hi, j, hj, hij⟩ := hmeet
      have hid : p.openId i = q.openId j := by unfold Params.openId; rw [hpre, hij]
      rw [h i hi j hj hid] at hij
      exact Or.inl (Int64.add_left_inj _ |>.mp hij)
    · exact Or.inr fun i hi j hj hij => hmeet ⟨i, hi, j, hj, hij⟩
  · intro h i hi j hj hid
    unfold Params.openId at hid
    rw [hpre] at hid
    have hnum := formatInt_inj ((String.append_right_inj _).mp hid)
    rcases h with hstart | hapart
    · refine q.openId_inj (Nat.lt_trans hi (toNatClampNeg_lt _)) (Nat.lt_trans hj (toNatClampNeg_lt _)) ?_
      unfold Params.openId
      rw [← hnum, hstart]
    · exact absurd hnum (hapart i hi j hj)

/-! ## One step of one run, seen by all -/

variable {plans : κ → RunPlan} {s s' : CaseRuns κ}

/-- Every run has its holders in place. -/
def CaseRuns.Placed (plans : κ → RunPlan) (s : CaseRuns κ) : Prop :=
  ∀ k, (s.exec k).Placed (plans k) s.index

/-- A record read through a cell in its place is the right one. -/
theorem Exec.Placed.readsOwn {plan : RunPlan} {index : String → Int} {e : Exec}
    (h : e.Placed plan index) : e.ReadsOwn plan := by
  intro t ht k hk
  obtain ⟨i, hi, _, ho, hload⟩ := h.housed.task t ht
  have hi' : i < plan.userCount := Nat.lt_of_lt_of_le hi h.le
  rw [hload k hk]
  refine ⟨by omega, by omega, ?_⟩
  rw [ho, Int.toNat_natCast]

/-- What a run stores at its step is a position other runs agree on, so their cells stay. -/
theorem storeIndex_agrees {plan plan' : RunPlan} {index : String → Int} {e e' : Exec}
    {a : DispatchAct} (hU : plan.userCount ≤ 2 ^ 31) (hle : plan.stored e.main ≤ plan.userCount)
    (hs : e.Stepped plan index a e')
    (hsame : ∀ i < plan.userCount, ∀ j < plan'.userCount, plan.openId i = plan'.openId j → i = j)
    {j : Nat} (hj : j < plan'.userCount) (hcell : index (plan'.openId j) = j) :
    storeIndex index (e.writes plan a) (plan'.openId j) = j := by
  rcases hs.stored hle with ⟨i, hi, _, _, hw⟩ | ⟨hw, _⟩
  · rw [hw]
    show update index (plan.openId i) (i32 i) (plan'.openId j) = j
    by_cases hid : plan'.openId j = plan.openId i
    · rw [hid, update_self, ← hsame i hi j hj hid.symm]
      exact i32_of_lt (by omega) (by omega)
    · rw [update_of_ne hid]
      exact hcell
  · rw [hw]
    exact hcell

/-- **A step of any run keeps the holders of all runs in place.** -/
theorem CaseRuns.Placed.step {a : κ × DispatchAct} (hU : ∀ k, (plans k).userCount ≤ 2 ^ 31)
    (hsame : ∀ k k', ∀ i < (plans k).userCount, ∀ j < (plans k').userCount,
      (plans k).openId i = (plans k').openId j → i = j)
    (hp : s.Placed plans) (h : s.step plans a = some s') : s'.Placed plans := by
  obtain ⟨e, he, hs'⟩ := Option.map_eq_some_iff.mp h
  have hs := Exec.stepped_of_step he
  subst hs'
  intro k
  show (update s.exec a.1 e k).Placed (plans k) _
  by_cases hk : k = a.1
  · rw [hk, update_self]
    exact (hp a.1).step (hU a.1) hs
  · rw [update_of_ne hk]
    refine (hp k).frame fun j hj => ?_
    have hcell := (hp k).cell j hj
    rw [hcell]
    exact storeIndex_agrees (hU a.1) (hp a.1).le hs (hsame a.1 k)
      (Nat.lt_of_lt_of_le hj (hp k).le) hcell

/-- **Completion accounting stays with the right user**, in every state of every
interleaving of any number of runs, when no OpenID stands at two different positions of
their ranges and no range has more than `2 ^ 31` users. -/
theorem onFinish_reads_own_record {caseMapContainer : String → Bool} {gomaxprocs : Nat}
    {p : κ → Params} (hplan : ∀ k, runPlan caseMapContainer (p k) gomaxprocs = .ok (plans k))
    (hU : ∀ k, (p k).userCount.toInt ≤ 2 ^ 31) (hsame : ∀ k k', SamePositions (p k) (p k'))
    {index : String → Int} {acts : List (κ × DispatchAct)}
    (hrun : run (CaseRuns.step plans) (CaseRuns.init index) acts = some s) :
    ∀ k, (s.exec k).ReadsOwn (plans k) := by
  have hof : ∀ k, (plans k).userCount = (p k).userCount.toNatClampNeg ∧
      (plans k).openId = (p k).openId ∧ (plans k).userCount ≤ 2 ^ 31 := by
    intro k
    obtain ⟨hu, hk⟩ := runPlan_ok (hplan k)
    have hcast := toNatClampNeg_cast hu
    have hle := hU k
    rw [hk]
    refine ⟨rfl, rfl, ?_⟩
    show (p k).userCount.toNatClampNeg ≤ 2 ^ 31
    omega
  have hagree : ∀ k k', ∀ i < (plans k).userCount, ∀ j < (plans k').userCount,
      (plans k).openId i = (plans k').openId j → i = j := by
    intro k k' i hi j hj hij
    rw [(hof k).1] at hi
    rw [(hof k').1] at hj
    rw [(hof k).2.1, (hof k').2.1] at hij
    exact hsame k k' i hi j hj hij
  have hplaced : s.Placed plans :=
    run_inv_all (fun t a t' (hp : CaseRuns.Placed plans t) ht =>
      CaseRuns.Placed.step (fun k => (hof k).2.2) hagree hp ht) acts
      (fun k => Exec.placed_init (plans k) index) hrun
  intro k
  exact (hplaced k).readsOwn

/-! ## Two overlapping lines -/

/-- One run for each of the users `u` followed by a number of the range. -/
def sampleLine (openIDStart openIDEnd : Int64) : Params :=
  { caseName := "login"
    caseIndex := 0
    errorBreak := false
    openIDPrefix := "u"
    openIDStart := openIDStart
    openIDEnd := openIDEnd
    userBatchCount := 1
    runTime := 1
    extraArgs := [] }

/-- Two lines that start at the same number. -/
def alignedLines : Bool → Params
  | false => sampleLine 0 2
  | true => sampleLine 0 3

def alignedPlans : Bool → RunPlan
  | false => (sampleLine 0 2).plan 2 (by decide)
  | true => (sampleLine 0 3).plan 2 (by decide)

/-- Two lines that meet but start at different numbers. -/
def shiftedLines : Bool → Params
  | false => sampleLine 0 2
  | true => sampleLine 1 3

def shiftedPlans : Bool → RunPlan
  | false => (sampleLine 0 2).plan 2 (by decide)
  | true => (sampleLine 1 3).plan 2 (by decide)

/-- The first line is set up, the second stores its first position, and the first line's
two tasks are started; the callback of the second one looks its record up. -/
def crossing : List (Bool × DispatchAct) :=
  List.replicate 6 (false, .main) ++ [(true, .main)] ++
    [(false, .check 0), (false, .receive 0), (false, .runTask 0),
     (false, .check 0), (false, .receive 0), (false, .runTask 0),
     (false, .load ⟨0, "u1", .running⟩)]

theorem aligned_reads_own : ∃ s, run (CaseRuns.step alignedPlans) (CaseRuns.init fun _ => 0) crossing
    = some s ∧ ∀ k, (s.exec k).ReadsOwn (alignedPlans k) := by
  have hsome : (run (CaseRuns.step alignedPlans) (CaseRuns.init fun _ => 0) crossing).isSome := by
    decide +kernel
  obtain ⟨s, hs⟩ := Option.isSome_iff_exists.mp hsome
  have hplan : ∀ k, runPlan (fun _ => true) (alignedLines k) 2 = .ok (alignedPlans k) := by
    intro k
    cases k <;> rfl
  have hsame : ∀ k k', SamePositions (alignedLines k) (alignedLines k') := by
    intro k k'
    refine (samePositions_iff ?_).mpr (Or.inl ?_) <;> cases k <;> cases k' <;> rfl
  exact ⟨s, hs, onFinish_reads_own_record hplan (by decide) hsame hs⟩

/-- User `u1` stands at position `1` of the first line and at position `0` of the second:
its callback in the first line reads the record of `u0`. -/
theorem shifted_reads_other : (∀ k, runPlan (fun _ => true) (shiftedLines k) 2 = .ok (shiftedPlans k)) ∧
    ∃ s, run (CaseRuns.step shiftedPlans) (CaseRuns.init fun _ => 0) crossing = some s ∧
      ¬ (s.exec false).ReadsOwn (shiftedPlans false) := by
  have htasks : (run (CaseRuns.step shiftedPlans) (CaseRuns.init fun _ => 0) crossing).map
      (fun s => (s.exec false).tasks) = some [⟨0, "u1", .loaded 0⟩, ⟨0, "u0", .running⟩] := by
    decide +kernel
  obtain ⟨s, hs, ht⟩ := Option.map_eq_some_iff.mp htasks
  refine ⟨fun k => by cases k <;> rfl, s, hs, fun hown => ?_⟩
  have hread := hown ⟨0, "u1", .loaded 0⟩ (by rw [ht]; exact List.mem_cons_self) 0 rfl
  have hne : ¬ (shiftedPlans false).openId (Int.toNat 0) = "u1" := by decide +kernel
  exact hne hread.2.2

end Robot.Case
