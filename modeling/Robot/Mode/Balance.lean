import Robot.Lib.Int64
import Robot.Case.Params
import Robot.Mode.TaskQueue

/-!
# Splitting a stress line over the agents

`distributeSingleCase` (`mode/master/distributor.go`) sends one stress line to the agents
it selects. In `copy` mode each agent gets the whole line; otherwise the range of OpenIDs
is cut into shares of `perAgent = ⌈(end - start) / n⌉` accounts, share `i` for the agent at
position `i`, an agent whose share is empty being passed over, and each share carries
`TargetQPS / n`.

All of it is `int64` arithmetic. This file models the split and says what share `i` is,
in the integers. There are two regimes, told apart by whether the dividend of the ceiling
division, `end - start + n - 1`, fits in an `int64`:

* **it fits** (`fits_…`): `perAgent` is the ceiling, and share `i` is
  `[start + i * perAgent, start + (i + 1) * perAgent)` cut off at `end`, until one of these
  numbers passes the upper limit: a share whose end wraps is passed over, and a share whose
  start wraps too lies at the other end of the `int64`s;
* **it wraps** (`wraps_…`): `perAgent` is zero or negative, and every share is empty but the
  one, if there is one, whose end wraps at the *lower* limit; that one reaches up to `end`.
-/

namespace Robot.Mode

open Robot.Lib Robot.Case

/-! ## The split -/

/-- An entry of `m.agents` as the distributor reads it. -/
structure AgentEntry where
  id : String
  groupID : String
  status : AgentStatus
  deriving DecidableEq, Repr

/-- The parameters of a stress line. -/
abbrev StressParams : Type := Params

/-- An `AgentTask` of a stress line. -/
structure StressTask extends AgentTask where
  caseIndex : ℕ
  params : StressParams

/-- A task and the agent it is enqueued for. -/
structure Assignment where
  agent : String
  task : StressTask

/-- Whether an agent is a target: online or busy, and named, or in the group when none is named. -/
def AgentEntry.selected (targetGroup : String) (targetAgents : List String) (a : AgentEntry) :
    Bool :=
  (a.status == .online || a.status == .busy) &&
    if targetAgents.isEmpty then targetGroup == "" || a.groupID == targetGroup
    else targetAgents.contains a.id

/-- The targets, in the order in which `range m.agents` yields the entries. -/
def selectOnlineAgents (entries : List AgentEntry) (targetGroup : String)
    (targetAgents : List String) : List AgentEntry :=
  entries.filter (AgentEntry.selected targetGroup targetAgents)

/-- `fmt.Sprintf("%s/%d/%s", reportID, caseIndex, agent.ID)`. -/
def taskKey (reportID : String) (caseIndex : ℕ) (agentID : String) : String :=
  reportID ++ "/" ++ toString caseIndex ++ "/" ++ agentID

def stressTask (reportID : String) (caseIndex : ℕ) (params : StressParams) (agent : AgentEntry) :
    Assignment :=
  ⟨agent.id, ⟨⟨taskKey reportID caseIndex agent.id, reportID, true⟩, caseIndex, params⟩⟩

def perAgent (openIDStart openIDEnd : Int64) (n : ℕ) : Int64 :=
  (openIDEnd - openIDStart + Int64.ofNat n - 1) / Int64.ofNat n

def shareStart (openIDStart openIDEnd : Int64) (n i : ℕ) : Int64 :=
  openIDStart + Int64.ofNat i * perAgent openIDStart openIDEnd n

def shareEnd (openIDStart openIDEnd : Int64) (n i : ℕ) : Int64 :=
  let stop := shareStart openIDStart openIDEnd n i + perAgent openIDStart openIDEnd n
  if stop > openIDEnd then openIDEnd else stop

/-- `split`: the line as share `i` of `n`. -/
def StressParams.share (params : StressParams) (n i : ℕ) : StressParams :=
  { params with
    openIDStart := shareStart params.openIDStart params.openIDEnd n i
    openIDEnd := shareEnd params.openIDStart params.openIDEnd n i
    targetQPS := if 0 < params.targetQPS then params.targetQPS / n else params.targetQPS }

/-- The tasks of balance mode. -/
def balanceTasks (reportID : String) (caseIndex : ℕ) (params : StressParams)
    (agents : List AgentEntry) : List Assignment :=
  agents.zipIdx.filterMap fun (agent, i) =>
    let split := params.share agents.length i
    if split.openIDStart ≥ split.openIDEnd then none
    else some (stressTask reportID caseIndex split agent)

/-- The tasks of copy mode. -/
def copyTasks (reportID : String) (caseIndex : ℕ) (params : StressParams)
    (agents : List AgentEntry) : List Assignment :=
  agents.map (stressTask reportID caseIndex params)

/-- `distributeSingleCase` up to the tasks it enqueues; `%q` is the name in quotes. -/
def distributeSingleCase (entries : List AgentEntry) (reportID : String) (caseIndex : ℕ)
    (params : StressParams) (targetGroup : String) (targetAgents : List String)
    (distributeMode : String) : Except String (List Assignment) :=
  let agents := selectOnlineAgents entries targetGroup targetAgents
  if agents.isEmpty then
    if !targetAgents.isEmpty then .error "no online agents matching the specified agent IDs"
    else if targetGroup ≠ "" then .error ("no online agents in group \"" ++ targetGroup ++ "\"")
    else .error "no online agents"
  else if distributeMode = "copy" then .ok (copyTasks reportID caseIndex params agents)
  else .ok (balanceTasks reportID caseIndex params agents)

/-! ## The shares over the integers -/

section Shares

variable {openIDStart openIDEnd : Int64} {n i : ℕ}

/-- The dividend of the ceiling division fits in an `int64`. -/
def DividendFits (openIDStart openIDEnd : Int64) (n : ℕ) : Prop :=
  openIDEnd.toInt - openIDStart.toInt + n - 1 < 2 ^ 63

instance (openIDStart openIDEnd : Int64) (n : ℕ) : Decidable (DividendFits openIDStart openIDEnd n) :=
  inferInstanceAs (Decidable (_ < _))

theorem toInt_shareStart : (shareStart openIDStart openIDEnd n i).toInt =
    i64 (openIDStart.toInt + i * (perAgent openIDStart openIDEnd n).toInt) := by
  unfold shareStart i64
  rw [Int64.toInt_add, Int64.toInt_mul, Int64.toInt_ofNat', Int.add_bmod_bmod,
    ← Int.add_bmod_bmod, Int.bmod_mul_bmod, Int.add_bmod_bmod]
  rfl

theorem toInt_shareEnd : (shareEnd openIDStart openIDEnd n i).toInt =
    min (i64 (openIDStart.toInt + i * (perAgent openIDStart openIDEnd n).toInt +
      (perAgent openIDStart openIDEnd n).toInt)) openIDEnd.toInt := by
  have hstop : (shareStart openIDStart openIDEnd n i + perAgent openIDStart openIDEnd n).toInt =
      i64 (openIDStart.toInt + i * (perAgent openIDStart openIDEnd n).toInt +
        (perAgent openIDStart openIDEnd n).toInt) := by
    rw [Int64.toInt_add, toInt_shareStart]
    exact i64_add_left ..
  rw [← hstop]
  unfold shareEnd
  simp only
  split
  · next h =>
    have hlt := Int64.lt_iff_toInt_lt.mp h
    omega
  · next h =>
    have hle : ¬ openIDEnd.toInt < _ := fun hlt => h (Int64.lt_iff_toInt_lt.mpr hlt)
    omega

theorem toInt_ofCount (hn : n < 2 ^ 63) : (Int64.ofNat n).toInt = n :=
  Int64.toInt_ofNat_of_lt hn

theorem toInt_dividend (hn : n < 2 ^ 63) :
    (openIDEnd - openIDStart + Int64.ofNat n - 1).toInt =
      i64 (openIDEnd.toInt - openIDStart.toInt + n - 1) := by
  unfold i64
  rw [Int64.toInt_sub, Int64.toInt_add, Int64.toInt_sub, toInt_ofCount hn, Int64.toInt_one,
    Int.bmod_sub_bmod, ← Int.bmod_sub_bmod, Int.bmod_add_bmod, Int.bmod_sub_bmod]

/-- Truncated division by a positive number stays between zero and the dividend. -/
theorem tdiv_between (d : ℤ) {k : ℤ} (hk : 0 < k) :
    0 ≤ d ∧ d.tdiv k = d / k ∧ 0 ≤ d / k ∧ d / k ≤ d ∨
      d < 0 ∧ d.tdiv k = -(-d / k) ∧ 0 ≤ -d / k ∧ -d / k ≤ -d := by
  rcases lt_or_ge d 0 with hneg | hpos
  · refine .inr ⟨hneg, ?_, Int.ediv_nonneg (by omega) (by omega), Int.ediv_le_self k (by omega)⟩
    calc d.tdiv k = (- -d).tdiv k := by rw [neg_neg]
      _ = -((-d).tdiv k) := Int.neg_tdiv _ _
      _ = -(-d / k) := by rw [Int.tdiv_eq_ediv_of_nonneg (by omega)]
  · exact .inl ⟨hpos, Int.tdiv_eq_ediv_of_nonneg hpos, Int.ediv_nonneg hpos (by omega),
      Int.ediv_le_self k hpos⟩

/-- The quotient of an `int64` by a positive one fits. -/
theorem toInt_quotient (d : Int64) (hn0 : 0 < n) (hn : n < 2 ^ 63) :
    (d / Int64.ofNat n).toInt = d.toInt.tdiv n := by
  have hlo := Int64.le_toInt d
  have hhi := Int64.toInt_lt d
  rw [Int64.toInt_div, toInt_ofCount hn]
  have hbetween := tdiv_between d.toInt (show (0 : ℤ) < n by omega)
  exact i64_of_fits (by omega) (by omega)

/-- `⌈(end - start) / n⌉`. -/
def ceilShare (openIDStart openIDEnd : Int64) (n : ℕ) : ℤ :=
  (openIDEnd.toInt - openIDStart.toInt + n - 1) / n

/-- The quotient of the dividend once it has wrapped, rounded towards zero. -/
def wrappedShare (openIDStart openIDEnd : Int64) (n : ℕ) : ℤ :=
  (openIDEnd.toInt - openIDStart.toInt + n - 1 - 2 ^ 64).tdiv n

variable (hne : openIDStart < openIDEnd) (hn0 : 0 < n) (hn : n < 2 ^ 63)

include hne hn0 hn

theorem perAgent_of_fits (hfit : DividendFits openIDStart openIDEnd n) :
    (perAgent openIDStart openIDEnd n).toInt = ceilShare openIDStart openIDEnd n := by
  have hlt := Int64.lt_iff_toInt_lt.mp hne
  unfold DividendFits at hfit
  unfold perAgent
  rw [toInt_quotient _ hn0 hn, toInt_dividend hn, i64_of_fits (by omega) hfit,
    Int.tdiv_eq_ediv_of_nonneg (by omega)]
  rfl

omit hne in
theorem perAgent_of_wraps (hwrap : ¬ DividendFits openIDStart openIDEnd n) :
    (perAgent openIDStart openIDEnd n).toInt = wrappedShare openIDStart openIDEnd n := by
  have hlo := Int64.le_toInt openIDStart
  have hhi := Int64.toInt_lt openIDEnd
  unfold DividendFits at hwrap
  unfold perAgent
  rw [toInt_quotient _ hn0 hn, toInt_dividend hn, i64_of_over (by omega) (by omega)]
  rfl

/-- In the first regime `perAgent` is the ceiling of the quotient. -/
theorem fits_perAgent (hfit : DividendFits openIDStart openIDEnd n) :
    0 < (perAgent openIDStart openIDEnd n).toInt ∧
      openIDEnd.toInt - openIDStart.toInt ≤ n * (perAgent openIDStart openIDEnd n).toInt ∧
      n * (perAgent openIDStart openIDEnd n).toInt < openIDEnd.toInt - openIDStart.toInt + n := by
  have hlt := Int64.lt_iff_toInt_lt.mp hne
  have hle := Int.mul_ediv_self_le (x := openIDEnd.toInt - openIDStart.toInt + n - 1)
    (k := n) (by omega)
  have hgt := Int.lt_mul_ediv_self_add (x := openIDEnd.toInt - openIDStart.toInt + n - 1)
    (k := n) (by omega)
  have hp := perAgent_of_fits hne hn0 hn hfit
  unfold ceilShare at hp
  rw [← hp] at hle hgt
  refine ⟨?_, by omega, by omega⟩
  by_contra hneg
  have hmul : (n : ℤ) * (perAgent openIDStart openIDEnd n).toInt ≤ 0 :=
    mul_nonpos_of_nonneg_of_nonpos (by omega) (by omega)
  omega

omit hne in
/-- In the second regime `perAgent` is zero or negative, and not far below zero. -/
theorem wraps_perAgent (hwrap : ¬ DividendFits openIDStart openIDEnd n) :
    (perAgent openIDStart openIDEnd n).toInt ≤ 0 ∧
      -2 ^ 63 ≤ n * (perAgent openIDStart openIDEnd n).toInt ∧
      openIDEnd.toInt - openIDStart.toInt - n * (perAgent openIDStart openIDEnd n).toInt ≤ 2 ^ 64 := by
  have hlo := Int64.le_toInt openIDStart
  have hhi := Int64.toInt_lt openIDEnd
  have hp := perAgent_of_wraps hn0 hn hwrap
  unfold DividendFits at hwrap
  unfold wrappedShare at hp
  rcases tdiv_between (openIDEnd.toInt - openIDStart.toInt + n - 1 - 2 ^ 64)
    (show (0 : ℤ) < n by omega) with ⟨h0, hdiv, -, -⟩ | ⟨h0, hdiv, hpos, hself⟩
  · -- the wrapped dividend is below the divisor
    have hzero : (openIDEnd.toInt - openIDStart.toInt + n - 1 - 2 ^ 64) / n = 0 :=
      Int.ediv_eq_zero_of_lt h0 (by omega)
    rw [hp, hdiv, hzero]
    omega
  · have hle := Int.mul_ediv_self_le
      (x := -(openIDEnd.toInt - openIDStart.toInt + n - 1 - 2 ^ 64)) (k := n) (by omega)
    rw [hp, hdiv, mul_neg]
    omega

end Shares

/-! ## What share `i` is -/

/-- The first regime: `p` is the ceiling of `(e - s) / n`. -/
structure FitsRegime (s e p : ℤ) (n : ℕ) : Prop where
  lo : -2 ^ 63 ≤ s
  lt : s < e
  hi : e < 2 ^ 63
  pos : 0 < p
  enough : e - s ≤ n * p
  tight : n * p < e - s + n
  fit : e - s + n - 1 < 2 ^ 63

/-- The second regime: `p` is what is left of the quotient after the dividend has wrapped. -/
structure WrapsRegime (s e p : ℤ) (n : ℕ) : Prop where
  lo : -2 ^ 63 ≤ s
  lt : s < e
  hi : e < 2 ^ 63
  nonpos : p ≤ 0
  low : -2 ^ 63 ≤ n * p
  near : e - s - n * p ≤ 2 ^ 64

/-- `x` is in share `i`, as the code computes its limits. -/
def InShare (s e p : ℤ) (i : ℕ) (x : ℤ) : Prop :=
  i64 (s + i * p) ≤ x ∧ x < min (i64 (s + i * p + p)) e

theorem mul_add_le_of_lt {p : ℤ} (hp : 0 ≤ p) {i j : ℕ} (h : i < j) :
    (i : ℤ) * p + p ≤ j * p := by
  calc (i : ℤ) * p + p = (i + 1) * p := by ring
    _ ≤ j * p := mul_le_mul_of_nonneg_right (by omega) hp

theorem mul_le_add_of_lt {p : ℤ} (hp : p ≤ 0) {i j : ℕ} (h : i < j) :
    (j : ℤ) * p ≤ i * p + p := by
  calc (j : ℤ) * p ≤ (i + 1) * p := mul_le_mul_of_nonpos_right (by omega) hp
    _ = i * p + p := by ring

namespace FitsRegime

variable {s e p : ℤ} {n i : ℕ} (r : FitsRegime s e p n)

include r

theorem mul_bounds (hi : i < n) : 0 ≤ i * p ∧ i * p + p ≤ n * p ∧ (n : ℤ) * p < 2 ^ 63 := by
  obtain ⟨_, _, _, hpos, _, htight, hfit⟩ := r
  exact ⟨mul_nonneg (by omega) (by omega), mul_add_le_of_lt (by omega) hi, by omega⟩

/-- No limit of the share wraps. -/
theorem inShare_inside (hi : i < n) (h : s + i * p + p < 2 ^ 63) {x : ℤ} :
    InShare s e p i x ↔ s + i * p ≤ x ∧ x < s + i * p + p ∧ x < e := by
  have hmul := r.mul_bounds hi
  obtain ⟨hlo, _, _, hpos, _, _, _⟩ := r
  unfold InShare
  rw [i64_of_fits (by omega) (by omega), i64_of_fits (by omega) h, lt_min_iff]

/-- The end of the share wraps: it is passed over. -/
theorem not_inShare (hi : i < n) (h : s + i * p < 2 ^ 63) (hend : 2 ^ 63 ≤ s + i * p + p) {x : ℤ} :
    ¬ InShare s e p i x := by
  have hmul := r.mul_bounds hi
  obtain ⟨hlo, _, hhi, _, _, _, _⟩ := r
  unfold InShare
  rw [i64_of_fits (by omega) h, i64_of_over hend (by omega), lt_min_iff]
  omega

/-- Both limits wrap: the share lies below all accounts of the line. -/
theorem inShare_wrapped (hi : i < n) (h : 2 ^ 63 ≤ s + i * p) {x : ℤ} :
    InShare s e p i x ↔ s + i * p - 2 ^ 64 ≤ x ∧ x < s + i * p + p - 2 ^ 64 := by
  have hmul := r.mul_bounds hi
  obtain ⟨hlo, _, hhi, hpos, _, _, _⟩ := r
  unfold InShare
  rw [i64_of_over h (by omega), i64_of_over (by omega) (by omega), lt_min_iff]
  omega

end FitsRegime

namespace WrapsRegime

variable {s e p : ℤ} {n i : ℕ} (w : WrapsRegime s e p n)

include w

theorem mul_bounds (hi : i < n) : i * p ≤ 0 ∧ n * p ≤ i * p + p ∧ -2 ^ 63 ≤ (n : ℤ) * p :=
  ⟨mul_nonpos_of_nonneg_of_nonpos (by omega) w.nonpos, mul_le_add_of_lt w.nonpos hi, w.low⟩

/-- The share ends before it starts. -/
theorem not_inShare_above (hi : i < n) (h : -2 ^ 63 ≤ s + i * p + p) {x : ℤ} :
    ¬ InShare s e p i x := by
  have hmul := w.mul_bounds hi
  obtain ⟨_, _, _, hp, _, _⟩ := w
  unfold InShare
  rw [i64_of_fits (by omega) (by omega), i64_of_fits h (by omega), lt_min_iff]
  omega

/-- The end of the share wraps to the top: the share reaches up to the end of the line. -/
theorem inShare_crossing (hi : i < n) (h : s + i * p + p < -2 ^ 63) (hstart : -2 ^ 63 ≤ s + i * p)
    {x : ℤ} : InShare s e p i x ↔ s + i * p ≤ x ∧ x < e := by
  have hmul := w.mul_bounds hi
  obtain ⟨_, _, _, hp, _, hnear⟩ := w
  unfold InShare
  rw [i64_of_fits hstart (by omega), i64_of_under (by omega) h, lt_min_iff]
  omega

/-- Both limits have wrapped: again the share ends before it starts. -/
theorem not_inShare_below (hi : i < n) (h : s + i * p < -2 ^ 63) {x : ℤ} :
    ¬ InShare s e p i x := by
  have hmul := w.mul_bounds hi
  obtain ⟨_, _, _, hp, _, _⟩ := w
  unfold InShare
  rw [i64_of_under (by omega) h, i64_of_under (by omega) (by omega), lt_min_iff]
  omega

end WrapsRegime

end Robot.Mode
