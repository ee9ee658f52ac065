import Robot.Report.PressureBaseline

/-!
# The baseline and the outliers

The latency that the controller compares with is a median of medians: `computeP50` takes the middle
of the samples of a round, and `doBaseline` the middle of the first five rounds that had enough of
them. Rounds with fewer than three samples are thrown away in between, and are not counted.

The rounds are read off the actions (`roundsOf`), without looking at the controller. One bundle,
`Measured`, ties them to its fields: the samples of the open round, the medians of the rounds so
far, and the round at which the baseline is set. What the middle of a majority is
(`sortedAt_majority`) is then used twice, for a round and for the five of them.
-/

namespace Robot.Report

open Robot.Lib List

/-! ## The rounds of a run -/

/-- The samples, round by round. -/
structure Rounds where
  /-- Of the rounds that `detect` has ended. -/
  past : List (List ℕ)
  /-- Of the one that is open. -/
  current : List ℕ
  deriving DecidableEq, Repr

def Rounds.push (r : Rounds) : PressureAction → Rounds
  | .addPending | .donePending => r
  | .recordLatency d => { r with current := r.current ++ [d] }
  | .detect => ⟨r.past ++ [r.current], []⟩

def roundsOf (as : List PressureAction) : Rounds := as.foldl Rounds.push ⟨[], []⟩

/-- The rounds with enough samples. -/
def measuredRounds (as : List PressureAction) : List (List ℕ) :=
  (roundsOf as).past.filter fun r => decide (3 ≤ r.length)

theorem roundsOf_push (as : List PressureAction) (a : PressureAction) :
    roundsOf (as ++ [a]) = (roundsOf as).push a := by
  unfold roundsOf
  rw [foldl_append]
  rfl

theorem measuredRounds_detect (as : List PressureAction) :
    measuredRounds (as ++ [.detect]) = measuredRounds as ++
      if 3 ≤ (roundsOf as).current.length then [(roundsOf as).current] else [] := by
  unfold measuredRounds
  rw [roundsOf_push]
  show List.filter _ ((roundsOf as).past ++ [(roundsOf as).current]) = _
  rw [filter_append, filter_singleton]
  simp only [Bool.cond_decide]

variable {as : List PressureAction} {p : MemoryPressureController}

/-- A round that is too short, or comes after the fifth, is not one of the five. -/
theorem measuredRounds_skip
    (h : 3 ≤ (roundsOf as).current.length → 5 ≤ (measuredRounds as).length) :
    (measuredRounds (as ++ [.detect])).take 5 = (measuredRounds as).take 5 ∧
      (5 ≤ (measuredRounds (as ++ [.detect])).length ↔ 5 ≤ (measuredRounds as).length) := by
  rw [measuredRounds_detect]
  split
  · next hlen =>
    have hfive := h hlen
    refine ⟨take_append_of_le_length hfive, fun _ => hfive, fun _ => ?_⟩
    rw [length_append]
    exact Nat.le_add_right_of_le hfive
  · rw [append_nil]
    exact ⟨rfl, Iff.rfl⟩

theorem measuredRounds_of_ne {a : PressureAction} (h : a ≠ .detect) (as : List PressureAction) :
    measuredRounds (as ++ [a]) = measuredRounds as := by
  unfold measuredRounds
  rw [roundsOf_push]
  cases a with
  | addPending | donePending | recordLatency => rfl
  | detect => exact absurd rfl h

namespace MemoryPressureController

/-! ## What a round leaves alone -/

/-- The fields that say whether samples are taken, which there are, and whether they are needed. -/
structure Intake where
  targetQPS : ℚ
  latencies : List ℕ
  baselineSet : Bool

def intake (p : MemoryPressureController) : Intake := ⟨p.targetQPS, p.latencies, p.baselineSet⟩

variable (p : MemoryPressureController)

theorem updateLevel_intake (x : ℚ) : (p.updateLevel x).intake = p.intake := by
  unfold updateLevel
  split
  · rfl
  · dsimp only
    split_ifs <;> rfl

theorem tested_intake : p.tested.intake = p.intake := by
  obtain ⟨history, h⟩ := p.tested_eq
  rw [h]
  rfl

theorem observed_intake : p.observed.intake = { p.intake with latencies := [] } := by
  obtain ⟨ratio, set, history, h⟩ := p.observed_eq
  rw [h]
  rfl

variable {p : MemoryPressureController}

theorem doPhase_intake (h : p.phase ≠ .baseline) (x : ℚ) (n : ℤ)
    (g : Bool) : (p.doPhase x n g).intake = p.intake := by
  unfold doPhase
  cases hphase : p.phase with
  | disabled => rfl
  | baseline => exact absurd hphase h
  | slowStart =>
    dsimp only [doSlowStart]
    split_ifs <;> rfl
  | probing =>
    rw [← p.tested_intake]
    dsimp only [doProbing]
    split_ifs <;> rfl
  | steady =>
    rw [← p.tested_intake]
    dsimp only [doSteady]
    split_ifs <;> rfl
  | backoff =>
    dsimp only [doBackoff]
    split_ifs <;> rfl

/-- A round empties the samples, and sets no baseline outside its phase. -/
theorem detect_intake (henabled : p.phase ≠ .disabled) (h : ¬ (p.Decides ∧ p.phase = .baseline)) :
    p.detect.intake = { p.intake with latencies := [] } := by
  by_cases hd : p.Decides
  · rw [detect_of_decides hd, updateLevel_intake,
      doPhase_intake (by rw [observed_phase]; exact fun hb => h ⟨hd, hb⟩), observed_intake]
  · unfold detect
    rw [if_neg henabled]
    dsimp only
    rw [if_pos (by_contra fun hlen => hd ⟨henabled, Nat.not_lt.mp hlen⟩)]
    rfl

/-- A round of the baseline phase adds its median, and the fifth of them sets the baseline. -/
theorem doBaseline_intake (x : ℚ) : (p.doBaseline x).intake =
    { p.intake with baselineSet := decide (5 ≤ p.baselineCollecting + 1) || p.baselineSet } := by
  unfold doBaseline baselineWindowCount
  dsimp only
  split
  · next h => rw [decide_eq_true h]; rfl
  · next h => rw [decide_eq_false h]; rfl

theorem doBaseline_p50s (x : ℚ) : (p.doBaseline x).baselineP50s = p.baselineP50s ++ [x] := by
  unfold doBaseline
  dsimp only
  split <;> rfl

theorem doBaseline_phase (x : ℚ) :
    (p.doBaseline x).phase = if 5 ≤ p.baselineCollecting + 1 then .slowStart else p.phase := by
  unfold doBaseline baselineWindowCount
  dsimp only
  split <;> rfl

/-- The round as a whole. -/
theorem detect_of_baseline (hd : p.Decides) (hphase : p.phase = .baseline) :
    p.detect = (p.observed.doBaseline p.p50ns).updateLevel p.p50ns := by
  rw [detect_of_decides hd]
  unfold doPhase
  rw [observed_phase, hphase]

end MemoryPressureController

/-- No move switches the controller off. -/
theorem Verdict.apply_disabled {v : Verdict} {r : Rates} (h : (v.apply r).phase = .disabled) :
    r.phase = .disabled := by
  cases v with
  | hold | warn | grow | probe | edge | ease | fallBack | accept | raise => exact h
  | start | confirm | backOff | settle | resume => cases h

open MemoryPressureController

/-! ## The controller holds the rounds -/

/-- The controller after the actions `as`. -/
structure Measured (as : List PressureAction) (p : MemoryPressureController) : Prop where
  adaptive : ¬ p.targetQPS > 0
  enabled : p.phase ≠ .disabled
  samples : p.latencies = (roundsOf as).current
  medians : p.baselineP50s = ((measuredRounds as).take 5).map fun r => (computeP50 r : ℚ)
  collecting : p.phase = .baseline ↔ (measuredRounds as).length < 5
  set : p.baselineSet = true ↔ 5 ≤ (measuredRounds as).length
  baselined : Baselined p

theorem measured_init : Measured [] adaptiveController where
  adaptive := lt_irrefl _
  enabled := nofun
  samples := rfl
  medians := rfl
  collecting := ⟨fun _ => Nat.zero_lt_succ 4, fun _ => rfl⟩
  set := ⟨nofun, fun h => absurd h (Nat.not_succ_le_zero 4)⟩
  baselined := baselined_init

/-- A round that is not one of the five leaves the baseline as it is. -/
theorem Measured.skip (h : Measured as p)
    (hno : ¬ (p.Decides ∧ p.phase = .baseline)) : Measured (as ++ [.detect]) p.detect := by
  have hintake := detect_intake h.enabled hno
  have hbase := detect_baseline hno
  have hphase : p.detect.phase = .baseline ↔ p.phase = .baseline := by
    rw [show p.detect.phase = _ from congrArg Rates.phase p.detect_rates]
    refine ⟨Verdict.apply_baseline, fun hp => ?_⟩
    have hhold : p.verdict = .hold := by
      unfold verdict
      rw [if_neg fun hd => hno ⟨hd, hp⟩]
    rw [hhold]
    exact hp
  have hlate : 3 ≤ (roundsOf as).current.length → 5 ≤ (measuredRounds as).length := by
    intro hlen
    by_contra hlt
    exact hno ⟨⟨h.enabled, h.samples ▸ hlen⟩, h.collecting.mpr (Nat.not_le.mp hlt)⟩
  obtain ⟨htake, hlength⟩ := measuredRounds_skip hlate
  exact {
    adaptive := by
      rw [show p.detect.targetQPS = p.targetQPS from congrArg Intake.targetQPS hintake]
      exact h.adaptive
    enabled := by
      rw [show p.detect.phase = _ from congrArg Rates.phase p.detect_rates]
      exact fun hdis => h.enabled (Verdict.apply_disabled hdis)
    samples := by
      rw [roundsOf_push]
      exact congrArg Intake.latencies hintake
    medians := by
      rw [htake, ← h.medians]
      exact congrArg BaselineData.p50s hbase
    collecting := by rw [hphase, h.collecting, ← Nat.not_le, ← Nat.not_le, hlength]
    set := by
      rw [show p.detect.baselineSet = p.baselineSet from congrArg Intake.baselineSet hintake, h.set,
        hlength]
    baselined := h.baselined.detect }

/-- One of the five rounds. -/
theorem Measured.collect (h : Measured as p)
    (hd : p.Decides) (hphase : p.phase = .baseline) : Measured (as ++ [.detect]) p.detect := by
  have hlt := h.collecting.mp hphase
  have hround : measuredRounds (as ++ [.detect]) = measuredRounds as ++ [p.latencies] := by
    rw [measuredRounds_detect, ← h.samples, if_pos hd.2]
  have hcount : p.baselineCollecting = (measuredRounds as).length := by
    rw [← h.baselined.length, h.medians, length_map, length_take]
    omega
  have hlength : (measuredRounds (as ++ [.detect])).length = p.baselineCollecting + 1 := by
    rw [hround, length_append, hcount]
    rfl
  have hobs : p.observed.baselineCollecting = p.baselineCollecting :=
    congrArg BaselineData.collecting p.observed_baseline
  have hdetect := detect_of_baseline hd hphase
  have hintake : p.detect.intake = { p.intake with
      latencies := [], baselineSet := decide (5 ≤ p.baselineCollecting + 1) || p.baselineSet } := by
    rw [hdetect, updateLevel_intake, doBaseline_intake, hobs,
      show p.observed.baselineSet = p.baselineSet from
        congrArg Intake.baselineSet p.observed_intake, observed_intake]
  have hp50s : p.detect.baselineP50s = p.baselineP50s ++ [p.p50ns] := by
    rw [hdetect, show MemoryPressureController.baselineP50s _ = _ from
      congrArg BaselineData.p50s (updateLevel_baseline _ _)]
    show (p.observed.doBaseline p.p50ns).baselineP50s = _
    rw [doBaseline_p50s, show p.observed.baselineP50s = p.baselineP50s from
      congrArg BaselineData.p50s p.observed_baseline]
  have hnext : p.detect.phase = if 5 ≤ p.baselineCollecting + 1 then .slowStart else .baseline := by
    rw [hdetect, show MemoryPressureController.phase _ = _ from
      congrArg Rates.phase (updateLevel_rates _ _)]
    show (p.observed.doBaseline p.p50ns).phase = _
    rw [doBaseline_phase, hobs, observed_phase, hphase]
  exact {
    adaptive := by
      rw [show p.detect.targetQPS = p.targetQPS from congrArg Intake.targetQPS hintake]
      exact h.adaptive
    enabled := by
      rw [hnext]
      split <;> nofun
    samples := by
      rw [roundsOf_push]
      exact congrArg Intake.latencies hintake
    medians := by
      rw [hp50s, hround, take_of_length_le (by rw [← hround, hlength]; omega), map_append,
        h.medians, take_of_length_le (by omega)]
      rfl
    collecting := by
      rw [hnext, hlength]
      split
      · next hfull => exact ⟨nofun, fun hless => absurd hfull (Nat.not_le.mpr hless)⟩
      · next hless => exact ⟨fun _ => Nat.not_le.mp hless, fun _ => rfl⟩
    set := by
      have hunset : p.baselineSet = false := by
        rw [← Bool.not_eq_true, h.set]
        exact Nat.not_le.mpr hlt
      rw [show p.detect.baselineSet = _ from congrArg Intake.baselineSet hintake, hlength]
      show (decide (5 ≤ p.baselineCollecting + 1) || p.baselineSet) = true ↔ _
      rw [hunset, Bool.or_false, decide_eq_true_eq]
    baselined := h.baselined.detect }

/-- **One action.** -/
theorem Measured.step {q : MemoryPressureController}
    {a : PressureAction} (h : Measured as p) (hstep : p.step a = some q) :
    Measured (as ++ [a]) q := by
  have hsame : a ≠ .detect → measuredRounds (as ++ [a]) = measuredRounds as :=
    fun ha => measuredRounds_of_ne ha as
  have hbase := h.baselined.step hstep
  cases a with
  | addPending | donePending =>
    cases hstep
    refine ⟨h.adaptive, h.enabled, ?_, ?_, ?_, ?_, hbase⟩
    · rw [roundsOf_push]
      exact h.samples
    · rw [hsame nofun]
      exact h.medians
    · rw [hsame nofun]
      exact h.collecting
    · rw [hsame nofun]
      exact h.set
  | recordLatency d =>
    cases hstep
    have hrecord : p.recordLatency d = { p with latencies := p.latencies ++ [d] } := by
      unfold recordLatency
      rw [if_neg h.adaptive]
    rw [hrecord] at hbase ⊢
    refine ⟨h.adaptive, h.enabled, ?_, ?_, ?_, ?_, hbase⟩
    · rw [roundsOf_push]
      exact congrArg (· ++ [d]) h.samples
    · rw [hsame nofun]
      exact h.medians
    · rw [hsame nofun]
      exact h.collecting
    · rw [hsame nofun]
      exact h.set
  | detect =>
    cases hstep
    by_cases hround : p.Decides ∧ p.phase = .baseline
    · exact h.collect hround.1 hround.2
    · exact h.skip hround

theorem measured_run
    (hrun : run MemoryPressureController.step adaptiveController as = some p) : Measured as p :=
  run_inv_history (P := fun _ _ => True) (fun _ _ _ _ h _ hstep => h.step hstep) as []
    measured_init (along_trivial as _) hrun

/-! ## The majority -/

/-- The samples of a round that lie in `[a, b]`. -/
def inside (a b : ℚ) (round : List ℕ) : ℕ :=
  round.countP fun d : ℕ => decide (a ≤ d ∧ (d : ℚ) ≤ b)

/-- Most samples of the round do. -/
def Mostly (a b : ℚ) (round : List ℕ) : Prop := round.length < 2 * inside a b round

instance Mostly.decidable (a b : ℚ) (round : List ℕ) : Decidable (Mostly a b round) :=
  inferInstanceAs (Decidable (_ < _))

/-- The median of a round is where most of its samples are. -/
theorem Mostly.computeP50 {a b : ℚ} {round : List ℕ} (h : Mostly a b round) :
    a ≤ (MemoryPressureController.computeP50 round : ℚ) ∧
      (MemoryPressureController.computeP50 round : ℚ) ≤ b := by
  refine of_decide_eq_true (sortedAt_majority (P := fun d : ℕ => decide (a ≤ d ∧ (d : ℚ) ≤ b)) 0 ?_ h)
  intro x y z hxy hyz hx hz
  have hxy' : (x : ℚ) ≤ y := Nat.cast_le.mpr hxy
  have hyz' : (y : ℚ) ≤ z := Nat.cast_le.mpr hyz
  rw [decide_eq_true_eq] at hx hz ⊢
  exact ⟨hx.1.trans hxy', hyz'.trans hz.2⟩

/-- The median of the rounds is where most of their medians are. -/
theorem median_inside {a b : ℚ} {l : List ℚ} (h : l.length < 2 * l.countP fun x => decide (a ≤ x ∧ x ≤ b)) :
    a ≤ sortedAt l (l.length / 2) 0 ∧ sortedAt l (l.length / 2) 0 ≤ b := by
  refine of_decide_eq_true (sortedAt_majority (P := fun x => decide (a ≤ x ∧ x ≤ b)) 0 ?_ h)
  intro x y z hxy hyz hx hz
  rw [decide_eq_true_eq] at hx hz ⊢
  exact ⟨hx.1.trans hxy, hyz.trans hz.2⟩

/-- **The baseline resists outliers.** It is set at the fifth round of three samples or more, by the
first five of them alone, and lies wherever three of the five have most of their samples. -/
theorem baseline_resists_outliers {as : List PressureAction} {p : MemoryPressureController}
    (hrun : run MemoryPressureController.step adaptiveController as = some p) :
    (p.baselineSet = true ↔ 5 ≤ (measuredRounds as).length) ∧
      (p.baselineSet = true →
        p.baselineP50 = sortedAt (((measuredRounds as).take 5).map fun r => (computeP50 r : ℚ)) 2 0) ∧
      ∀ a b : ℚ, p.baselineSet = true →
        3 ≤ ((measuredRounds as).take 5).countP (fun r => decide (Mostly a b r)) →
          a ≤ p.baselineP50 ∧ p.baselineP50 ≤ b := by
  have h := measured_run hrun
  have hmedian : p.baselineSet = true →
      p.baselineP50 = sortedAt (((measuredRounds as).take 5).map fun r => (computeP50 r : ℚ)) 2 0 := by
    intro hset
    have hphase : p.phase ≠ .baseline := fun hp =>
      absurd (h.set.mp hset) (Nat.not_le.mpr (h.collecting.mp hp))
    rw [(h.baselined.median ⟨h.enabled, hphase⟩).2, h.medians]
  refine ⟨h.set, hmedian, fun a b hset hthree => ?_⟩
  have hlen : (((measuredRounds as).take 5).map fun r => (computeP50 r : ℚ)).length = 5 := by
    rw [length_map, length_take]
    exact Nat.min_eq_left (h.set.mp hset)
  have hmost : 3 ≤ (((measuredRounds as).take 5).map fun r => (computeP50 r : ℚ)).countP
      fun x => decide (a ≤ x ∧ x ≤ b) := by
    rw [countP_map]
    refine hthree.trans (countP_mono_left fun r _ hr => ?_)
    exact decide_eq_true (of_decide_eq_true hr : Mostly a b r).computeP50
  have hin := median_inside (a := a) (b := b) (by rw [hlen]; omega)
  rw [hlen] at hin
  rw [hmedian hset]
  exact hin

/-- Three rounds around `100`, two outliers and a round without samples. -/
def outlierRounds : List PressureAction :=
  uniformRound 100 ++ uniformRound 9000 ++ [.addPending, .detect] ++ uniformRound 101 ++
    uniformRound 0 ++ uniformRound 99

theorem outlier_rounds_baseline :
    ∃ p, run MemoryPressureController.step adaptiveController outlierRounds = some p ∧
      p.baselineSet = true ∧ 99 ≤ p.baselineP50 ∧ p.baselineP50 ≤ 101 := by
  obtain ⟨p, hrun⟩ : ∃ p, run MemoryPressureController.step adaptiveController outlierRounds = some p :=
    ⟨_, rfl⟩
  obtain ⟨hset, -, hin⟩ := baseline_resists_outliers hrun
  have hfive : p.baselineSet = true := hset.mpr (by decide +kernel)
  exact ⟨p, hrun, hfive, hin 99 101 hfive (by decide +kernel)⟩

end Robot.Report
