import Robot.Report.PressureRates

/-!
# Quotients by the baseline

Every ratio of the pressure controller is a quotient by `baselineP50`, the median of the latencies
of five rounds. Four of the five places that take it ask first whether it is positive; slow start
does not. So a quotient by zero is taken exactly in a slow start whose baseline is zero, and a
median of five is zero exactly if at least three of the five are (`sortedAt_le_iff`).
-/

namespace Robot.Report

open Robot.Lib List

namespace MemoryPressureController

/-! ## What a round divides by -/

/-- Whatever was divided by since `p` was positive. -/
def DividesSince (p q : MemoryPressureController) : Prop :=
  ∀ b ∈ q.dividedBy, b ∈ p.dividedBy ∨ 0 < b

variable {p : MemoryPressureController}

theorem DividesSince.of_eq {q : MemoryPressureController} (h : q.dividedBy = p.dividedBy) :
    DividesSince p q := fun _ hb => .inl (h ▸ hb)

theorem DividesSince.trans {q r : MemoryPressureController} (h : DividesSince p q)
    (h' : DividesSince q r) : DividesSince p r := by
  intro b hb
  rcases h' b hb with hb | hb
  · exact h b hb
  · exact .inr hb

theorem DividesSince.divided (h : 0 < p.baselineP50) :
    DividesSince p p.divided := by
  intro b hb
  rcases mem_cons.mp hb with rfl | hb
  · exact .inr h
  · exact .inl hb

theorem DividesSince.tested (p : MemoryPressureController) : DividesSince p p.tested := by
  unfold MemoryPressureController.tested
  split
  · next h => exact .divided h
  · exact .of_eq rfl

theorem DividesSince.smooth (p : MemoryPressureController) (x : ℚ) :
    DividesSince p (p.smooth x) := by
  unfold MemoryPressureController.smooth
  split
  · next h =>
    obtain ⟨ratio, set, heq⟩ := p.divided.updateSmoothedRatio_eq (x / p.baselineP50)
    rw [heq]
    exact .divided h.2
  · exact .of_eq rfl

theorem DividesSince.updateLevel (p : MemoryPressureController) (x : ℚ) :
    DividesSince p (p.updateLevel x) := by
  unfold MemoryPressureController.updateLevel
  split
  · exact .of_eq rfl
  · next h =>
    have hpos : 0 < p.baselineP50 := not_le.mp fun hle => h (.inr hle)
    dsimp only
    split_ifs <;> exact .divided hpos

theorem doProbing_dividedBy (p : MemoryPressureController) (x : ℚ) (g : Bool) :
    (p.doProbing x g).dividedBy = p.tested.dividedBy := by
  unfold doProbing
  dsimp only
  split_ifs <;> rfl

theorem doSteady_dividedBy (p : MemoryPressureController) (x : ℚ) (g : Bool) :
    (p.doSteady x g).dividedBy = p.tested.dividedBy := by
  unfold doSteady
  dsimp only
  split_ifs <;> rfl

theorem doSlowStart_dividedBy (p : MemoryPressureController) (x : ℚ) (n : ℤ) (g : Bool) :
    (p.doSlowStart x n g).dividedBy = p.baselineP50 :: p.dividedBy := by
  unfold doSlowStart
  dsimp only
  split_ifs <;> rfl

theorem doBaseline_dividedBy (p : MemoryPressureController) (x : ℚ) :
    (p.doBaseline x).dividedBy = p.dividedBy := by
  unfold doBaseline
  dsimp only
  split_ifs <;> rfl

theorem doBackoff_dividedBy (p : MemoryPressureController) : p.doBackoff.dividedBy = p.dividedBy := by
  unfold doBackoff
  dsimp only
  split_ifs <;> rfl

/-- Outside slow start, the `switch` asks first. -/
theorem DividesSince.doPhase (h : p.phase ≠ .slowStart) (x : ℚ) (n : ℤ)
    (g : Bool) : DividesSince p (p.doPhase x n g) := by
  unfold MemoryPressureController.doPhase
  cases hphase : p.phase with
  | disabled => exact .of_eq rfl
  | baseline => exact .of_eq (doBaseline_dividedBy p x)
  | slowStart => exact absurd hphase h
  | probing => exact (DividesSince.tested p).trans (.of_eq (doProbing_dividedBy p x g))
  | steady => exact (DividesSince.tested p).trans (.of_eq (doSteady_dividedBy p x g))
  | backoff => exact .of_eq (doBackoff_dividedBy p)

theorem DividesSince.observed (p : MemoryPressureController) : DividesSince p p.observed :=
  DividesSince.smooth { p with latencies := [] } p.p50ns

/-- **A round** divides by positive baselines, but for slow start. -/
theorem DividesSince.detect
    (h : p.Decides → p.phase = .slowStart → 0 < p.baselineP50) : DividesSince p p.detect := by
  by_cases hd : p.Decides
  · rw [detect_of_decides hd]
    refine DividesSince.trans ?_ (.updateLevel _ _)
    refine (DividesSince.observed p).trans ?_
    by_cases hphase : p.phase = .slowStart
    · unfold MemoryPressureController.doPhase
      rw [observed_phase, hphase]
      dsimp only
      have hpos : 0 < p.observed.baselineP50 := by
        rw [observed_baselineP50]
        exact h hd hphase
      exact (DividesSince.divided hpos).trans (.of_eq (doSlowStart_dividedBy _ _ _ _))
    · exact .doPhase (by rwa [observed_phase]) _ _ _
  · rcases detect_of_not_decides hd with he | he <;> rw [he] <;> exact .of_eq rfl

/-- The history only grows. -/
theorem mem_updateLevel {b x : ℚ} (h : b ∈ p.dividedBy) :
    b ∈ (p.updateLevel x).dividedBy := by
  unfold updateLevel
  split
  · exact h
  · dsimp only
    split_ifs <;> exact mem_cons_of_mem _ h

/-- Slow start divides by the baseline. -/
theorem mem_detect_of_slowStart (hd : p.Decides)
    (hphase : p.phase = .slowStart) : p.baselineP50 ∈ p.detect.dividedBy := by
  rw [detect_of_decides hd]
  refine mem_updateLevel ?_
  unfold doPhase
  rw [observed_phase, hphase]
  dsimp only
  rw [doSlowStart_dividedBy, observed_baselineP50]
  exact mem_cons_self

end MemoryPressureController

/-! ## What the baseline is -/

/-- No move leads back to the baseline phase. -/
theorem Verdict.apply_baseline {v : Verdict} {r : Rates} (h : (v.apply r).phase = .baseline) :
    r.phase = .baseline := by
  cases v with
  | hold | warn | grow | probe | edge | ease | fallBack | accept | raise => exact h
  | start | confirm | backOff | settle | resume => cases h

/-- Only the completed baseline ends the baseline phase. -/
theorem Verdict.Fits.started {v : Verdict} {r : Rates} (hfits : v.Fits r)
    (h : (v.apply r).Started) : r.Started ∨ v = .start := by
  cases v with
  | start => exact .inr rfl
  | hold | warn | grow | probe | edge | ease | fallBack | accept | raise => exact .inl h
  | confirm | settle | resume => exact .inl (Rates.started_of hfits nofun nofun)
  | backOff =>
    rcases hfits with hp | hp | hp <;> exact .inl (Rates.started_of hp nofun nofun)

/-- The fields of the baseline. -/
structure BaselineData where
  p50 : ℚ
  collecting : ℕ
  p50s : List ℚ

namespace MemoryPressureController

def baseline (p : MemoryPressureController) : BaselineData :=
  ⟨p.baselineP50, p.baselineCollecting, p.baselineP50s⟩

theorem updateLevel_baseline (p : MemoryPressureController) (x : ℚ) :
    (p.updateLevel x).baseline = p.baseline := by
  unfold updateLevel
  split
  · rfl
  · dsimp only
    split_ifs <;> rfl

theorem observed_baseline (p : MemoryPressureController) : p.observed.baseline = p.baseline := by
  obtain ⟨ratio, set, history, h⟩ := p.observed_eq
  rw [h]
  rfl

theorem tested_baseline (p : MemoryPressureController) : p.tested.baseline = p.baseline := by
  obtain ⟨history, h⟩ := p.tested_eq
  rw [h]
  rfl

variable {p : MemoryPressureController}

/-- Only the baseline phase writes the baseline. -/
theorem doPhase_baseline (h : p.phase ≠ .baseline) (x : ℚ) (n : ℤ)
    (g : Bool) : (p.doPhase x n g).baseline = p.baseline := by
  unfold doPhase
  cases hphase : p.phase with
  | disabled => rfl
  | baseline => exact absurd hphase h
  | slowStart =>
    dsimp only [doSlowStart]
    split_ifs <;> rfl
  | probing =>
    rw [← p.tested_baseline]
    dsimp only [doProbing]
    split_ifs <;> rfl
  | steady =>
    rw [← p.tested_baseline]
    dsimp only [doSteady]
    split_ifs <;> rfl
  | backoff =>
    dsimp only [doBackoff]
    split_ifs <;> rfl

theorem detect_baseline (h : ¬ (p.Decides ∧ p.phase = .baseline)) :
    p.detect.baseline = p.baseline := by
  by_cases hd : p.Decides
  · rw [detect_of_decides hd, updateLevel_baseline,
      doPhase_baseline (by rw [observed_phase]; exact fun hb => h ⟨hd, hb⟩), observed_baseline]
  · rcases detect_of_not_decides hd with he | he
    · rw [he]
    · rw [he]
      rfl

/-- The baseline grows round by round, and then is the median of five. -/
structure Baselined (p : MemoryPressureController) : Prop where
  nonneg : ∀ x ∈ p.baselineP50s, 0 ≤ x
  length : p.baselineP50s.length = p.baselineCollecting
  growing : p.phase = .baseline → p.baselineCollecting < 5
  median : p.rates.Started → p.baselineCollecting = 5 ∧ p.baselineP50 = sortedAt p.baselineP50s 2 0

theorem Baselined.of_eq {q : MemoryPressureController} (h : Baselined p)
    (hb : q.baseline = p.baseline) (hgrowing : q.phase = .baseline → p.phase = .baseline)
    (hstarted : q.rates.Started → p.rates.Started) : Baselined q := by
  have h50 : q.baselineP50 = p.baselineP50 := congrArg BaselineData.p50 hb
  have hcount : q.baselineCollecting = p.baselineCollecting := congrArg BaselineData.collecting hb
  have hlist : q.baselineP50s = p.baselineP50s := congrArg BaselineData.p50s hb
  exact {
    nonneg := by rw [hlist]; exact h.nonneg
    length := by rw [hlist, hcount]; exact h.length
    growing := fun hp => by rw [hcount]; exact h.growing (hgrowing hp)
    median := fun hs => by rw [h50, hcount, hlist]; exact h.median (hstarted hs) }

/-- A round of the baseline phase. -/
theorem Baselined.doBaseline (h : Baselined p)
    (hphase : p.phase = .baseline) {x : ℚ} (hx : 0 ≤ x) : Baselined (p.doBaseline x) := by
  have hcount := h.growing hphase
  have hlen : (p.baselineP50s ++ [x]).length = p.baselineCollecting + 1 := by
    rw [length_append, h.length]
    rfl
  have hnonneg : ∀ y ∈ p.baselineP50s ++ [x], 0 ≤ y := by
    intro y hy
    rcases mem_append.mp hy with hy | hy
    · exact h.nonneg y hy
    · rw [mem_singleton.mp hy]
      exact hx
  unfold MemoryPressureController.doBaseline baselineWindowCount
  dsimp only
  split
  · next hfull =>
    have hfive : p.baselineCollecting + 1 = 5 := by omega
    refine ⟨hnonneg, hlen, nofun, fun _ => ⟨hfive, ?_⟩⟩
    show sortedAt (p.baselineP50s ++ [x]) ((p.baselineP50s ++ [x]).length / 2) 0 = _
    rw [hlen, hfive]
  · next hmore =>
    exact ⟨hnonneg, hlen, fun _ => Nat.not_le.mp hmore, fun hs => absurd hphase hs.2⟩

theorem decides_of_start (h : p.verdict = .start) :
    p.Decides ∧ p.phase = .baseline := by
  have hfits := p.verdict_fits
  rw [h] at hfits
  refine ⟨by_contra fun hd => ?_, hfits⟩
  unfold verdict at h
  rw [if_neg hd] at h
  cases h

/-- **One round** keeps the baseline what it is. -/
theorem Baselined.detect (h : Baselined p) : Baselined p.detect := by
  by_cases hb : p.Decides ∧ p.phase = .baseline
  · obtain ⟨hd, hphase⟩ := hb
    rw [detect_of_decides hd]
    have hobs : Baselined p.observed :=
      h.of_eq p.observed_baseline (by rw [observed_phase]; exact id) (by rw [observed_rates]; exact id)
    have hx : 0 ≤ p.p50ns := Nat.cast_nonneg _
    have hdone := hobs.doBaseline (by rw [observed_phase, hphase]) hx
    have hdo : p.observed.doPhase p.p50ns p.pending p.pendingGrowing = p.observed.doBaseline p.p50ns := by
      unfold doPhase
      rw [observed_phase, hphase]
    rw [hdo]
    exact hdone.of_eq (updateLevel_baseline _ _)
      (by rw [show MemoryPressureController.phase _ = _ from
        congrArg Rates.phase (updateLevel_rates _ _)]; exact id)
      (by rw [updateLevel_rates]; exact id)
  · refine h.of_eq (detect_baseline hb) ?_ ?_
    · intro hphase
      rw [show p.detect.phase = _ from congrArg Rates.phase p.detect_rates] at hphase
      exact Verdict.apply_baseline hphase
    · intro hs
      rw [p.detect_rates] at hs
      rcases p.verdict_fits.started hs with hs | hstart
      · exact hs
      · exact absurd (decides_of_start hstart) hb

theorem Baselined.step {q : MemoryPressureController} {a : PressureAction} (h : Baselined p)
    (hstep : p.step a = some q) : Baselined q := by
  cases a with
  | addPending | donePending =>
    cases hstep
    exact h.of_eq rfl id id
  | recordLatency d =>
    cases hstep
    unfold recordLatency
    split <;> exact h.of_eq rfl id id
  | detect =>
    cases hstep
    exact h.detect

theorem baselined_init : Baselined adaptiveController where
  nonneg := nofun
  length := rfl
  growing _ := by decide
  median h := absurd rfl h.2

/-- **A baseline is positive** if and only if at most two of its five latencies are zero. -/
theorem Baselined.pos_iff (h : Baselined p) (hs : p.rates.Started) :
    0 < p.baselineP50 ↔ p.baselineP50s.countP (fun x => decide (x = 0)) ≤ 2 := by
  obtain ⟨hfive, hmedian⟩ := h.median hs
  have hzero : p.baselineP50s.countP (fun x => decide (x ≤ 0))
      = p.baselineP50s.countP (fun x => decide (x = 0)) := by
    refine countP_congr fun x hx => ?_
    simp only [decide_eq_true_eq]
    exact ⟨fun hle => le_antisymm hle (h.nonneg x hx), fun he => he.le⟩
  rw [hmedian, ← not_le, sortedAt_le_iff (by rw [h.length, hfive]; decide), hzero]
  exact Nat.not_lt

end MemoryPressureController

/-! ## Runs -/

open MemoryPressureController

/-- A slow start has a baseline of which at most two of the five latencies are zero. -/
def BaselineMeasured (p : MemoryPressureController) (a : PressureAction) : Prop :=
  a = .detect → p.Decides → p.phase = .slowStart →
    p.baselineP50s.countP (fun x => decide (x = 0)) ≤ 2

/-- No quotient by a baseline that is not positive. -/
def DividesByPositive (p : MemoryPressureController) : Prop := ∀ b ∈ p.dividedBy, 0 < b

theorem DividesByPositive.step {p q : MemoryPressureController} {a : PressureAction}
    (h : Baselined p) (hdiv : DividesByPositive p) (ha : BaselineMeasured p a)
    (hstep : p.step a = some q) : DividesByPositive q := by
  cases a with
  | addPending | donePending =>
    cases hstep
    exact hdiv
  | recordLatency d =>
    cases hstep
    unfold recordLatency
    split <;> exact hdiv
  | detect =>
    cases hstep
    have hround : DividesSince p p.detect := by
      refine .detect fun hd hphase => ?_
      exact (h.pos_iff (Rates.started_of hphase nofun nofun)).mpr (ha rfl hd hphase)
    intro b hb
    rcases hround b hb with hb | hb
    · exact hdiv b hb
    · exact hb

/-- A slow start with a baseline of zeros divides by zero. -/
theorem BaselineMeasured.of_not {p : MemoryPressureController} {a : PressureAction}
    (h : Baselined p) (ha : ¬ BaselineMeasured p a) :
    ∃ q, p.step a = some q ∧ ¬ DividesByPositive q := by
  simp only [BaselineMeasured, Classical.not_imp] at ha
  obtain ⟨rfl, hd, hphase, hzeros⟩ := ha
  refine ⟨p.detect, rfl, fun hdiv => hzeros ?_⟩
  exact (h.pos_iff (Rates.started_of hphase nofun nofun)).mp
    (hdiv _ (mem_detect_of_slowStart hd hphase))

/-- **The controller never divides by a zero baseline** in a run if and only if, in every round of
slow start, at most two of the five latencies that the baseline is made of are zero. -/
theorem quotients_by_positive_iff (as : List PressureAction) :
    Throughout MemoryPressureController.step DividesByPositive adaptiveController as ↔
      Along MemoryPressureController.step BaselineMeasured adaptiveController as := by
  constructor
  · exact along_of_throughout (J := Baselined) (fun _ _ _ h hstep => h.step hstep)
      (fun _ _ h ha => BaselineMeasured.of_not h ha) as baselined_init
  · have hstep : ∀ (p : MemoryPressureController) a q, Baselined p ∧ DividesByPositive p →
        BaselineMeasured p a → p.step a = some q → Baselined q ∧ DividesByPositive q :=
      fun _ _ _ h ha hq => ⟨h.1.step hq, h.2.step h.1 ha hq⟩
    exact throughout_of_inv (fun _ h => h.2) hstep as ⟨baselined_init, nofun⟩

/-- Five rounds of latencies below the resolution of the clock, and the first one of slow start. -/
def instantResponses : List PressureAction := (List.replicate 6 (uniformRound 0)).flatten

theorem slow_start_divides_by_zero :
    ¬ Throughout MemoryPressureController.step DividesByPositive adaptiveController instantResponses := by
  intro h
  have hzero : (run MemoryPressureController.step adaptiveController instantResponses).map
      (fun p => decide ((0 : ℚ) ∈ p.dividedBy)) = some true := by decide +kernel
  obtain ⟨p, hrun, hp⟩ := Option.map_eq_some_iff.mp hzero
  exact lt_irrefl _ (throughout_last h hrun 0 (of_decide_eq_true hp))

end Robot.Report
