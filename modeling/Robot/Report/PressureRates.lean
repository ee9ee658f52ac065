import Robot.Report.Pressure

/-!
# The rates of the pressure controller

A round of `detect` reads latencies, counts and streaks, and all it does with them is to choose one
of a few moves of the rates. This file splits the controller along that line. `verdict` is the
choice, branch by branch as the code makes it, and `Verdict.apply` is the move, on the four fields
it concerns (`Rates`). `detect_rates` says that the two together are `detect`; from there on nothing
needs to look into the code again.

The rates alone are a machine with a short invariant (`Banded`): in slow start the rate is between
the last safe rate and 1.3 times it, in steady it is above the safe rate only while it probes up,
and everywhere it is at least half the safe rate and at most a probe above it. The three results:

* `qps_in_band`: the band holds in every run;
* `qps_floor_iff`: the floor of 10, which only `enterBackoff` looks after, is kept by exactly the
  runs whose small steps back start high enough;
* `congestion_lowers_iff`: a congested round does not raise the rate exactly if no clamp is above
  it. The clamps are meant as lower bounds of a decrease, and each of them can lie above the rate.
-/

namespace Robot.Report

open Robot.Lib
open TracingBucket (truncate)
open MemoryPressureController (stepOf)

/-! ## The moves of the rates -/

/-- The fields that decide the rate. -/
@[ext] structure Rates where
  phase : AdaptivePhase
  currentQPS : ℚ
  safeQPS : ℚ
  probingUp : Bool

def MemoryPressureController.rates (p : MemoryPressureController) : Rates :=
  ⟨p.phase, p.currentQPS, p.safeQPS, p.probingUp⟩

/-- What a round decides. -/
inductive Verdict
  /-- Nothing moves. -/
  | hold
  /-- The baseline is complete. -/
  | start
  | grow
  /-- A first warning in slow start: the rate is held. -/
  | warn
  /-- The warning is confirmed. -/
  | confirm
  | backOff
  | probe
  /-- The edge of congestion: the rate counts as safe. -/
  | edge
  /-- The edge, for long enough. -/
  | settle
  /-- The small step back. -/
  | ease
  /-- The probe of steady has failed. -/
  | fallBack
  /-- It has succeeded. -/
  | accept
  | raise
  /-- The cooldown is over. -/
  | resume
  deriving DecidableEq, Repr

/-- The rate after `enterBackoff`. -/
def backedOff (qps safe : ℚ) : ℚ :=
  let qps := qps * backoffRatio
  let qps := if safe > 0 ∧ qps < safe * (1 / 2) then safe * (1 / 2) else qps
  if qps < 10 then 10 else qps

/-- The rate after the small step back. -/
def eased (qps safe : ℚ) : ℚ :=
  if qps * (19 / 20) < safe * (4 / 5) then safe * (4 / 5) else qps * (19 / 20)

def Verdict.apply (v : Verdict) (r : Rates) : Rates :=
  match v with
  | .hold | .warn => r
  | .start => { r with phase := .slowStart, safeQPS := r.currentQPS }
  | .grow => { r with safeQPS := r.currentQPS, currentQPS := r.currentQPS * slowStartMultiplier }
  | .confirm => { r with phase := .probing, currentQPS := r.safeQPS }
  | .backOff => { r with phase := .backoff, currentQPS := backedOff r.currentQPS r.safeQPS }
  | .probe => { r with
      safeQPS := r.currentQPS
      currentQPS := r.currentQPS + stepOf r.currentQPS probeIncreaseRatio minProbeStep }
  | .edge => { r with safeQPS := r.currentQPS }
  | .settle => { r with phase := .steady, safeQPS := r.currentQPS, probingUp := false }
  | .ease => { r with currentQPS := eased r.currentQPS r.safeQPS }
  | .fallBack => { r with currentQPS := r.safeQPS, probingUp := false }
  | .accept => { r with safeQPS := r.currentQPS, probingUp := false }
  | .raise => { r with
      currentQPS := r.currentQPS + stepOf r.currentQPS steadyProbeRatio minSteadyStep
      probingUp := true }
  | .resume => { r with phase := .probing }

/-- Where a verdict is given. -/
def Verdict.Fits (v : Verdict) (r : Rates) : Prop :=
  match v with
  | .hold => True
  | .start => r.phase = .baseline
  | .grow | .warn | .confirm => r.phase = .slowStart
  | .backOff => r.phase = .slowStart ∨ r.phase = .probing ∨ r.phase = .steady
  | .probe | .edge | .settle => r.phase = .probing
  | .ease => r.phase = .probing ∨ r.phase = .steady ∧ r.probingUp = false
  | .fallBack | .accept => r.phase = .steady ∧ r.probingUp = true
  | .raise => r.phase = .steady ∧ r.probingUp = false
  | .resume => r.phase = .backoff

namespace MemoryPressureController

/-! ## The choice -/

/-- The healthy case of slow start. -/
def healthy (p : MemoryPressureController) (p50ns : ℚ) (currentPending : ℤ) (growing : Bool) : Bool :=
  (divide p50ns p.baselineP50).lt latencyRatioWarn && !growing &&
    decide (currentPending < truncate (p.currentQPS * 2))

def slowStartVerdict (p : MemoryPressureController) (p50ns : ℚ) (currentPending : ℤ)
    (growing : Bool) : Verdict :=
  if (divide p50ns p.baselineP50).ge latencyRatioCritical then .backOff
  else if p.healthy p50ns currentPending growing then .grow
  else if p.warnStreak + 1 ≥ slowStartWarnConfirm then .confirm
  else .warn

def probingVerdict (p : MemoryPressureController) (p50ns : ℚ) (growing : Bool) : Verdict :=
  if p.isCritical p50ns then .backOff
  else if p.congestionRatio growing < latencyRatioOK then .probe
  else if p.congestionRatio growing < latencyRatioWarn then
    if p.stableCount + 1 ≥ stableThreshold then .settle else .edge
  else .ease

def steadyVerdict (p : MemoryPressureController) (p50ns : ℚ) (growing : Bool) : Verdict :=
  if p.isCritical p50ns then .backOff
  else if p.probingUp then
    if p.congestionRatio growing ≥ latencyRatioWarn then .fallBack
    else if p.congestionRatio growing < latencyRatioOK then .accept
    else .hold
  else if p.congestionRatio growing ≥ latencyRatioWarn then .ease
  else if p.steadyCounter + 1 ≥ steadyProbeInterval then .raise
  else .hold

/-- The choice of the `switch`. -/
def phaseVerdict (p : MemoryPressureController) (p50ns : ℚ) (currentPending : ℤ) (growing : Bool) :
    Verdict :=
  match p.phase with
  | .disabled => .hold
  | .baseline => if p.baselineCollecting + 1 ≥ baselineWindowCount then .start else .hold
  | .slowStart => p.slowStartVerdict p50ns currentPending growing
  | .probing => p.probingVerdict p50ns growing
  | .steady => p.steadyVerdict p50ns growing
  | .backoff => if p.backoffWait - 1 ≤ 0 then .resume else .hold

/-- The latency of the next round. -/
def p50ns (p : MemoryPressureController) : ℚ := computeP50 p.latencies

/-- The controller as the `switch` of the next round finds it. -/
def observed (p : MemoryPressureController) : MemoryPressureController :=
  { { p with latencies := [] }.smooth p.p50ns with lastPending := p.pending }

/-- The next round has enough samples, and is not switched off. -/
def Decides (p : MemoryPressureController) : Prop := p.phase ≠ .disabled ∧ 3 ≤ p.latencies.length

instance decidableDecides (p : MemoryPressureController) : Decidable p.Decides :=
  inferInstanceAs (Decidable (_ ∧ _))

/-- What the next round decides. -/
def verdict (p : MemoryPressureController) : Verdict :=
  if p.Decides then p.observed.phaseVerdict p.p50ns p.pending p.pendingGrowing else .hold

/-! ## The code makes that choice and that move -/

variable (p : MemoryPressureController)

theorem updateSmoothedRatio_eq (x : ℚ) : ∃ ratio set,
    p.updateSmoothedRatio x = { p with smoothedRatio := ratio, smoothedSet := set } := by
  unfold updateSmoothedRatio
  split
  · exact ⟨_, _, rfl⟩
  · exact ⟨_, p.smoothedSet, rfl⟩

/-- Smoothing touches the ratio and the history. -/
theorem smooth_eq (x : ℚ) : ∃ ratio set history,
    p.smooth x = { p with smoothedRatio := ratio, smoothedSet := set, dividedBy := history } := by
  unfold smooth
  split
  · obtain ⟨ratio, set, h⟩ := p.divided.updateSmoothedRatio_eq (x / p.baselineP50)
    exact ⟨ratio, set, _, h⟩
  · exact ⟨p.smoothedRatio, p.smoothedSet, p.dividedBy, rfl⟩

theorem observed_eq (p : MemoryPressureController) : ∃ ratio set history,
    p.observed = { p with
      latencies := [], lastPending := p.pending
      smoothedRatio := ratio, smoothedSet := set, dividedBy := history } := by
  obtain ⟨ratio, set, history, h⟩ := smooth_eq { p with latencies := [] } p.p50ns
  refine ⟨ratio, set, history, ?_⟩
  unfold observed
  rw [h]

theorem observed_rates (p : MemoryPressureController) : p.observed.rates = p.rates := by
  obtain ⟨ratio, set, history, h⟩ := p.observed_eq
  rw [h]
  rfl

theorem updateLevel_rates (x : ℚ) : (p.updateLevel x).rates = p.rates := by
  unfold updateLevel
  split
  · rfl
  · dsimp only
    split_ifs <;> rfl

/-- A round that decides is its `switch` and the level. -/
theorem detect_of_decides {p : MemoryPressureController} (h : p.Decides) :
    p.detect = (p.observed.doPhase p.p50ns p.pending p.pendingGrowing).updateLevel p.p50ns := by
  obtain ⟨ratio, set, history, hs⟩ := smooth_eq { p with latencies := [] } p.p50ns
  have hgrowing : ({ p with latencies := [] }.smooth p.p50ns).pendingGrowing = p.pendingGrowing := by
    rw [hs]
    rfl
  unfold detect
  rw [if_neg h.1]
  dsimp only
  rw [if_neg (Nat.not_lt.mpr h.2)]
  show (MemoryPressureController.doPhase _ p.p50ns p.pending
    ({ p with latencies := [] }.smooth p.p50ns).pendingGrowing).updateLevel _ = _
  rw [hgrowing]
  rfl

/-- A round that does not decide at most throws the samples away. -/
theorem detect_of_not_decides {p : MemoryPressureController} (h : ¬ p.Decides) :
    p.detect = p ∨ p.detect = { p with latencies := [] } := by
  unfold detect
  split
  · exact .inl rfl
  · next hphase =>
    dsimp only
    rw [if_pos (by_contra fun hlen => h ⟨hphase, Nat.not_lt.mp hlen⟩)]
    exact .inr rfl

theorem tested_eq : ∃ history, p.tested = { p with dividedBy := history } := by
  unfold tested
  split
  · exact ⟨_, rfl⟩
  · exact ⟨p.dividedBy, rfl⟩

theorem doSlowStart_rates (x : ℚ) (n : ℤ) (g : Bool) :
    (p.doSlowStart x n g).rates = (p.slowStartVerdict x n g).apply p.rates := by
  unfold doSlowStart slowStartVerdict healthy divided
  simp only [Bool.and_eq_true, decide_eq_true_eq, and_assoc]
  split_ifs <;> rfl

theorem doProbing_rates (x : ℚ) (g : Bool) : (p.doProbing x g).rates = (p.probingVerdict x g).apply p.rates := by
  obtain ⟨history, h⟩ := p.tested_eq
  unfold doProbing probingVerdict
  rw [h]
  dsimp only [congestionRatio]
  split_ifs <;> rfl

theorem doSteady_rates (x : ℚ) (g : Bool) : (p.doSteady x g).rates = (p.steadyVerdict x g).apply p.rates := by
  obtain ⟨history, h⟩ := p.tested_eq
  unfold doSteady steadyVerdict
  rw [h]
  dsimp only [congestionRatio]
  split_ifs <;> rfl

theorem doPhase_rates (x : ℚ) (n : ℤ) (g : Bool) :
    (p.doPhase x n g).rates = (p.phaseVerdict x n g).apply p.rates := by
  unfold doPhase phaseVerdict
  cases p.phase with
  | disabled => rfl
  | baseline =>
    dsimp only [doBaseline]
    split_ifs <;> rfl
  | slowStart => exact p.doSlowStart_rates x n g
  | probing => exact p.doProbing_rates x g
  | steady => exact p.doSteady_rates x g
  | backoff =>
    dsimp only [doBackoff]
    split_ifs <;> rfl

/-- **`detect` chooses a verdict and applies it.** -/
theorem detect_rates : p.detect.rates = p.verdict.apply p.rates := by
  unfold verdict
  by_cases h : p.Decides
  · rw [if_pos h, detect_of_decides h, updateLevel_rates, doPhase_rates, observed_rates]
  · rw [if_neg h]
    rcases detect_of_not_decides h with he | he <;> rw [he] <;> rfl

/-- The verdicts of a phase fit it. -/
theorem phaseVerdict_fits (x : ℚ) (n : ℤ) (g : Bool) : (p.phaseVerdict x n g).Fits p.rates := by
  unfold phaseVerdict
  cases hphase : p.phase with
  | disabled => trivial
  | baseline =>
    dsimp only
    split_ifs
    · exact hphase
    · trivial
  | slowStart =>
    dsimp only [slowStartVerdict]
    split_ifs
    · exact .inl hphase
    · exact hphase
    · exact hphase
    · exact hphase
  | probing =>
    dsimp only [probingVerdict]
    split_ifs
    · exact .inr (.inl hphase)
    · exact hphase
    · exact hphase
    · exact hphase
    · exact .inl hphase
  | steady =>
    dsimp only [steadyVerdict]
    split_ifs with hcrit hup
    · exact .inr (.inr hphase)
    · exact ⟨hphase, hup⟩
    · exact ⟨hphase, hup⟩
    · trivial
    · exact .inr ⟨hphase, Bool.not_eq_true _ ▸ hup⟩
    · exact ⟨hphase, Bool.not_eq_true _ ▸ hup⟩
    · trivial
  | backoff =>
    dsimp only
    split_ifs
    · exact hphase
    · trivial

theorem verdict_fits : p.verdict.Fits p.rates := by
  unfold verdict
  split
  · rw [← p.observed_rates]
    exact phaseVerdict_fits ..
  · trivial

end MemoryPressureController

open MemoryPressureController

/-! ## The moves, as bounds -/

theorem eased_eq (qps safe : ℚ) : eased qps safe = max (qps * (19 / 20)) (safe * (4 / 5)) := by
  unfold eased
  split
  · next h => exact (max_eq_right h.le).symm
  · next h => exact (max_eq_left (not_lt.mp h)).symm

/-- With a positive safe rate the backoff has three candidates. -/
theorem backedOff_eq {qps safe : ℚ} (hsafe : 0 < safe) :
    backedOff qps safe = max (max (qps * (17 / 20)) (safe * (1 / 2))) 10 := by
  unfold backedOff backoffRatio
  have hinner : (if safe > 0 ∧ qps * (17 / 20) < safe * (1 / 2) then safe * (1 / 2)
      else qps * (17 / 20)) = max (qps * (17 / 20)) (safe * (1 / 2)) := by
    split
    · next h => exact (max_eq_right h.2.le).symm
    · next h => exact (max_eq_left (not_lt.mp fun hlt => h ⟨hsafe, hlt⟩)).symm
  dsimp only
  rw [hinner]
  split
  · next h => exact (max_eq_right h.le).symm
  · next h => exact (max_eq_left (not_lt.mp h)).symm

theorem stepOf_eq (qps share least : ℚ) : stepOf qps share least = max (qps * share) least := by
  unfold stepOf
  split
  · next h => exact (max_eq_right h.le).symm
  · next h => exact (max_eq_left (not_lt.mp h)).symm

/-! ## The band -/

/-- The baseline phase has ended. -/
def Rates.Started (r : Rates) : Prop := r.phase ≠ .disabled ∧ r.phase ≠ .baseline

/-- The rate is at least half the safe rate and at most a probe above it. -/
structure Rates.InBand (r : Rates) : Prop where
  safe : 0 < r.safeQPS
  half : r.safeQPS / 2 ≤ r.currentQPS
  top : r.currentQPS ≤ max (13 / 10 * r.safeQPS) (r.safeQPS + 10)

/-- What holds of the rates in every phase. -/
structure Banded (r : Rates) : Prop where
  pos : 0 < r.currentQPS
  band : r.Started → r.InBand
  slow : r.phase = .slowStart → r.safeQPS ≤ r.currentQPS
  steady : r.phase = .steady → r.probingUp = false → r.currentQPS ≤ r.safeQPS

variable {r : Rates} {v : Verdict} {p q : MemoryPressureController} {a : PressureAction}

theorem Rates.InBand.pos (h : r.InBand) : 0 < r.currentQPS := by
  have hs := h.safe
  have hh := h.half
  linarith

/-- The safe rate has just been set to the rate. -/
theorem Rates.InBand.of_eq (hpos : 0 < r.currentQPS) (h : r.currentQPS = r.safeQPS) :
    r.InBand where
  safe := h ▸ hpos
  half := by linarith
  top := le_max_of_le_right (by linarith)

/-- The safe rate is the rate from before a probe. -/
theorem Rates.InBand.of_probe (hpos : 0 < r.safeQPS)
    (h : r.currentQPS = r.safeQPS + stepOf r.safeQPS probeIncreaseRatio minProbeStep) :
    r.InBand := by
  rw [stepOf_eq] at h
  unfold probeIncreaseRatio minProbeStep at h
  refine ⟨hpos, ?_, ?_⟩
  · have hle := le_max_right (r.safeQPS * (1 / 50)) 10
    linarith
  · rcases max_choice (r.safeQPS * (1 / 50)) 10 with hm | hm
    · exact le_max_of_le_left (by linarith)
    · exact le_max_of_le_right (by linarith)

theorem Rates.InBand.backOff (h : r.InBand) :
    Rates.InBand { r with phase := .backoff, currentQPS := backedOff r.currentQPS r.safeQPS } := by
  have hs := h.safe
  have hpos := h.pos
  refine ⟨hs, ?_, ?_⟩
  · show r.safeQPS / 2 ≤ backedOff _ _
    rw [backedOff_eq hs]
    exact le_max_of_le_left (le_max_of_le_right (by linarith))
  · show backedOff _ _ ≤ _
    rw [backedOff_eq hs]
    refine max_le (max_le ?_ ?_) ?_
    · exact le_trans (by linarith) h.top
    · exact le_max_of_le_left (by linarith)
    · exact le_max_of_le_right (by linarith)

theorem Rates.InBand.ease (h : r.InBand) :
    Rates.InBand { r with currentQPS := eased r.currentQPS r.safeQPS } := by
  have hs := h.safe
  have hpos := h.pos
  refine ⟨hs, ?_, ?_⟩
  · show r.safeQPS / 2 ≤ eased _ _
    rw [eased_eq]
    exact le_max_of_le_right (by linarith)
  · show eased _ _ ≤ _
    rw [eased_eq]
    refine max_le ?_ ?_
    · exact le_trans (by linarith) h.top
    · exact le_max_of_le_left (by linarith)

/-- The probe of steady starts at or below the safe rate. -/
theorem Rates.InBand.raise (h : r.InBand) (hle : r.currentQPS ≤ r.safeQPS) :
    Rates.InBand { r with
      currentQPS := r.currentQPS + stepOf r.currentQPS steadyProbeRatio minSteadyStep
      probingUp := true } := by
  have hs := h.safe
  have hpos := h.pos
  have hhalf := h.half
  refine ⟨hs, ?_, ?_⟩
  · show r.safeQPS / 2 ≤ r.currentQPS + stepOf _ _ _
    rw [stepOf_eq]
    have hstep := le_max_right (r.currentQPS * steadyProbeRatio) minSteadyStep
    unfold minSteadyStep at hstep ⊢
    linarith
  · show r.currentQPS + stepOf _ _ _ ≤ _
    rw [stepOf_eq]
    unfold steadyProbeRatio minSteadyStep
    rcases max_choice (r.currentQPS * (1 / 100)) 5 with hm | hm
    · rw [hm]
      exact le_max_of_le_left (by linarith)
    · rw [hm]
      exact le_max_of_le_right (by linarith)

theorem Rates.started_of {phase : AdaptivePhase} (h : r.phase = phase)
    (hd : phase ≠ .disabled) (hb : phase ≠ .baseline) : r.Started := by
  subst h
  exact ⟨hd, hb⟩

/-- **One move** that fits keeps the band. -/
theorem Verdict.Fits.banded (hfits : v.Fits r) (h : Banded r) :
    Banded (v.apply r) := by
  cases v with
  | hold | warn => exact h
  | start =>
    exact ⟨h.pos, fun _ => .of_eq h.pos rfl, fun _ => le_refl _, fun _ _ => le_refl _⟩
  | grow =>
    have hband : Rates.InBand (Verdict.grow.apply r) := by
      refine ⟨h.pos, ?_, le_max_of_le_left ?_⟩
      · show r.currentQPS / 2 ≤ r.currentQPS * slowStartMultiplier
        unfold slowStartMultiplier
        linarith [h.pos]
      · show r.currentQPS * slowStartMultiplier ≤ 13 / 10 * r.currentQPS
        unfold slowStartMultiplier
        linarith
    refine ⟨hband.pos, fun _ => hband, fun _ => ?_, fun hsteady => ?_⟩
    · show r.currentQPS ≤ r.currentQPS * slowStartMultiplier
      unfold slowStartMultiplier
      linarith [h.pos]
    · cases hfits.symm.trans hsteady
  | confirm =>
    have hsafe := (h.band (Rates.started_of hfits nofun nofun)).safe
    exact ⟨hsafe, fun _ => .of_eq hsafe rfl, fun _ => le_refl _, fun _ _ => le_refl _⟩
  | backOff =>
    have hstarted : r.Started := by
      rcases hfits with hp | hp | hp <;> exact Rates.started_of hp nofun nofun
    have hband := (h.band hstarted).backOff
    exact ⟨hband.pos, fun _ => hband, nofun, nofun⟩
  | probe =>
    have hband : Rates.InBand (Verdict.probe.apply r) := .of_probe h.pos rfl
    refine ⟨hband.pos, fun _ => hband, fun hp => ?_, fun hp => ?_⟩ <;> cases hfits.symm.trans hp
  | edge =>
    exact ⟨h.pos, fun _ => .of_eq h.pos rfl, fun _ => le_refl _, fun _ _ => le_refl _⟩
  | settle =>
    exact ⟨h.pos, fun _ => .of_eq h.pos rfl, fun _ => le_refl _, fun _ _ => le_refl _⟩
  | ease =>
    have hstarted : r.Started := by
      rcases hfits with hp | hp
      · exact Rates.started_of hp nofun nofun
      · exact Rates.started_of hp.1 nofun nofun
    have hband := (h.band hstarted).ease
    refine ⟨hband.pos, fun _ => hband, fun hp => ?_, fun hp hup => ?_⟩
    · rcases hfits with hq | hq
      · cases hq.symm.trans hp
      · cases hq.1.symm.trans hp
    · have hle := h.steady hp hup
      have hs := (h.band hstarted).safe
      have hpos := h.pos
      show eased r.currentQPS r.safeQPS ≤ r.safeQPS
      rw [eased_eq]
      exact max_le (by linarith) (by linarith)
  | fallBack =>
    have hsafe := (h.band (Rates.started_of hfits.1 nofun nofun)).safe
    exact ⟨hsafe, fun _ => .of_eq hsafe rfl, fun _ => le_refl _, fun _ _ => le_refl _⟩
  | accept =>
    exact ⟨h.pos, fun _ => .of_eq h.pos rfl, fun _ => le_refl _, fun _ _ => le_refl _⟩
  | raise =>
    have hband := (h.band (Rates.started_of hfits.1 nofun nofun)).raise (h.steady hfits.1 hfits.2)
    refine ⟨hband.pos, fun _ => hband, fun hp => ?_, fun _ hup => by cases hup⟩
    cases hfits.1.symm.trans hp
  | resume =>
    have hband := h.band (Rates.started_of hfits nofun nofun)
    exact ⟨h.pos, fun _ => ⟨hband.safe, hband.half, hband.top⟩, nofun, nofun⟩

/-! ## Runs -/

/-- Besides `detect`, no step touches the rates. -/
theorem MemoryPressureController.step_rates
    (h : p.step a = some q) : q.rates = p.rates ∨ a = .detect ∧ q = p.detect := by
  cases a with
  | addPending | donePending =>
    cases h
    exact .inl rfl
  | recordLatency d =>
    cases h
    unfold recordLatency
    split <;> exact .inl rfl
  | detect =>
    cases h
    exact .inr ⟨rfl, rfl⟩

theorem Banded.step (hp : Banded p.rates)
    (h : p.step a = some q) : Banded q.rates := by
  rcases step_rates h with hq | ⟨-, rfl⟩
  · rw [hq]
    exact hp
  · rw [p.detect_rates]
    exact p.verdict_fits.banded hp

theorem banded_init : Banded adaptiveController.rates where
  pos := by decide +kernel
  band h := absurd rfl h.2
  slow h := by cases h
  steady h := by cases h

theorem banded_run (as : List PressureAction)
    (hrun : run step adaptiveController as = some p) : Banded p.rates := by
  have hstep : ∀ (p : MemoryPressureController) a q, Banded p.rates → p.step a = some q →
      Banded q.rates := fun _ _ _ hp h => hp.step h
  exact run_inv_all hstep as banded_init hrun

/-- **The probed rate stays in a band around the last safe rate**, in every state after the baseline
phase. -/
theorem qps_in_band {p : MemoryPressureController} (as : List PressureAction)
    (hrun : run MemoryPressureController.step adaptiveController as = some p)
    (hstarted : p.phase ≠ .disabled ∧ p.phase ≠ .baseline) :
    p.safeQPS > 0 ∧ p.safeQPS / 2 ≤ p.currentQPS ∧
      p.currentQPS ≤ max (13 / 10 * p.safeQPS) (p.safeQPS + 10) :=
  have h := (banded_run as hrun).band hstarted
  ⟨h.safe, h.half, h.top⟩

/-- Five rounds for the baseline and one healthy round. -/
def grownOnce : List PressureAction := (List.replicate 6 (uniformRound 100)).flatten

theorem grown_once_in_band :
    ∃ p, run MemoryPressureController.step adaptiveController grownOnce = some p ∧
      p.phase = .slowStart ∧ p.safeQPS / 2 ≤ p.currentQPS := by
  have hphase : (run step adaptiveController grownOnce).map
      phase = some .slowStart := by decide +kernel
  obtain ⟨p, hrun, hp⟩ := Option.map_eq_some_iff.mp hphase
  exact ⟨p, hrun, hp, (qps_in_band grownOnce hrun (by rw [hp]; exact ⟨nofun, nofun⟩)).2.1⟩

/-! ## The floor -/

/-- The rate, and the safe rate that it may fall back to, are at least 10. -/
structure Floored (r : Rates) : Prop where
  current : 10 ≤ r.currentQPS
  safe : r.Started → 10 ≤ r.safeQPS

theorem le_eased_iff (qps safe : ℚ) : 10 ≤ eased qps safe ↔ 200 / 19 ≤ qps ∨ 25 / 2 ≤ safe := by
  rw [eased_eq, le_max_iff]
  constructor
  · intro h
    rcases h with h | h
    · exact .inl (by linarith)
    · exact .inr (by linarith)
  · intro h
    rcases h with h | h
    · exact .inl (by linarith)
    · exact .inr (by linarith)

theorem backedOff_ge (qps safe : ℚ) : 10 ≤ backedOff qps safe := by
  unfold backedOff
  dsimp only
  generalize (if safe > 0 ∧ qps * backoffRatio < safe * (1 / 2) then safe * (1 / 2)
    else qps * backoffRatio) = cut
  split
  · exact le_refl _
  · next h => exact not_lt.mp h

theorem le_add_stepOf {qps share least : ℚ} (hleast : 0 ≤ least) (h : 10 ≤ qps) :
    10 ≤ qps + stepOf qps share least := by
  rw [stepOf_eq]
  linarith [le_max_right (qps * share) least]

/-- **One move** keeps the floor, with the exception of the small step back. -/
theorem Verdict.Fits.floored (hfits : v.Fits r) (h : Floored r)
    (hease : v = .ease → 200 / 19 ≤ r.currentQPS ∨ 25 / 2 ≤ r.safeQPS) : Floored (v.apply r) := by
  cases v with
  | hold | warn => exact h
  | start | edge | settle | accept => exact ⟨h.current, fun _ => h.current⟩
  | grow =>
    refine ⟨?_, fun _ => h.current⟩
    show 10 ≤ r.currentQPS * slowStartMultiplier
    unfold slowStartMultiplier
    linarith [h.current]
  | confirm =>
    have hsafe := h.safe (Rates.started_of hfits nofun nofun)
    exact ⟨hsafe, fun _ => hsafe⟩
  | backOff =>
    have hstarted : r.Started := by
      rcases hfits with hp | hp | hp <;> exact Rates.started_of hp nofun nofun
    exact ⟨backedOff_ge _ _, fun _ => h.safe hstarted⟩
  | probe => exact ⟨le_add_stepOf (by decide +kernel) h.current, fun _ => h.current⟩
  | ease => exact ⟨(le_eased_iff _ _).mpr (hease rfl), h.safe⟩
  | fallBack =>
    have hsafe := h.safe (Rates.started_of hfits.1 nofun nofun)
    exact ⟨hsafe, fun _ => hsafe⟩
  | raise => exact ⟨le_add_stepOf (by decide +kernel) h.current, h.safe⟩
  | resume => exact ⟨h.current, fun _ => h.safe (Rates.started_of hfits nofun nofun)⟩

/-- A small step back is only made from high enough. -/
def EasesFromAbove (p : MemoryPressureController) (a : PressureAction) : Prop :=
  a = .detect → p.verdict = .ease → 200 / 19 ≤ p.currentQPS ∨ 25 / 2 ≤ p.safeQPS

theorem Floored.step (hp : Floored p.rates)
    (ha : EasesFromAbove p a) (h : p.step a = some q) : Floored q.rates := by
  rcases step_rates h with hq | ⟨rfl, rfl⟩
  · rw [hq]
    exact hp
  · rw [p.detect_rates]
    exact p.verdict_fits.floored hp (ha rfl)

/-- A small step back from below leads under the floor. -/
theorem EasesFromAbove.of_not
    (ha : ¬ EasesFromAbove p a) : ∃ q, p.step a = some q ∧ ¬ 10 ≤ q.currentQPS := by
  simp only [EasesFromAbove, Classical.not_imp, not_or, not_le] at ha
  obtain ⟨rfl, hverdict, hc, hs⟩ := ha
  refine ⟨p.detect, rfl, fun hfloor => ?_⟩
  have hrates : p.detect.currentQPS = eased p.currentQPS p.safeQPS := by
    have h := congrArg Rates.currentQPS p.detect_rates
    rw [hverdict] at h
    exact h
  rw [hrates] at hfloor
  rcases (le_eased_iff _ _).mp hfloor with h | h
  · exact absurd h (not_le.mpr hc)
  · exact absurd h (not_le.mpr hs)

theorem floored_init : Floored adaptiveController.rates :=
  ⟨by decide +kernel, fun h => absurd rfl h.2⟩

/-- **The adaptive rate is at least 10 in every state of a run** if and only if every small step back
of the run starts from a rate of at least 200/19 or a safe rate of at least 12.5. -/
theorem qps_floor_iff (as : List PressureAction) :
    Throughout MemoryPressureController.step (fun p => 10 ≤ p.currentQPS) adaptiveController as ↔
      Along MemoryPressureController.step EasesFromAbove adaptiveController as := by
  constructor
  · exact along_of_throughout (J := fun _ => True) (fun _ _ _ _ _ => trivial)
      (fun _ _ _ => EasesFromAbove.of_not) as trivial
  · have hstep : ∀ (p : MemoryPressureController) a q, Floored p.rates → EasesFromAbove p a →
        p.step a = some q → Floored q.rates := fun _ _ _ hp ha h => hp.step ha h
    have hfloor : ∀ p : MemoryPressureController, Floored p.rates → 10 ≤ p.currentQPS :=
      fun _ hp => hp.current
    exact throughout_of_inv hfloor hstep as floored_init

/-- Two warnings end slow start; then the latency ratio goes back and forth around the warning, and
each small step back is followed by a round that takes the lower rate for safe. -/
def creepingDown : List PressureAction :=
  ([100, 100, 100, 100, 100, 200, 200, 160] ++ (List.replicate 13 [130, 170]).flatten).flatMap uniformRound

theorem qps_below_floor :
    ¬ Throughout MemoryPressureController.step (fun p => 10 ≤ p.currentQPS) adaptiveController
      creepingDown := by
  intro h
  have hlow : (run step adaptiveController creepingDown).map
      (fun p => decide (p.currentQPS < 10)) = some true := by decide +kernel
  obtain ⟨p, hrun, hp⟩ := Option.map_eq_some_iff.mp hlow
  exact absurd (throughout_last h hrun) (not_le.mpr (of_decide_eq_true hp))

/-! ## Congestion -/

/-- The verdicts that answer congestion. -/
def Verdict.Retreats : Verdict → Prop
  | .warn | .confirm | .backOff | .ease | .fallBack => True
  | .hold | .start | .grow | .probe | .edge | .settle | .accept | .raise | .resume => False

namespace MemoryPressureController

/-- The next round is judged congested: the raw ratio is critical, slow start sees a warning, or in
probing and steady the smoothed ratio is a warning or the pending count grows. -/
def Congested (p : MemoryPressureController) : Prop :=
  p.Decides ∧
    (p.phase = .slowStart ∧ ((divide p.p50ns p.baselineP50).ge latencyRatioCritical = true ∨
        p.healthy p.p50ns p.pending p.pendingGrowing = false) ∨
      (p.phase = .probing ∨ p.phase = .steady) ∧ (p.isCritical p.p50ns = true ∨
        p.observed.smoothedRatio ≥ latencyRatioWarn ∨ p.pendingGrowing = true))

instance decidableCongested (p : MemoryPressureController) : Decidable p.Congested :=
  inferInstanceAs (Decidable (_ ∧ _))

variable (p : MemoryPressureController)

theorem warn_le_congestionRatio (growing : Bool) : latencyRatioWarn ≤ p.congestionRatio growing ↔
      p.smoothedRatio ≥ latencyRatioWarn ∨ growing = true := by
  unfold congestionRatio
  split
  · next h => exact ⟨fun _ => .inr h.1, fun _ => le_refl _⟩
  · next h =>
    refine ⟨.inl, fun hor => ?_⟩
    rcases hor with hw | hg
    · exact hw
    · exact not_lt.mp fun hlt => h ⟨hg, hlt⟩

theorem observed_phase : p.observed.phase = p.phase :=
  congrArg Rates.phase p.observed_rates

theorem observed_baselineP50 (p : MemoryPressureController) :
    p.observed.baselineP50 = p.baselineP50 := by
  obtain ⟨ratio, set, history, h⟩ := p.observed_eq
  rw [h]

theorem observed_isCritical (x : ℚ) : p.observed.isCritical x = p.isCritical x := by
  unfold isCritical
  rw [observed_baselineP50]

theorem observed_healthy (x : ℚ) (n : ℤ) (g : Bool) : p.observed.healthy x n g = p.healthy x n g := by
  unfold healthy
  rw [observed_baselineP50, show p.observed.currentQPS = p.currentQPS from
    congrArg Rates.currentQPS p.observed_rates]

/-- A congested round retreats. -/
theorem Congested.retreats {p : MemoryPressureController} (h : p.Congested) :
    p.verdict.Retreats := by
  obtain ⟨hd, hs | hs⟩ := h
  · obtain ⟨hphase, h⟩ := hs
    unfold verdict phaseVerdict
    rw [if_pos hd, observed_phase, hphase]
    dsimp only [slowStartVerdict]
    rw [observed_baselineP50, observed_healthy]
    rcases h with hcrit | hsick
    · rw [if_pos hcrit]
      trivial
    · rw [hsick]
      split_ifs <;> trivial
  · obtain ⟨hphase, h⟩ := hs
    rw [← warn_le_congestionRatio] at h
    unfold verdict phaseVerdict
    rw [if_pos hd, observed_phase]
    rcases hphase with hphase | hphase
    · rw [hphase]
      dsimp only [probingVerdict]
      rw [observed_isCritical]
      rcases h with hcrit | hwarn
      · rw [if_pos hcrit]
        trivial
      · -- above the warning line, neither of the two zones below it
        have hok : latencyRatioOK ≤ latencyRatioWarn := by decide +kernel
        rw [if_neg (not_lt.mpr (hok.trans hwarn)), if_neg (not_lt.mpr hwarn)]
        split_ifs <;> trivial
    · rw [hphase]
      dsimp only [steadyVerdict]
      rw [observed_isCritical]
      rcases h with hcrit | hwarn
      · rw [if_pos hcrit]
        trivial
      · rw [if_pos hwarn, if_pos hwarn]
        split_ifs <;> trivial

/-- No clamp of the answer to congestion is above the rate. -/
def ClampsBelow (p : MemoryPressureController) : Prop :=
  match p.verdict with
  | .backOff => 10 ≤ p.currentQPS
  | .ease => p.safeQPS * (4 / 5) ≤ p.currentQPS
  | .fallBack => p.safeQPS ≤ p.currentQPS
  | _ => True

end MemoryPressureController

/-- A move that retreats does not raise the rate, unless it is clamped from above it. -/
theorem Verdict.Fits.lowers_iff (hfits : v.Fits r) (h : Banded r)
    (hv : v.Retreats) : (v.apply r).currentQPS ≤ r.currentQPS ↔
      (v = .backOff → 10 ≤ r.currentQPS) ∧ (v = .ease → r.safeQPS * (4 / 5) ≤ r.currentQPS) ∧
        (v = .fallBack → r.safeQPS ≤ r.currentQPS) := by
  have hpos := h.pos
  cases v with
  | warn => exact ⟨fun _ => ⟨nofun, nofun, nofun⟩, fun _ => le_refl _⟩
  | confirm => exact ⟨fun _ => ⟨nofun, nofun, nofun⟩, fun _ => h.slow hfits⟩
  | backOff =>
    have hstarted : r.Started := by
      rcases hfits with hp | hp | hp <;> exact Rates.started_of hp nofun nofun
    have hband := h.band hstarted
    have hhalf := hband.half
    show backedOff _ _ ≤ _ ↔ _
    rw [backedOff_eq hband.safe]
    constructor
    · exact fun hle => ⟨fun _ => (le_max_right _ _).trans hle, nofun, nofun⟩
    · exact fun hle => max_le (max_le (by linarith) (by linarith)) (hle.1 rfl)
  | ease =>
    show eased _ _ ≤ _ ↔ _
    rw [eased_eq]
    constructor
    · exact fun hle => ⟨nofun, fun _ => (le_max_right _ _).trans hle, nofun⟩
    · exact fun hle => max_le (by linarith) (hle.2.1 rfl)
  | fallBack => exact ⟨fun hle => ⟨nofun, nofun, fun _ => hle⟩, fun hle => hle.2.2 rfl⟩
  | hold | start | grow | probe | edge | settle | accept | raise | resume => exact hv.elim

/-- **A congested round does not raise the rate** if and only if its clamp is not above the rate:
for a backoff the floor of 10, for a small step back 80% of the safe rate, for a failed probe the
safe rate. -/
theorem congestion_lowers_iff {p : MemoryPressureController} (as : List PressureAction)
    (hrun : run MemoryPressureController.step adaptiveController as = some p) (hc : p.Congested) :
    p.detect.currentQPS ≤ p.currentQPS ↔ p.ClampsBelow := by
  have hiff := p.verdict_fits.lowers_iff (banded_run as hrun) hc.retreats
  rw [← p.detect_rates] at hiff
  refine Iff.trans hiff ?_
  unfold MemoryPressureController.ClampsBelow
  cases p.verdict <;> simp [rates]

/-- Latencies of three times the baseline, five rounds after the start. -/
def criticalLatency : List PressureAction :=
  ([100, 100, 100, 100, 100].flatMap uniformRound) ++ [.recordLatency 300, .recordLatency 300, .recordLatency 300]

theorem critical_latency_lowers :
    ∃ p, run MemoryPressureController.step adaptiveController criticalLatency = some p ∧ p.Congested ∧
      p.detect.currentQPS ≤ p.currentQPS := by
  have hready : (run step adaptiveController criticalLatency).map
      (fun p => decide (p.Congested ∧ p.verdict = .backOff ∧ 10 ≤ p.currentQPS)) = some true := by
    decide +kernel
  obtain ⟨p, hrun, hp⟩ := Option.map_eq_some_iff.mp hready
  obtain ⟨hc, hv, hfloor⟩ := of_decide_eq_true hp
  refine ⟨p, hrun, hc, (congestion_lowers_iff criticalLatency hrun hc).mpr ?_⟩
  unfold MemoryPressureController.ClampsBelow
  rw [hv]
  exact hfloor

/-- Two backoffs in a row take the rate to 72% of the safe rate; the latencies stay at twice the
baseline. -/
def backedOffTwice : List PressureAction :=
  ([100, 100, 100, 100, 100, 300, 100, 100, 100, 300, 200, 200, 200].flatMap uniformRound) ++
    [.recordLatency 200, .recordLatency 200, .recordLatency 200]

theorem congestion_raises :
    ∃ p, run MemoryPressureController.step adaptiveController backedOffTwice = some p ∧ p.Congested ∧
      p.currentQPS < p.detect.currentQPS := by
  have hraised : (run step adaptiveController backedOffTwice).map
      (fun p => decide (p.Congested ∧ p.currentQPS < p.detect.currentQPS)) = some true := by
    decide +kernel
  obtain ⟨p, hrun, hp⟩ := Option.map_eq_some_iff.mp hraised
  exact ⟨p, hrun, of_decide_eq_true hp⟩

end Robot.Report
