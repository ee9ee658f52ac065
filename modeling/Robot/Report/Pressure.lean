import Robot.Lib.Machine
import Robot.Lib.OrderStat
import Robot.Report.Tracing

/-!
# The adaptive pressure controller

`report/impl/pressure_impl.go`, in its adaptive mode. Requests report their latencies and are
counted while they are pending; a ticker calls `detect`, which takes the latencies of the round,
compares their median with a baseline, and moves `currentQPS` through five phases: the baseline is
collected, the rate grows by a factor (slow start), then by steps (probing), is probed now and then
(steady), and is cut when the latency is critical (backoff).

`detect` runs in one goroutine and is the only one to touch the phase and the rates. Of what the
other goroutines write it takes the latencies under their lock and loads the pending count once, so
a round is one step here and a late latency or count belongs to the next round.

Rates and latencies are rational numbers. The one place where a `float64` is not a number is the
quotient of a latency and the baseline, which may be `0`; `divide` has the infinity and the NaN that
Go gets there. `dividedBy` is a history: the baselines that a quotient was taken by. Nothing reads it.
The snapshots of a round, and `baselineSum`, are written and never read by the controller; they are
left out.
-/

namespace Robot.Report

open Robot.Lib
open TracingBucket (truncate)

/-- `adaptivePhase`. -/
inductive AdaptivePhase
  | disabled
  | baseline
  | slowStart
  | probing
  | steady
  | backoff
  deriving DecidableEq, Repr

/-- `report.PressureLevel`. -/
inductive PressureLevel
  | normal
  | warning
  | high
  | critical
  deriving DecidableEq, Repr

/-! ## The constants -/

def defaultInitialQPS : ℚ := 20
def latencyRatioOK : ℚ := 6 / 5
def latencyRatioWarn : ℚ := 3 / 2
def latencyRatioCritical : ℚ := 5 / 2
def slowStartMultiplier : ℚ := 13 / 10
def probeIncreaseRatio : ℚ := 1 / 50
def minProbeStep : ℚ := 10
def steadyProbeRatio : ℚ := 1 / 100
def minSteadyStep : ℚ := 5
def backoffRatio : ℚ := 17 / 20
def baselineWindowCount : ℕ := 5
def stableThreshold : ℕ := 5
def backoffCooldown : ℤ := 3
def steadyProbeInterval : ℕ := 5
def ewmaAlpha : ℚ := 3 / 10
def slowStartWarnConfirm : ℕ := 2

/-! ## Quotients -/

/-- A quotient of two `float64` that are not negative. -/
inductive FloatRatio
  | finite (q : ℚ)
  | inf
  | nan
  deriving DecidableEq, Repr

def divide (x y : ℚ) : FloatRatio :=
  if y = 0 then if x = 0 then .nan else .inf else .finite (x / y)

/-- `r >= bound`; false for a NaN. -/
def FloatRatio.ge (r : FloatRatio) (bound : ℚ) : Bool :=
  match r with
  | .finite q => bound ≤ q
  | .inf => true
  | .nan => false

/-- `r < bound`; false for a NaN. -/
def FloatRatio.lt (r : FloatRatio) (bound : ℚ) : Bool :=
  match r with
  | .finite q => q < bound
  | .inf | .nan => false

/-! ## The controller -/

structure MemoryPressureController where
  targetQPS : ℚ
  phase : AdaptivePhase
  currentQPS : ℚ
  safeQPS : ℚ
  baselineP50 : ℚ
  baselineSet : Bool
  baselineCollecting : ℕ
  baselineP50s : List ℚ
  latencies : List ℕ
  pending : ℤ
  lastPending : ℤ
  stableCount : ℕ
  backoffWait : ℤ
  steadyCounter : ℕ
  probingUp : Bool
  smoothedRatio : ℚ
  smoothedSet : Bool
  warnStreak : ℕ
  level : PressureLevel
  dividedBy : List ℚ

/-- `NewMemoryPressureController`. -/
def newMemoryPressureController : MemoryPressureController where
  targetQPS := 0
  phase := .disabled
  currentQPS := defaultInitialQPS
  safeQPS := 0
  baselineP50 := 0
  baselineSet := false
  baselineCollecting := 0
  baselineP50s := []
  latencies := []
  pending := 0
  lastPending := 0
  stableCount := 0
  backoffWait := 0
  steadyCounter := 0
  probingUp := false
  smoothedRatio := 0
  smoothedSet := false
  warnStreak := 0
  level := .normal
  dividedBy := []

namespace MemoryPressureController

def setTargetQPS (p : MemoryPressureController) (qps : ℚ) : MemoryPressureController :=
  if qps > 0 then { p with targetQPS := qps, phase := .disabled, currentQPS := qps }
  else { p with targetQPS := qps, phase := .baseline, currentQPS := defaultInitialQPS }

def addPending (p : MemoryPressureController) : MemoryPressureController :=
  { p with pending := p.pending + 1 }

def donePending (p : MemoryPressureController) : MemoryPressureController :=
  { p with pending := p.pending - 1 }

/-- `RecordLatency`, in nanoseconds; nothing is collected in the fixed mode. -/
def recordLatency (p : MemoryPressureController) (d : ℕ) : MemoryPressureController :=
  if p.targetQPS > 0 then p else { p with latencies := p.latencies ++ [d] }

/-- The history after a quotient by the baseline. -/
def divided (p : MemoryPressureController) : MemoryPressureController :=
  { p with dividedBy := p.baselineP50 :: p.dividedBy }

/-! ## The phases -/

def enterBackoff (p : MemoryPressureController) : MemoryPressureController :=
  let qps := p.currentQPS * backoffRatio
  let qps := if p.safeQPS > 0 ∧ qps < p.safeQPS * (1 / 2) then p.safeQPS * (1 / 2) else qps
  let qps := if qps < 10 then 10 else qps
  { p with phase := .backoff, backoffWait := backoffCooldown, currentQPS := qps }

/-- `doBaseline`: the baseline is the median of the rounds. -/
def doBaseline (p : MemoryPressureController) (p50ns : ℚ) : MemoryPressureController :=
  let p := { p with
    baselineCollecting := p.baselineCollecting + 1
    baselineP50s := p.baselineP50s ++ [p50ns] }
  if p.baselineCollecting ≥ baselineWindowCount then
    { p with
      baselineP50 := sortedAt p.baselineP50s (p.baselineP50s.length / 2) 0
      baselineSet := true
      smoothedRatio := 1
      smoothedSet := true
      phase := .slowStart
      safeQPS := p.currentQPS }
  else p

/-- `doSlowStart`: the quotient is taken whatever the baseline is. -/
def doSlowStart (p : MemoryPressureController) (p50ns : ℚ) (currentPending : ℤ)
    (pendingGrowing : Bool) : MemoryPressureController :=
  let rawRatio := divide p50ns p.baselineP50
  let p := p.divided
  if rawRatio.ge latencyRatioCritical then { p with warnStreak := 0 }.enterBackoff
  else if rawRatio.lt latencyRatioWarn ∧ !pendingGrowing ∧
      currentPending < truncate (p.currentQPS * 2) then
    { p with
      warnStreak := 0
      safeQPS := p.currentQPS
      currentQPS := p.currentQPS * slowStartMultiplier }
  else
    let p := { p with warnStreak := p.warnStreak + 1 }
    if p.warnStreak ≥ slowStartWarnConfirm then
      { p with currentQPS := p.safeQPS, phase := .probing, stableCount := 0, warnStreak := 0 }
    else p

/-- `p.baselineP50 > 0 && p50ns/p.baselineP50 >= latencyRatioCritical`. -/
def isCritical (p : MemoryPressureController) (p50ns : ℚ) : Bool :=
  decide (p.baselineP50 > 0) && (divide p50ns p.baselineP50).ge latencyRatioCritical

/-- The history after that test. -/
def tested (p : MemoryPressureController) : MemoryPressureController :=
  if p.baselineP50 > 0 then p.divided else p

/-- The smoothed ratio; a growing pending count makes it a warning. -/
def congestionRatio (p : MemoryPressureController) (pendingGrowing : Bool) : ℚ :=
  if pendingGrowing ∧ p.smoothedRatio < latencyRatioWarn then latencyRatioWarn else p.smoothedRatio

/-- The small step back of probing and steady. -/
def easeOff (p : MemoryPressureController) : MemoryPressureController :=
  let qps := p.currentQPS * (19 / 20)
  { p with currentQPS := if qps < p.safeQPS * (4 / 5) then p.safeQPS * (4 / 5) else qps }

/-- A step of the rate: a share of it, and at least `least`. -/
def stepOf (qps share least : ℚ) : ℚ := if qps * share < least then least else qps * share

def doProbing (p : MemoryPressureController) (p50ns : ℚ) (pendingGrowing : Bool) :
    MemoryPressureController :=
  let critical := p.isCritical p50ns
  let p := p.tested
  if critical then p.enterBackoff
  else
    let ratio := p.congestionRatio pendingGrowing
    if ratio < latencyRatioOK then
      { p with
        safeQPS := p.currentQPS
        currentQPS := p.currentQPS + stepOf p.currentQPS probeIncreaseRatio minProbeStep
        stableCount := 0 }
    else if ratio < latencyRatioWarn then
      let p := { p with safeQPS := p.currentQPS, stableCount := p.stableCount + 1 }
      if p.stableCount ≥ stableThreshold then
        { p with phase := .steady, steadyCounter := 0, probingUp := false }
      else p
    else { p.easeOff with stableCount := 0 }

def doSteady (p : MemoryPressureController) (p50ns : ℚ) (pendingGrowing : Bool) :
    MemoryPressureController :=
  let critical := p.isCritical p50ns
  let p := p.tested
  if critical then p.enterBackoff
  else
    let ratio := p.congestionRatio pendingGrowing
    let p := { p with steadyCounter := p.steadyCounter + 1 }
    if p.probingUp then
      if ratio ≥ latencyRatioWarn then { p with currentQPS := p.safeQPS, probingUp := false }
      else if ratio < latencyRatioOK then { p with safeQPS := p.currentQPS, probingUp := false }
      else p
    else if ratio ≥ latencyRatioWarn then p.easeOff
    else if p.steadyCounter ≥ steadyProbeInterval then
      { p with
        currentQPS := p.currentQPS + stepOf p.currentQPS steadyProbeRatio minSteadyStep
        steadyCounter := 0
        probingUp := true }
    else p

def doBackoff (p : MemoryPressureController) : MemoryPressureController :=
  let p := { p with backoffWait := p.backoffWait - 1 }
  if p.backoffWait ≤ 0 then { p with phase := .probing, stableCount := 0 } else p

/-! ## A round -/

/-- `computeP50`. -/
def computeP50 (samples : List ℕ) : ℕ := sortedAt samples (samples.length / 2) 0

def updateSmoothedRatio (p : MemoryPressureController) (rawRatio : ℚ) : MemoryPressureController :=
  if !p.smoothedSet then { p with smoothedRatio := rawRatio, smoothedSet := true }
  else { p with smoothedRatio := ewmaAlpha * rawRatio + (1 - ewmaAlpha) * p.smoothedRatio }

/-- The smoothing of a round; without a positive baseline there is none. -/
def smooth (p : MemoryPressureController) (p50ns : ℚ) : MemoryPressureController :=
  if p.baselineSet ∧ p.baselineP50 > 0 then p.divided.updateSmoothedRatio (p50ns / p.baselineP50)
  else p

def pendingGrowing (p : MemoryPressureController) : Bool :=
  decide (p.pending > p.lastPending + truncate (p.currentQPS * (1 / 2)) ∧
    p.pending > truncate (p.currentQPS * (3 / 2)))

def updateLevel (p : MemoryPressureController) (p50ns : ℚ) : MemoryPressureController :=
  if !p.baselineSet ∨ p.baselineP50 ≤ 0 then { p with level := .normal }
  else
    let ratio := divide p50ns p.baselineP50
    let p := p.divided
    if ratio.ge latencyRatioCritical then { p with level := .critical }
    else if ratio.ge latencyRatioWarn then { p with level := .high }
    else if ratio.ge latencyRatioOK then { p with level := .warning }
    else { p with level := .normal }

/-- The `switch` of `detect`. -/
def doPhase (p : MemoryPressureController) (p50ns : ℚ) (currentPending : ℤ) (growing : Bool) :
    MemoryPressureController :=
  match p.phase with
  | .disabled => p
  | .baseline => p.doBaseline p50ns
  | .slowStart => p.doSlowStart p50ns currentPending growing
  | .probing => p.doProbing p50ns growing
  | .steady => p.doSteady p50ns growing
  | .backoff => p.doBackoff

def detect (p : MemoryPressureController) : MemoryPressureController :=
  if p.phase = .disabled then p
  else
    let samples := p.latencies
    let currentPending := p.pending
    let p := { p with latencies := [] }
    if samples.length < 3 then p
    else
      let p50ns : ℚ := computeP50 samples
      let p := p.smooth p50ns
      let growing := p.pendingGrowing
      let p := { p with lastPending := currentPending }
      (p.doPhase p50ns currentPending growing).updateLevel p50ns

end MemoryPressureController

/-! ## Runs -/

inductive PressureAction
  | addPending
  | donePending
  | recordLatency (d : ℕ)
  | detect
  deriving DecidableEq, Repr

def MemoryPressureController.step (p : MemoryPressureController) :
    PressureAction → Option MemoryPressureController
  | .addPending => some p.addPending
  | .donePending => some p.donePending
  | .recordLatency d => some (p.recordLatency d)
  | .detect => some p.detect

/-- A fresh controller in the adaptive mode. -/
def adaptiveController : MemoryPressureController := newMemoryPressureController.setTargetQPS 0

/-- A round in which all latencies are the same. -/
def uniformRound (d : ℕ) : List PressureAction :=
  [.recordLatency d, .recordLatency d, .recordLatency d, .detect]

end Robot.Report
