import Robot.Lib.Int64
import Robot.Report.Redis

/-!
# The two encodings of a metrics series

`report/metrics_compact.go`. A series with an even spacing, to the second, is written as a start, a
step and its values; any other as a list of points. Timestamps are cut to the second either way.
`NanoSeries` is the series as the collector has it, with times in nanoseconds since the epoch; `Wire`
is what `encoding/json` is given and gives back, an empty list or map being as good as none.

The reader of the compact form computes each time as `start + i * step` with `time.Duration`s, that
is, `int64` numbers of nanoseconds. The encoder looks at seconds only. So a series comes back as it
was, cut to the second, if and only if it is not evenly spaced or its last time is less than `2 ^ 63`
nanoseconds after the first, both cut to the second (`round_trips_iff`). Cutting can move the two
times apart by almost a second, so a span that fits before may not fit after
(`longest_span_wraps`).
-/

namespace Robot.Report

open Robot.Lib List

/-- `map[string]string`. -/
abbrev LabelMap : Type := Finmap fun _ : String => String

/-- `MetricsPoint`, with its time in nanoseconds. -/
@[ext] structure NanoPoint where
  timestamp : ℤ
  value : ℚ
deriving DecidableEq, Inhabited

/-- `MetricsSeries`, with times in nanoseconds. -/
@[ext] structure NanoSeries where
  name : String
  labels : LabelMap
  points : List NanoPoint
deriving DecidableEq

/-- `time.Second`. -/
def nanosPerSecond : ℤ := 1000000000

/-- `t.Unix()`. -/
def unix (t : ℤ) : ℤ := t / nanosPerSecond

/-- `t.Truncate(time.Second)`, which rounds down before the epoch, too. -/
def truncateSecond (t : ℤ) : ℤ := t / nanosPerSecond * nanosPerSecond

theorem unix_truncateSecond (t : ℤ) : unix (truncateSecond t) = unix t :=
  Int.mul_ediv_cancel _ (by decide)

theorem truncateSecond_eq (t : ℤ) : truncateSecond t = unix t * nanosPerSecond := rfl

def NanoPoint.truncated (p : NanoPoint) : NanoPoint :=
  { p with timestamp := truncateSecond p.timestamp }

/-- The series to the second. -/
def NanoSeries.truncated (s : NanoSeries) : NanoSeries :=
  { s with points := s.points.map NanoPoint.truncated }

/-! ## Writing -/

/-- The second of a point, as `detectRegularInterval` takes it. -/
def NanoPoint.second (p : NanoPoint) : ℤ := unix (truncateSecond p.timestamp)

/-- The loop of `detectRegularInterval`. -/
def sameGaps (base : ℤ) (prev : NanoPoint) : List NanoPoint → Bool
  | [] => true
  | p :: rest => if p.second - prev.second ≠ base then false else sameGaps base p rest

def detectRegularInterval : List NanoPoint → Option ℤ
  | p₀ :: p₁ :: rest =>
    let base := p₁.second - p₀.second
    if base ≤ 0 then none else if sameGaps base p₁ rest then some base else none
  | _ => none

/-- `metricsSeriesWire`. -/
structure Wire where
  name : String
  labels : LabelMap
  start : Option ℤ
  stepS : Option ℤ
  values : List ℚ
  points : List NanoPoint
  stepMs : Option ℤ

/-- `MarshalJSON`. -/
def NanoSeries.marshal (s : NanoSeries) : Wire :=
  match detectRegularInterval s.points with
  | some stepS =>
    { name := s.name
      labels := s.labels
      start := s.points.head?.map fun p => truncateSecond p.timestamp
      stepS := some stepS
      values := s.points.map NanoPoint.value
      points := []
      stepMs := none }
  | none =>
    { name := s.name
      labels := s.labels
      start := none
      stepS := none
      values := []
      points := s.points.map NanoPoint.truncated
      stepMs := none }

/-! ## Reading -/

/-- The step as a `time.Duration`; `step_ms` is the older form. -/
def Wire.step (w : Wire) : ℤ :=
  match w.stepS, w.stepMs with
  | some stepS, _ => i64 (stepS * nanosPerSecond)
  | none, some stepMs => i64 (stepMs * 1000000)
  | none, none => nanosPerSecond

/-- `UnmarshalJSON`. -/
def Wire.unmarshal (w : Wire) : NanoSeries :=
  { name := w.name
    labels := w.labels
    points :=
      match w.start, w.values with
      | some start, v :: values =>
        (v :: values).zipIdx.map fun x => ⟨start + i64 (x.2 * w.step), x.1⟩
      | _, _ => w.points }

/-! ## Even spacing -/

/-- At least two points, each a fixed number of seconds after the one before. -/
structure Evenly (base : ℤ) (points : List NanoPoint) : Prop where
  two : 2 ≤ points.length
  forward : 0 < base
  chain : points.IsChain fun p q => q.second - p.second = base

theorem sameGaps_iff {base : ℤ} : ∀ {prev : NanoPoint} {rest : List NanoPoint},
    sameGaps base prev rest = true ↔
      (prev :: rest).IsChain fun p q => q.second - p.second = base := by
  intro prev rest
  induction rest generalizing prev with
  | nil => exact ⟨fun _ => isChain_singleton prev, fun _ => rfl⟩
  | cons p rest ih =>
    rw [sameGaps, isChain_cons_cons, ← ih]
    split
    · next h => exact ⟨nofun, fun hchain => absurd hchain.1 h⟩
    · next h => exact ⟨fun hrest => ⟨not_not.mp h, hrest⟩, fun hchain => hchain.2⟩

/-- **What the encoder looks for.** -/
theorem detectRegularInterval_eq_some_iff {points : List NanoPoint} {base : ℤ} :
    detectRegularInterval points = some base ↔ Evenly base points := by
  match points with
  | [] => exact ⟨nofun, fun h => absurd h.two (by decide)⟩
  | [p] => exact ⟨nofun, fun h => absurd (show 2 ≤ 1 from h.two) (by decide)⟩
  | p₀ :: p₁ :: rest =>
    unfold detectRegularInterval
    dsimp only
    constructor
    · intro h
      split at h
      · cases h
      · next hpos =>
        split at h
        · next hgaps =>
          cases h
          exact ⟨by simp, not_le.mp hpos, isChain_cons_cons.mpr ⟨rfl, sameGaps_iff.mp hgaps⟩⟩
        · cases h
    · intro h
      obtain ⟨hfirst, hrest⟩ := isChain_cons_cons.mp h.chain
      rw [hfirst, if_neg (not_le.mpr h.forward), if_pos (sameGaps_iff.mpr hrest)]

/-- The seconds of an even spacing. -/
theorem second_of_chain {base : ℤ} : ∀ {points : List NanoPoint} {p₀ : NanoPoint},
    (p₀ :: points).IsChain (fun p q => q.second - p.second = base) →
      ∀ (i : ℕ) (h : i < (p₀ :: points).length),
        ((p₀ :: points)[i]).second = p₀.second + i * base := by
  intro points
  induction points with
  | nil =>
    intro p₀ _ i h
    have hi : i = 0 := by simpa using h
    subst hi
    simp
  | cons p₁ points ih =>
    intro p₀ hchain i h
    obtain ⟨hfirst, hrest⟩ := isChain_cons_cons.mp hchain
    cases i with
    | zero => simp
    | succ i =>
      have hnext := ih hrest i (by simpa using h)
      rw [getElem_cons_succ, hnext]
      push_cast
      linarith

/-! ## The round trip -/

/-- The points that the reader makes of the compact form. -/
def spaced (start step : ℤ) (values : List ℚ) : List NanoPoint :=
  values.zipIdx.map fun x => ⟨start + i64 (x.2 * step), x.1⟩

theorem getElem?_spaced (start step : ℤ) (values : List ℚ) (i : ℕ) :
    (spaced start step values)[i]? = values[i]?.map fun v => ⟨start + i64 (i * step), v⟩ := by
  unfold spaced
  rw [List.getElem?_map, List.getElem?_zipIdx, Option.map_map]
  simp only [Nat.zero_add]
  rfl

theorem unmarshal_marshal_uneven {s : NanoSeries} (h : detectRegularInterval s.points = none) :
    s.marshal.unmarshal = s.truncated := by
  unfold NanoSeries.marshal
  rw [h]
  rfl

theorem unmarshal_marshal_even {s : NanoSeries} {base : ℤ} {p₀ : NanoPoint} {rest : List NanoPoint}
    (hpoints : s.points = p₀ :: rest) (h : detectRegularInterval s.points = some base) :
    s.marshal.unmarshal =
      ⟨s.name, s.labels, spaced (truncateSecond p₀.timestamp) (i64 (base * nanosPerSecond))
        (s.points.map NanoPoint.value)⟩ := by
  unfold NanoSeries.marshal
  rw [h, hpoints]
  rfl

/-- The times that come out right are those that fit. -/
theorem spaced_eq_iff {base : ℤ} {p₀ : NanoPoint} {rest : List NanoPoint}
    (h : Evenly base (p₀ :: rest)) :
    spaced (truncateSecond p₀.timestamp) (i64 (base * nanosPerSecond))
        ((p₀ :: rest).map NanoPoint.value) = (p₀ :: rest).map NanoPoint.truncated ↔
      rest.length * base * nanosPerSecond < 2 ^ 63 := by
  have hsecond := second_of_chain h.chain
  -- the time of point `i`, as it should be
  have htime : ∀ (i : ℕ) (hi : i < (p₀ :: rest).length),
      truncateSecond ((p₀ :: rest)[i]).timestamp =
        truncateSecond p₀.timestamp + i * base * nanosPerSecond := by
    intro i hi
    have hi' := hsecond i hi
    unfold NanoPoint.second at hi'
    rw [unix_truncateSecond, unix_truncateSecond] at hi'
    rw [truncateSecond_eq, truncateSecond_eq, hi']
    ring
  have hwrapped : ∀ i : ℕ, i64 (i * i64 (base * nanosPerSecond)) = i64 (i * base * nanosPerSecond) := by
    intro i
    rw [i64_mul_right, mul_assoc]
  constructor
  · intro heq
    by_contra hover
    have hlen : rest.length < (p₀ :: rest).length := by simp
    have hlast := congrArg (fun l : List NanoPoint => l[rest.length]?) heq
    rw [getElem?_spaced, List.getElem?_map, List.getElem?_map, List.getElem?_eq_getElem hlen,
      hwrapped] at hlast
    have hsame := congrArg NanoPoint.timestamp (Option.some.inj hlast)
    have hlt := i64_lt (rest.length * base * nanosPerSecond)
    have hright := htime rest.length hlen
    simp only [NanoPoint.truncated] at hsame
    linarith
  · intro hfits
    refine ext_getElem? fun i => ?_
    rw [getElem?_spaced, List.getElem?_map, List.getElem?_map, Option.map_map, hwrapped]
    cases hp : (p₀ :: rest)[i]? with
    | none => rfl
    | some p =>
      obtain ⟨hi, rfl⟩ := List.getElem?_eq_some_iff.mp hp
      have hle : (i : ℤ) * base * nanosPerSecond ≤ rest.length * base * nanosPerSecond := by
        have hcast : (i : ℤ) ≤ rest.length := by
          rw [length_cons] at hi
          omega
        exact mul_le_mul_of_nonneg_right (mul_le_mul_of_nonneg_right hcast h.forward.le) (by decide)
      have hnonneg : 0 ≤ (i : ℤ) * base * nanosPerSecond :=
        mul_nonneg (mul_nonneg (Int.natCast_nonneg i) h.forward.le) (by decide)
      refine congrArg some (NanoPoint.ext ?_ rfl)
      show truncateSecond p₀.timestamp + i64 (i * base * nanosPerSecond) = truncateSecond _
      rw [i64_of_lt hnonneg (hle.trans_lt hfits), htime i hi]

/-- **A series comes back as it was**, cut to the second, if and only if it is not evenly spaced or its
times, cut to the second, span less than `2 ^ 63` nanoseconds. -/
theorem round_trips_iff (s : NanoSeries) :
    s.marshal.unmarshal = s.truncated ↔
      ∀ base, Evenly base s.points →
        ((s.points.length : ℤ) - 1) * base * nanosPerSecond < 2 ^ 63 := by
  cases hd : detectRegularInterval s.points with
  | none =>
    refine ⟨fun _ base heven => ?_, fun _ => unmarshal_marshal_uneven hd⟩
    rw [detectRegularInterval_eq_some_iff.mpr heven] at hd
    cases hd
  | some base =>
    have heven := detectRegularInterval_eq_some_iff.mp hd
    obtain ⟨p₀, rest, hpoints⟩ := exists_cons_of_length_pos (Nat.lt_of_lt_of_le Nat.two_pos heven.two)
    have hlen : (s.points.length : ℤ) - 1 = rest.length := by
      rw [hpoints, length_cons]
      push_cast
      ring
    have hsame : s.marshal.unmarshal = s.truncated ↔
        spaced (truncateSecond p₀.timestamp) (i64 (base * nanosPerSecond))
          ((p₀ :: rest).map NanoPoint.value) = (p₀ :: rest).map NanoPoint.truncated := by
      rw [unmarshal_marshal_even hpoints hd, NanoSeries.truncated, hpoints]
      exact ⟨fun he => congrArg NanoSeries.points he, fun he => by rw [he]⟩
    rw [hsame, spaced_eq_iff (hpoints ▸ heven), hlen]
    constructor
    · intro h base' heven'
      have hbase : base' = base := by
        have hd' := detectRegularInterval_eq_some_iff.mpr heven'
        exact Option.some.inj (hd'.symm.trans hd)
      rw [hbase]
      exact h
    · intro h
      exact h base heven

/-- Half a second after the epoch, and `2 ^ 63 - 1` nanoseconds later. -/
def longestSpan : NanoSeries where
  name := "online_users"
  labels := ∅
  points := [⟨500000000, 1⟩, ⟨500000000 + (2 ^ 63 - 1), 2⟩]

/-- The span fits, the span of the seconds does not: the second time comes back before the first. -/
theorem longest_span_wraps :
    (∀ p ∈ longestSpan.points, ∀ q ∈ longestSpan.points, q.timestamp - p.timestamp < 2 ^ 63) ∧
      longestSpan.marshal.unmarshal ≠ longestSpan.truncated := by
  refine ⟨by decide, fun h => ?_⟩
  have hpoints := congrArg NanoSeries.points h
  revert hpoints
  decide

end Robot.Report
