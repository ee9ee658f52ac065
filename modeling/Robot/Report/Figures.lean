import Robot.Lib.Moments
import Robot.Report.Compact

/-!
# What compaction adds up

The loop of `CompactTracingsBySecond` reads like a fold in which the order could matter: a
minimum with `-1` for unset, a mean that moves with every record, maps made on first use. It
does not, because every field of an accumulator stands for a sum in a commutative monoid.

* `Figures` is that monoid for all fields but the variance: counts add, totals add modulo
  `2 ^ 64`, minima and maxima are taken, and the two maps add key by key. The unset minimum is
  `none`, the neutral element.
* For the variance the accumulator's mean and `M2` stand for the plain sums of the durations
  and of their squares (`Moments.sums`), and Chan's formula adds those.

One merge adds the figures of the record (`merge_figures`) and its sums (`merge_sums`), so the
accumulator of a group is a sum over the group (`accOf_figures`, `accOf_sums`); and the record
made of it has the figures of the group again (`record_figures`). A record that went through
compaction is determined by them, but for its variance (`Normal.agree`), and the variance is
determined by the sums (`record_variance`).
-/

namespace Robot.Report

open Robot.Lib List

/-- What the records of one key add up to, the variance apart. -/
@[ext] structure Figures where
  count : Int
  total : BitVec 64
  low : Option Int
  high : Nat
  codes : Int → Option Int
  errors : String → Option Int

namespace Figures

instance instZero : Zero Figures where
  zero :=
    { count := 0, total := 0, low := none, high := 0
      codes := fun _ => none, errors := fun _ => none }

instance instAdd : Add Figures where
  add a b :=
    { count := a.count + b.count
      total := a.total + b.total
      low := Option.merge min a.low b.low
      high := max a.high b.high
      codes := fun c => Option.merge (· + ·) (a.codes c) (b.codes c)
      errors := fun e => Option.merge (· + ·) (a.errors e) (b.errors e) }

instance instAddCommMonoid : AddCommMonoid Figures where
  nsmul := nsmulRec
  add_assoc a b c := by
    refine Figures.ext ?_ ?_ ?_ ?_ ?_ ?_
    · exact add_assoc a.count b.count c.count
    · exact add_assoc a.total b.total c.total
    · exact (Option.associative_merge min).assoc a.low b.low c.low
    · exact max_assoc a.high b.high c.high
    · exact funext fun k =>
        (Option.associative_merge fun m n : Int => m + n).assoc (a.codes k) (b.codes k) (c.codes k)
    · exact funext fun k =>
        (Option.associative_merge fun m n : Int => m + n).assoc (a.errors k) (b.errors k)
          (c.errors k)
  add_comm a b := by
    refine Figures.ext ?_ ?_ ?_ ?_ ?_ ?_
    · exact add_comm a.count b.count
    · exact add_comm a.total b.total
    · exact (Option.commutative_merge min).comm a.low b.low
    · exact max_comm a.high b.high
    · exact funext fun k =>
        (Option.commutative_merge fun m n : Int => m + n).comm (a.codes k) (b.codes k)
    · exact funext fun k =>
        (Option.commutative_merge fun m n : Int => m + n).comm (a.errors k) (b.errors k)
  zero_add a := by
    refine Figures.ext ?_ ?_ ?_ ?_ ?_ ?_
    · exact zero_add a.count
    · exact zero_add a.total
    · exact Option.merge_none_left
    · exact Nat.zero_max a.high
    · exact funext fun k => Option.merge_none_left
    · exact funext fun k => Option.merge_none_left
  add_zero a := by
    refine Figures.ext ?_ ?_ ?_ ?_ ?_ ?_
    · exact add_zero a.count
    · exact add_zero a.total
    · exact Option.merge_none_right
    · exact Nat.max_zero a.high
    · exact funext fun k => Option.merge_none_right
    · exact funext fun k => Option.merge_none_right

theorem add_low (a b : Figures) : (a + b).low = Option.merge min a.low b.low := rfl

end Figures

/-! ## Records and accumulators -/

/-- A record's share. A start record has no durations. -/
def TracingRecord.figures (r : TracingRecord) : Figures :=
  { count := r.count
    total := if r.startData then 0 else BitVec.ofInt 64 r.totalDurationMs
    low := if r.startData then none else some r.minDurationMs
    high := if r.startData then 0 else r.maxDurationMs.toNat
    codes := fun c => r.code.lookup c
    errors := fun e => r.error.lookup e }

variable {r : TracingRecord} {k : TracingBucketKey} {g : List TracingRecord}

theorem TracingRecord.figures_of_start (hs : r.startData = true) :
    r.figures =
      { count := r.count, total := 0, low := none, high := 0
        codes := fun c => r.code.lookup c, errors := fun e => r.error.lookup e } := by
  unfold figures
  simp only [hs, if_true]

theorem TracingRecord.figures_of_end (hs : r.startData = false) :
    r.figures =
      { count := r.count, total := BitVec.ofInt 64 r.totalDurationMs
        low := some r.minDurationMs, high := r.maxDurationMs.toNat
        codes := fun c => r.code.lookup c, errors := fun e => r.error.lookup e } := by
  unfold figures
  simp only [hs, Bool.false_eq_true, if_false]

/-- Count, mean and squared deviations of the durations behind a record, as the merge reads them. -/
def TracingRecord.moments (r : TracingRecord) : Moments ℚ :=
  { count := r.count
    mean := (r.totalDurationMs : ℚ) / r.count
    m2 := (r.variance : ℚ) * r.count }

namespace CompactAcc

/-- What an accumulator stands for; `-1` is no minimum. -/
def figures (a : CompactAcc) : Figures :=
  { count := a.count
    total := BitVec.ofInt 64 a.totalMs
    low := if a.minMs < 0 then none else some a.minMs
    high := a.maxMs.toNat
    codes := fun c => a.codes.lookup c
    errors := fun e => a.errors.lookup e }

def moments (a : CompactAcc) : Moments ℚ := { count := a.count, mean := a.mean, m2 := a.m2 }

variable {r : TracingRecord}

theorem merge_of_start (a : CompactAcc) (hs : r.startData = true) :
    a.merge r = { a with
      count := a.count + r.count
      codes := a.codes.merge r.code
      errors := a.errors.merge r.error } := by
  unfold merge
  rw [if_neg (by simp [hs])]

theorem merge_of_end (a : CompactAcc) (hs : r.startData = false)
    (hcount : 0 < r.count) :
    a.merge r = { a.mergeDurations r with
      count := a.count + r.count
      codes := a.codes.merge r.code
      errors := a.errors.merge r.error } := by
  unfold merge
  rw [if_pos ⟨by simp [hs], hcount⟩]
  rfl

/-- The minimum with `-1` for unset, as an optional minimum. -/
theorem min_sentinel (m v : Int) (hv : 0 ≤ v) :
    (if (if m < 0 ∨ v < m then v else m) < 0 then none
      else some (if m < 0 ∨ v < m then v else m))
      = Option.merge min (if m < 0 then none else some m) (some v) := by
  by_cases hm : m < 0
  · rw [if_pos (Or.inl hm), if_neg (by omega), if_pos hm]
    rfl
  · have hmin : (if m < 0 ∨ v < m then v else m) = min m v := by
      split
      · omega
      · omega
    rw [hmin, if_neg (by omega), if_neg hm]
    rfl

/-- **One merge adds the figures of the record.** -/
theorem merge_figures (a : CompactAcc) (hcount : 0 < r.count)
    (hmin : 0 ≤ r.minDurationMs) : (a.merge r).figures = a.figures + r.figures := by
  cases hs : r.startData with
  | true =>
    rw [merge_of_start a hs, TracingRecord.figures_of_start hs]
    refine Figures.ext rfl ?_ ?_ ?_ (funext ?_) (funext ?_)
    · exact (add_zero (BitVec.ofInt 64 a.totalMs)).symm
    · exact Option.merge_none_right.symm
    · exact (Nat.max_zero a.maxMs.toNat).symm
    · exact a.codes.lookup_merge r.code
    · exact a.errors.lookup_merge r.error
  | false =>
    rw [merge_of_end a hs hcount, TracingRecord.figures_of_end hs]
    refine Figures.ext rfl ?_ ?_ ?_ (funext ?_) (funext ?_)
    · show BitVec.ofInt 64 (i64 (a.totalMs + r.totalDurationMs))
        = BitVec.ofInt 64 a.totalMs + BitVec.ofInt 64 r.totalDurationMs
      rw [← BitVec.ofInt_add]
      exact BitVec.eq_of_toInt_eq (by simp [BitVec.toInt_ofInt, i64])
    · exact min_sentinel a.minMs r.minDurationMs hmin
    · show (if r.maxDurationMs > a.maxMs then r.maxDurationMs else a.maxMs).toNat
        = max a.maxMs.toNat r.maxDurationMs.toNat
      split
      · omega
      · omega
    · exact a.codes.lookup_merge r.code
    · exact a.errors.lookup_merge r.error

/-- **One merge adds the sums of the record.** -/
theorem merge_sums {a : CompactAcc} (ha : 0 ≤ a.count)
    (hs : r.startData = false) (hcount : 0 < r.count) :
    (a.merge r).moments.sums = a.moments.sums + r.moments.sums := by
  have hmerge : (a.merge r).moments = a.moments.merge r.moments := by
    rw [merge_of_end a hs hcount]
    simp only [moments, mergeDurations, TracingRecord.moments, Moments.merge, Int.cast_add]
  rw [hmerge]
  refine Moments.sums_merge _ _ ?_
  have hpos : (0 : ℚ) < a.count + r.count := by exact_mod_cast (by omega : 0 < a.count + r.count)
  exact hpos.ne'

end CompactAcc

/-! ## Groups -/

/-- The accumulator after the records of one key. -/
def accOf (g : List TracingRecord) : CompactAcc := g.foldl (fun a r => a.merge r) .zero

/-- Counted records of one key, with proper minima. -/
structure Group (k : TracingBucketKey) (g : List TracingRecord) : Prop where
  key : ∀ r ∈ g, r.key = k
  count : ∀ r ∈ g, 0 < r.count
  min : ∀ r ∈ g, 0 ≤ r.minDurationMs

theorem Group.tail
    (h : Group k (r :: g)) : Group k g where
  key r' hr' := h.key r' (mem_cons_of_mem r hr')
  count r' hr' := h.count r' (mem_cons_of_mem r hr')
  min r' hr' := h.min r' (mem_cons_of_mem r hr')

theorem Group.start (h : Group k g)
     (hr : r ∈ g) : r.startData = k.startData :=
  congrArg TracingBucketKey.startData (h.key r hr)

theorem foldl_merge_figures : ∀ {g : List TracingRecord}, Group k g →
    ∀ a : CompactAcc, (g.foldl (fun a r => a.merge r) a).figures
      = a.figures + (g.map TracingRecord.figures).sum := by
  intro g
  induction g with
  | nil => intro _ a; exact (add_zero a.figures).symm
  | cons r g ih =>
    intro h a
    have hstep := a.merge_figures (h.count r mem_cons_self) (h.min r mem_cons_self)
    rw [foldl_cons, ih h.tail, hstep, map_cons, sum_cons, add_assoc]

/-- **The accumulator of a group is the sum over the group.** -/
theorem accOf_figures (h : Group k g) :
    (accOf g).figures = (g.map TracingRecord.figures).sum :=
  (foldl_merge_figures h .zero).trans (zero_add _)

theorem foldl_merge_sums (hk : k.startData = false) :
    ∀ {g : List TracingRecord}, Group k g → ∀ a : CompactAcc, 0 ≤ a.count →
      (g.foldl (fun a r => a.merge r) a).moments.sums
        = a.moments.sums + (g.map fun r => r.moments.sums).sum := by
  intro g
  induction g with
  | nil => intro _ a _; exact (add_zero a.moments.sums).symm
  | cons r g ih =>
    intro h a ha
    have hs := (h.start mem_cons_self).trans hk
    have hcount := h.count r mem_cons_self
    have hnext : 0 ≤ (a.merge r).count := by
      rw [CompactAcc.merge_count]
      omega
    rw [foldl_cons, ih h.tail _ hnext, CompactAcc.merge_sums ha hs hcount, map_cons,
      sum_cons, add_assoc]

/-- **So are its sums.** -/
theorem accOf_sums (hk : k.startData = false)
    (h : Group k g) : (accOf g).moments.sums = (g.map fun r => r.moments.sums).sum := by
  have hzero : CompactAcc.zero.moments.sums = 0 := Moments.sums_zero
  rw [accOf, foldl_merge_sums hk h .zero (Int.le_refl 0), hzero, zero_add]

/-- Start records leave the durations alone. -/
theorem foldl_merge_start : ∀ (g : List TracingRecord) (a : CompactAcc),
    (∀ r ∈ g, r.startData = true) →
    let b := g.foldl (fun a r => a.merge r) a
    b.totalMs = a.totalMs ∧ b.minMs = a.minMs ∧ b.maxMs = a.maxMs := by
  intro g
  induction g with
  | nil => intro a _; exact ⟨rfl, rfl, rfl⟩
  | cons r g ih =>
    intro a h
    have hrest := ih (a.merge r) fun r' hr' => h r' (mem_cons_of_mem r hr')
    have hstep := a.merge_of_start (h r mem_cons_self)
    rw [hstep] at hrest
    rw [foldl_cons, hstep]
    exact hrest

/-- A group has counted something. -/
theorem accOf_count_pos (h : Group k g)
    (hne : g ≠ []) : 0 < (accOf g).count := by
  have hgrow : CompactAcc.zero.count + g.length ≤ (accOf g).count :=
    CompactAcc.foldl_merge_count g .zero h.count
  have hlen := length_pos_iff.mpr hne
  have hzero : CompactAcc.zero.count = 0 := rfl
  omega

/-- A group of end records has a minimum. -/
theorem accOf_min (hk : k.startData = false)
    (h : Group k g) (hne : g ≠ []) : 0 ≤ (accOf g).minMs := by
  obtain ⟨r, g, rfl⟩ := exists_cons_of_ne_nil hne
  have hs := (h.start mem_cons_self).trans hk
  have hlow := congrArg Figures.low (accOf_figures h)
  rw [map_cons, sum_cons, Figures.add_low, TracingRecord.figures_of_end hs] at hlow
  by_contra hneg
  have hnone : (accOf (r :: g)).figures.low = none := if_pos (by omega)
  rw [hnone] at hlow
  cases hg : (g.map TracingRecord.figures).sum.low with
  | none => rw [hg] at hlow; cases hlow
  | some m => rw [hg] at hlow; cases hlow

/-- **The record of a group has the figures of the group.** -/
theorem record_figures (h : Group k g)
    (hne : g ≠ []) : ((accOf g).record k).figures = (g.map TracingRecord.figures).sum := by
  rw [← accOf_figures h]
  cases hk : k.startData with
  | true =>
    obtain ⟨htotal, hmin, hmax⟩ := foldl_merge_start g .zero fun r hr => (h.start hr).trans hk
    change (accOf g).totalMs = 0 at htotal
    change (accOf g).minMs = -1 at hmin
    change (accOf g).maxMs = 0 at hmax
    unfold CompactAcc.record CompactAcc.figures
    rw [if_neg (by simp [hk]), TracingRecord.figures_of_start hk, htotal, hmin, hmax]
    rfl
  | false =>
    have hcount := accOf_count_pos h hne
    have hmin := accOf_min hk h hne
    unfold CompactAcc.record CompactAcc.figures
    rw [if_pos ⟨by simp [hk], hcount⟩, TracingRecord.figures_of_end hk, if_pos hmin,
      if_neg (by omega)]

/-- **The variance of a group**, in terms of its sums. -/
theorem record_variance (hk : k.startData = false)
     (h : Group k g) (hne : g ≠ []) {n : Int} {s : ℚ × ℚ}
    (hn : (accOf g).count = n) (hs : (g.map fun r => r.moments.sums).sum = s) :
    ((accOf g).record k).variance = TracingBucket.toInt64 ((s.2 - s.1 ^ 2 / n) / n) := by
  have hm2 := (accOf g).moments.m2_eq
  rw [accOf_sums hk h, hs] at hm2
  have hcount := accOf_count_pos h hne
  unfold CompactAcc.record
  rw [if_pos ⟨by simp [hk], hcount⟩, ← hn]
  exact congrArg (fun m => TracingBucket.toInt64 (m / (accOf g).count)) hm2

/-! ## Records that went through compaction -/

/-- Totals are proper `int64`s, maxima are not negative, and start records have no durations. -/
structure TracingRecord.Normal (r : TracingRecord) : Prop where
  total : i64 r.totalDurationMs = r.totalDurationMs
  max : 0 ≤ r.maxDurationMs
  start : r.startData = true →
    r.totalDurationMs = 0 ∧ r.minDurationMs = 0 ∧ r.maxDurationMs = 0 ∧ r.variance = 0

/-- Two records are the same but for their variance. Maps are compared as maps. -/
structure TracingRecord.Agree (r s : TracingRecord) : Prop where
  key : r.key = s.key
  count : r.count = s.count
  total : r.totalDurationMs = s.totalDurationMs
  min : r.minDurationMs = s.minDurationMs
  max : r.maxDurationMs = s.maxDurationMs
  code : ∀ c, r.code.lookup c = s.code.lookup c
  error : ∀ e, r.error.lookup e = s.error.lookup e

/-- Two records are the same in every field. -/
structure TracingRecord.Same (r s : TracingRecord) : Prop extends r.Agree s where
  variance : r.variance = s.variance

/-- **Figures determine a record**, the variance apart. -/
theorem TracingRecord.Normal.agree {s : TracingRecord} (hr : r.Normal) (hs : s.Normal)
    (hkey : r.key = s.key) (h : r.figures = s.figures) : r.Agree s := by
  have hcount : r.count = s.count := congrArg Figures.count h
  have hcode : ∀ c, r.code.lookup c = s.code.lookup c := congrFun (congrArg Figures.codes h)
  have herror : ∀ e, r.error.lookup e = s.error.lookup e := congrFun (congrArg Figures.errors h)
  have hstart : r.startData = s.startData := congrArg TracingBucketKey.startData hkey
  cases hk : r.startData with
  | true =>
    obtain ⟨htr, hminr, hmaxr, -⟩ := hr.start hk
    obtain ⟨hts, hmins, hmaxs, -⟩ := hs.start (hstart ▸ hk)
    exact ⟨hkey, hcount, htr.trans hts.symm, hminr.trans hmins.symm, hmaxr.trans hmaxs.symm,
      hcode, herror⟩
  | false =>
    rw [figures_of_end hk, figures_of_end (hstart ▸ hk), Figures.mk.injEq] at h
    obtain ⟨-, htotal, hmin, hmax, -, -⟩ := h
    refine ⟨hkey, hcount, ?_, Option.some.inj hmin, ?_, hcode, herror⟩
    · have hint := congrArg BitVec.toInt htotal
      rw [BitVec.toInt_ofInt, BitVec.toInt_ofInt] at hint
      exact hr.total.symm.trans (hint.trans hs.total)
    · have hmaxr := hr.max
      have hmaxs := hs.max
      omega

theorem foldl_merge_fits : ∀ (g : List TracingRecord) (a : CompactAcc),
    i64 a.totalMs = a.totalMs → 0 ≤ a.maxMs →
    let b := g.foldl (fun a r => a.merge r) a
    i64 b.totalMs = b.totalMs ∧ 0 ≤ b.maxMs := by
  intro g
  induction g with
  | nil => intro a ht hm; exact ⟨ht, hm⟩
  | cons r g ih =>
    intro a ht hm
    rw [foldl_cons]
    refine ih (a.merge r) ?_ ?_
    · unfold CompactAcc.merge
      split
      · exact i64_i64 _
      · exact ht
    · unfold CompactAcc.merge
      split
      · show 0 ≤ if r.maxDurationMs > a.maxMs then r.maxDurationMs else a.maxMs
        split
        · omega
        · exact hm
      · exact hm

theorem record_normal (g : List TracingRecord) (k : TracingBucketKey) :
    ((accOf g).record k).Normal := by
  obtain ⟨htotal, hmax⟩ := foldl_merge_fits g .zero rfl (Int.le_refl 0)
  unfold CompactAcc.record
  split
  next h => exact ⟨htotal, hmax, fun hs => by simp [show k.startData = true from hs] at h⟩
  next h => exact ⟨rfl, Int.le_refl 0, fun _ => ⟨rfl, rfl, rfl, rfl⟩⟩

theorem i64_record_variance (a : CompactAcc) (k : TracingBucketKey) :
    i64 (a.record k).variance = (a.record k).variance := by
  unfold CompactAcc.record
  split
  · exact i64_toInt64 _
  · rfl

theorem record_min (a : CompactAcc) (k : TracingBucketKey) : 0 ≤ (a.record k).minDurationMs := by
  unfold CompactAcc.record
  split
  · show 0 ≤ if a.minMs ≥ 0 then a.minMs else 0
    split
    next h => exact h
    next h => exact Int.le_refl 0
  · exact Int.le_refl 0

end Robot.Report
