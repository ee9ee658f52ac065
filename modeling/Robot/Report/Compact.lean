import Robot.Report.Tracing

/-!
# `CompactTracingsBySecond`

`report/tracing_compact.go`: records with the same name, second and kind are merged, with
Chan's parallel formula for the variance, and the result is sorted by second, name, and
end before start. A nil record, or one with a count of `0` or less, is skipped.
-/

namespace Robot.Report

open Robot.Lib List

/-- `acc`; `minMs = -1` is unset. -/
structure CompactAcc where
  count : Int
  totalMs : Int
  minMs : Int
  maxMs : Int
  mean : ℚ
  m2 : ℚ
  codes : Tally Int
  errors : Tally String

namespace CompactAcc

/-- `&acc{minMs: -1}`. -/
def zero : CompactAcc :=
  { count := 0, totalMs := 0, minMs := -1, maxMs := 0, mean := 0, m2 := 0, codes := ∅, errors := ∅ }

/-- The durations of an end record go into the accumulator. -/
def mergeDurations (a : CompactAcc) (r : TracingRecord) : CompactAcc :=
  let meanB := (r.totalDurationMs : ℚ) / r.count
  let m2B := (r.variance : ℚ) * r.count
  let newCount := a.count + r.count
  let delta := meanB - a.mean
  { a with
    mean := a.mean + delta * r.count / newCount
    m2 := a.m2 + (m2B + delta * delta * a.count * r.count / newCount)
    totalMs := i64 (a.totalMs + r.totalDurationMs)
    minMs := if a.minMs < 0 ∨ r.minDurationMs < a.minMs then r.minDurationMs else a.minMs
    maxMs := if r.maxDurationMs > a.maxMs then r.maxDurationMs else a.maxMs }

/-- One turn of the loop over the records. -/
def merge (r : TracingRecord) (a : CompactAcc) : CompactAcc :=
  let a := if !r.startData ∧ r.count > 0 then a.mergeDurations r else a
  { a with
    count := a.count + r.count
    codes := a.codes.merge r.code
    errors := a.errors.merge r.error }

/-- The record made of an accumulator. -/
def record (k : TracingBucketKey) (a : CompactAcc) : TracingRecord :=
  if !k.startData ∧ a.count > 0 then
    { timestamp := k.timestamp, startData := k.startData, name := k.name, count := a.count
      totalDurationMs := a.totalMs
      minDurationMs := if a.minMs ≥ 0 then a.minMs else 0
      maxDurationMs := a.maxMs
      variance := TracingBucket.toInt64 (a.m2 / a.count)
      code := a.codes
      error := a.errors }
  else
    { timestamp := k.timestamp, startData := k.startData, name := k.name, count := a.count
      totalDurationMs := 0, minDurationMs := 0, maxDurationMs := 0, variance := 0
      code := a.codes
      error := a.errors }

end CompactAcc

/-- The order of the result: second, then name, then end before start. -/
def recordLess (a b : TracingRecord) : Bool :=
  if a.timestamp ≠ b.timestamp then decide (a.timestamp < b.timestamp)
  else if a.name ≠ b.name then decide (a.name < b.name)
  else !a.startData

/-- The records the loop does not skip. -/
def countedRecords (records : List (Option TracingRecord)) : List TracingRecord :=
  records.filterMap fun r =>
    match r with
    | none => none
    | some r => if r.count ≤ 0 then none else some r

/-- The map and the order list after the loop. -/
def compactGroups (records : List (Option TracingRecord)) : Grouped TracingBucketKey CompactAcc :=
  Grouped.groupAll TracingRecord.key .zero CompactAcc.merge (countedRecords records) .empty

/-- The record of a key of the order list; an accumulator without a count has none. -/
def compactRecord (grouped : Grouped TracingBucketKey CompactAcc) (k : TracingBucketKey) :
    Option TracingRecord :=
  match grouped.buckets k with
  | none => none
  | some a => if a.count ≤ 0 then none else some (a.record k)

/-- `CompactTracingsBySecond`. -/
def compactTracingsBySecond (records : List (Option TracingRecord)) : List TracingRecord :=
  let grouped := compactGroups records
  let result := grouped.order.filterMap (compactRecord grouped)
  result.insertionSort fun a b => recordLess b a = false

/-! ## What it keeps -/

theorem countedRecords_pos {records : List (Option TracingRecord)} :
    ∀ r ∈ countedRecords records, 0 < r.count := by
  intro r hr
  obtain ⟨x, -, hx⟩ := mem_filterMap.mp hr
  cases x with
  | none => simp at hx
  | some y =>
    simp only at hx
    split at hx
    · simp at hx
    · rw [Option.some.injEq] at hx
      subst hx
      omega

theorem CompactAcc.record_key (a : CompactAcc) (k : TracingBucketKey) : (a.record k).key = k := by
  unfold CompactAcc.record
  split
  · rfl
  · rfl

theorem CompactAcc.merge_count (r : TracingRecord) (a : CompactAcc) :
    (a.merge r).count = a.count + r.count := by
  unfold CompactAcc.merge
  split
  · rfl
  · rfl

theorem CompactAcc.record_count (a : CompactAcc) (k : TracingBucketKey) :
    (a.record k).count = a.count := by
  unfold CompactAcc.record
  split
  · rfl
  · rfl

/-- The count grows with every record. -/
theorem CompactAcc.foldl_merge_count : ∀ (l : List TracingRecord) (a : CompactAcc),
    (∀ r ∈ l, 0 < r.count) →
    a.count + l.length ≤ (l.foldl (fun a r => CompactAcc.merge r a) a).count := by
  intro l
  induction l with
  | nil => intro a _; simp
  | cons r l ih =>
    intro a hl
    have h := ih (a.merge r) fun r' hr' => hl r' (mem_cons_of_mem _ hr')
    have hr := hl r mem_cons_self
    rw [CompactAcc.merge_count] at h
    rw [foldl_cons, length_cons]
    push_cast
    omega

/-- An accumulator has counted something. -/
theorem compactGroups_pos {records : List (Option TracingRecord)} {k : TracingBucketKey}
    (hk : k ∈ (compactGroups records).order) :
    ∃ a, (compactGroups records).buckets k = some a ∧ 0 < a.count := by
  unfold compactGroups at hk ⊢
  obtain ⟨r, hr, hkey⟩ := (Grouped.groupAll_mem ..).mp hk
  have hmem : r ∈ (countedRecords records).filter fun r => r.key = k :=
    mem_filter.mpr ⟨hr, by simpa using hkey⟩
  rw [Grouped.groupAll_bucket _ _ _ _ _ (ne_nil_of_mem hmem)]
  refine ⟨_, rfl, ?_⟩
  have h := CompactAcc.foldl_merge_count ((countedRecords records).filter fun r => r.key = k) .zero
    fun r hr => countedRecords_pos r (mem_filter.mp hr).1
  have hlen := length_pos_of_mem hmem
  have hzero : CompactAcc.zero.count = 0 := rfl
  omega

/-- **The result** is one record per accumulator: none is skipped, and sorting only permutes. -/
theorem compactTracings_perm (records : List (Option TracingRecord)) :
    (compactTracingsBySecond records).Perm ((compactGroups records).order.map fun k =>
      (((compactGroups records).buckets k).getD .zero).record k) := by
  have hrec : (compactGroups records).order.filterMap (compactRecord (compactGroups records))
      = (compactGroups records).order.map fun k =>
          (((compactGroups records).buckets k).getD .zero).record k := by
    rw [← filterMap_eq_map]
    refine filterMap_congr fun k hk => ?_
    obtain ⟨a, ha, hpos⟩ := compactGroups_pos hk
    have hcount : ¬ a.count ≤ 0 := by omega
    simp only [compactRecord, Function.comp_apply, ha, if_neg hcount, Option.getD_some]
  rw [← hrec]
  exact perm_insertionSort _ _

end Robot.Report
