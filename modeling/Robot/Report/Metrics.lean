import Robot.Report.Redis
import Robot.Report.Traced

/-!
# `CleanTracingsToMetrics`

`report/tracing_clean.go` turns tracing records into metrics: eight series per case name, the
QPS from the start records and the other seven from the end records, each with one point per
record in the order of the seconds. Nothing is added up: the function expects records that are
compacted already, and gives two records of one second two points.

What the rest of the development needs of it: the series are exactly the `seriesOf` a name that
occurs and one of the eight metrics (`mem_cleanTracingsToMetrics`), and the points of a series come
in strict order of time if and only if no two of its records share their second
(`seriesOf_increasing_iff`).

`float64` is idealised to `ℚ`. `sort.Slice` is not stable, so the order of two points of one
second is not determined by the source; here it is the order of the records.
-/

namespace Robot.Report

open Robot.Lib List

/-- `math.Round`: half away from zero. -/
def mathRound (x : ℚ) : Int := if 0 ≤ x then ⌊x + 1 / 2⌋ else -⌊1 / 2 - x⌋

theorem mathRound_intCast (n : Int) : mathRound (n : ℚ) = n := by
  have hhalf : ∀ m : Int, ⌊(m : ℚ) + 1 / 2⌋ = m := by
    intro m
    rw [Int.floor_intCast_add]
    norm_num
  unfold mathRound
  split
  · exact hhalf n
  · have hneg : (1 / 2 - n : ℚ) = ((-n : Int) : ℚ) + 1 / 2 := by
      push_cast
      ring
    rw [hneg, hhalf, Int.neg_neg]

/-! ## The eight metrics -/

/-- The series of a case, in the order they are appended. -/
inductive CleanedMetric where
  | qps | successQps | failedQps | avgMs | varianceMs | minMs | maxMs | successRate
  deriving DecidableEq, Repr

namespace CleanedMetric

def suffix : CleanedMetric → String
  | qps => "_qps"
  | successQps => "_success_qps"
  | failedQps => "_failed_qps"
  | avgMs => "_avg_ms"
  | varianceMs => "_variance_ms"
  | minMs => "_min_ms"
  | maxMs => "_max_ms"
  | successRate => "_success_rate"

/-- Only the QPS comes from the start records. -/
def ofStart : CleanedMetric → Bool
  | qps => true
  | _ => false

def all : List CleanedMetric :=
  [qps, successQps, failedQps, avgMs, varianceMs, minMs, maxMs, successRate]

/-- The value of a record's point. -/
def value (r : TracingRecord) : CleanedMetric → ℚ
  | qps => r.count
  | successQps => ((r.code.lookup 0).getD 0 : Int)
  | failedQps => (r.count - (r.code.lookup 0).getD 0 : Int)
  | avgMs =>
    if r.count > 0 then mathRound ((r.totalDurationMs : ℚ) / r.count * 10) / 10 else 0
  | varianceMs => r.variance
  | minMs => r.minDurationMs
  | maxMs => r.maxDurationMs
  | successRate =>
    if r.count > 0 then
      mathRound ((((r.code.lookup 0).getD 0 : Int) : ℚ) / r.count * 10000) / 100
    else 0

theorem mem_all (m : CleanedMetric) : m ∈ all := by
  cases m <;> decide

theorem suffix_inj {m m' : CleanedMetric} (h : m.suffix = m'.suffix) : m = m' := by
  revert h
  cases m <;> cases m' <;> decide

end CleanedMetric

/-! ## Cleaning -/

/-- `startGrouped` and `endGrouped`: records by name, in their order. -/
def recordsByName (recs : List TracingRecord) : Grouped String (List TracingRecord) :=
  Grouped.groupAll TracingRecord.name [] (fun r l => l ++ [r]) recs .empty

/-- `nameSet` and `nameOrder`. -/
def caseNames (recs : List TracingRecord) : List String :=
  (Grouped.groupAll TracingRecord.name () (fun _ u => u) recs (.empty : Grouped String Unit)).order

/-- `sort.Slice` by `Timestamp`. -/
def sortByTime (recs : List TracingRecord) : List TracingRecord :=
  recs.insertionSort fun a b => a.timestamp ≤ b.timestamp

/-- The records of a case that a metric is made of. -/
def recordsFor (recs : List TracingRecord) (name : String) (m : CleanedMetric) :
    List TracingRecord :=
  ((recordsByName (recs.filter fun r => r.startData = m.ofStart)).buckets name).getD []

/-- One series of a case. -/
def seriesOf (recs : List TracingRecord) (name : String) (m : CleanedMetric) : MetricsSeries :=
  { name := name ++ m.suffix
    labels := [("case", name)]
    points := (sortByTime (recordsFor recs name m)).map fun r => ⟨r.timestamp, m.value r⟩ }

/-- `CleanTracingsToMetrics`. -/
def cleanTracingsToMetrics (records : List (Option TracingRecord)) : List MetricsSeries :=
  -- nil records and those without a count are passed over, as in the compaction
  let recs := countedRecords records
  (caseNames recs).flatMap fun name => CleanedMetric.all.map (seriesOf recs name)

/-! ## Which series there are -/

variable {recs : List TracingRecord} {name : String} {m : CleanedMetric}

theorem mem_caseNames :
    name ∈ caseNames recs ↔ ∃ r ∈ recs, r.name = name :=
  Grouped.groupAll_mem ..

theorem caseNames_nodup (recs : List TracingRecord) : (caseNames recs).Nodup := Grouped.nodup _

/-- The slice of a name. -/
theorem recordsByName_getD (recs : List TracingRecord) (name : String) :
    ((recordsByName recs).buckets name).getD [] = recs.filter fun r => r.name = name := by
  have happend : ∀ l acc : List TracingRecord,
      l.foldl (fun acc r => acc ++ [r]) acc = acc ++ l := by
    intro l
    induction l with
    | nil => intro acc; simp
    | cons r l ih => intro acc; rw [foldl_cons, ih]; simp
  unfold recordsByName
  rw [Grouped.groupAll_buckets]
  cases recs.filter fun r => r.name = name with
  | nil => rfl
  | cons r l => exact happend (r :: l) []

theorem recordsFor_eq (recs : List TracingRecord) (name : String) (m : CleanedMetric) :
    recordsFor recs name m
      = recs.filter fun r => r.name = name ∧ r.startData = m.ofStart := by
  unfold recordsFor
  rw [recordsByName_getD, filter_filter]
  refine filter_congr fun r _ => ?_
  simp only [Bool.decide_and]

theorem mem_recordsFor {r : TracingRecord} :
    r ∈ recordsFor recs name m ↔ r ∈ recs ∧ r.name = name ∧ r.startData = m.ofStart := by
  rw [recordsFor_eq, mem_filter, decide_eq_true_iff]

theorem mem_caseNames_of_record
    {r : TracingRecord} (hr : r ∈ recordsFor recs name m) : name ∈ caseNames recs := by
  obtain ⟨hmem, hname, -⟩ := mem_recordsFor.mp hr
  exact mem_caseNames.mpr ⟨r, hmem, hname⟩

/-- The records of one case and kind, two by two. -/
theorem recordsFor_nodup_iff (recs : List TracingRecord) (name : String) (m : CleanedMetric) :
    ((recordsFor recs name m).map TracingRecord.timestamp).Nodup ↔
      recs.Pairwise fun a b => a.name = name ∧ a.startData = m.ofStart →
        b.name = name ∧ b.startData = m.ofStart → a.timestamp ≠ b.timestamp := by
  rw [recordsFor_eq]
  refine pairwise_map.trans (pairwise_filter.trans ?_)
  simp only [decide_eq_true_iff]

/-- Distinct keys: the records of one case and kind have distinct seconds. -/
theorem recordsFor_nodup (h : (recs.map TracingRecord.key).Nodup)
    (name : String) (m : CleanedMetric) :
    ((recordsFor recs name m).map TracingRecord.timestamp).Nodup := by
  rw [recordsFor_nodup_iff]
  refine (pairwise_map.mp h).imp fun hne ha hb htime => hne ?_
  unfold TracingRecord.key
  rw [ha.1, hb.1, ha.2, hb.2, htime]

/-- **The series** are those of a name that occurs, for each of the eight metrics. -/
theorem mem_cleanTracingsToMetrics {records : List (Option TracingRecord)} {s : MetricsSeries} :
    s ∈ cleanTracingsToMetrics records ↔
      ∃ name ∈ caseNames (countedRecords records), ∃ m,
        s = seriesOf (countedRecords records) name m := by
  unfold cleanTracingsToMetrics
  rw [mem_flatMap]
  constructor
  · intro h
    obtain ⟨name, hname, hs⟩ := h
    obtain ⟨m, -, rfl⟩ := mem_map.mp hs
    exact ⟨name, hname, m, rfl⟩
  · intro h
    obtain ⟨name, hname, m, rfl⟩ := h
    exact ⟨name, hname, mem_map.mpr ⟨m, m.mem_all, rfl⟩⟩

/-! ## The points in time -/

/-- Points in strict order of time. -/
def MetricsSeries.Increasing (s : MetricsSeries) : Prop :=
  s.points.Pairwise fun p q => p.timestamp < q.timestamp

theorem sortByTime_perm (recs : List TracingRecord) : (sortByTime recs).Perm recs :=
  perm_insertionSort _ _

/-- Sorting distinct seconds puts them in strict order. -/
theorem sortByTime_increasing_iff (recs : List TracingRecord) :
    ((sortByTime recs).Pairwise fun a b => a.timestamp < b.timestamp) ↔
      (recs.map TracingRecord.timestamp).Nodup := by
  have hperm := (sortByTime_perm recs).map TracingRecord.timestamp
  rw [← hperm.nodup_iff]
  constructor
  · intro h
    exact pairwise_map.mpr (h.imp fun hlt => Int.ne_of_lt hlt)
  · intro h
    have hsorted : (sortByTime recs).Pairwise fun a b => a.timestamp ≤ b.timestamp :=
      @pairwise_insertionSort _ (fun a b : TracingRecord => a.timestamp ≤ b.timestamp) _
        ⟨fun a b => Int.le_total a.timestamp b.timestamp⟩
        ⟨fun a b c hab hbc => Int.le_trans hab hbc⟩ recs
    -- in order and distinct is in strict order
    have hne := pairwise_map.mp h
    exact (hsorted.and hne).imp fun hab => Int.lt_iff_le_and_ne.mpr hab

/-- **A series is in strict order of time** if and only if its records have distinct seconds. -/
theorem seriesOf_increasing_iff (recs : List TracingRecord) (name : String) (m : CleanedMetric) :
    (seriesOf recs name m).Increasing ↔
      ((recordsFor recs name m).map TracingRecord.timestamp).Nodup := by
  rw [← sortByTime_increasing_iff]
  exact pairwise_map

end Robot.Report
