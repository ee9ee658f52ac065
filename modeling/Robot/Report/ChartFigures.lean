import Robot.Report.Charts

/-!
# What the charts should show

The two ways to the charts are compared with the same figures: of a case and a line of the
chart, the sum over all records (`caseSum`) and over those of one second (`secondSum`). This file
defines them and what it means that two pages are the same, and shows that `processTracings`
shows exactly these sums (`caseStat_total`, `processTracings_valueAt`), for any records of a
tracer: it counts failures code by code, which is the count without the successes because the
codes of an end record add up to its count, and lists a case by its end records, which is every
case because no case has only starts.
-/

namespace Robot.Report

open Robot.Lib List

/-! ## What both should show -/

/-- The lines of the chart that are compared. -/
inductive ChartLine where
  | qps | success | failed

namespace ChartLine

/-- The cleaned metric of a line. -/
def metric : ChartLine → CleanedMetric
  | qps => .qps
  | success => .successQps
  | failed => .failedQps

/-- What a record adds to a line. -/
def tally : ChartLine → TracingRecord → Int
  | qps, r => r.count
  | success, r => (r.code.lookup 0).getD 0
  | failed, r => r.count - (r.code.lookup 0).getD 0

/-- The line in the chart of a case. -/
def values : ChartLine → ChartSeriesData → List Int
  | qps => ChartSeriesData.qps
  | success => ChartSeriesData.success
  | failed => ChartSeriesData.failed

/-- Its sum in the row of a case. -/
def total : ChartLine → CaseStat → Int
  | qps => CaseStat.total
  | success => CaseStat.success
  | failed => CaseStat.failed

/-- Its field in a bucket of `processTracings`. -/
def bucket : ChartLine → SecondBucket → Int
  | qps => SecondBucket.qpsCount
  | success => SecondBucket.success
  | failed => SecondBucket.failed

end ChartLine

theorem value_eq_tally (line : ChartLine) (r : TracingRecord) :
    line.metric.value r = (line.tally r : ℚ) := by
  cases line with
  | qps => rfl
  | success => rfl
  | failed => rfl

/-- A line over all records of a case. -/
def caseSum (recs : List TracingRecord) (name : String) (line : ChartLine) : Int :=
  ((recordsFor recs name line.metric).map line.tally).sum

/-- A line over the records of a case whose second is shown as `t`. -/
def secondSum (format : Int → String) (recs : List TracingRecord) (name : String)
    (line : ChartLine) (t : String) : Int :=
  (((recordsFor recs name line.metric).filter fun r => format r.timestamp = t).map line.tally).sum

/-- The row of a case. -/
def TemplateData.row (td : TemplateData) (name : String) : Option CaseStat :=
  td.caseStats.find? fun cs => cs.name = name

/-- The figures of a row that are compared. -/
def CaseStat.figures (cs : CaseStat) : Int × Int × Int × Int × Int :=
  (cs.total, cs.success, cs.failed, cs.minMs, cs.maxMs)

/-- Rows that agree in the lines and the maximum. -/
theorem figures_eq_iff_minMs {a b : CaseStat}
    (htotal : ∀ line : ChartLine, line.total a = line.total b) (hmax : a.maxMs = b.maxMs) :
    a.figures = b.figures ↔ a.minMs = b.minMs := by
  have hqps : a.total = b.total := htotal .qps
  have hsuccess : a.success = b.success := htotal .success
  have hfailed : a.failed = b.failed := htotal .failed
  unfold CaseStat.figures
  rw [hqps, hsuccess, hfailed, hmax]
  simp only [Prod.mk.injEq, true_and, and_true]

/-- The value of a line at a time label; zero where nothing is shown. -/
def ChartData.valueAt (c : ChartData) (line : ChartLine) (name t : String) : Int :=
  (((c.series.find? fun sd => sd.name = name).bind fun sd =>
    (c.timeLabels.zip (line.values sd)).lookup t)).getD 0

/-- The same rows for all cases, and the same values at all times. -/
structure SameCharts (a b : TemplateData) : Prop where
  rows : ∀ name, (a.row name).map CaseStat.figures = (b.row name).map CaseStat.figures
  lines : ∀ line name t, a.chart.valueAt line name t = b.chart.valueAt line name t

/-- A chart whose lines are functions of the labels. -/
theorem valueAt_eq {c : ChartData} {line : ChartLine} {order : List String}
    {sd : String → ChartSeriesData} {v : String → String → Int} (hname : ∀ n, (sd n).name = n)
    (hseries : c.series = order.map sd) (hvalues : ∀ n, line.values (sd n) = c.timeLabels.map (v n))
    (houtside : ∀ n ∈ order, ∀ t, t ∉ c.timeLabels → v n t = 0) (name t : String) :
    c.valueAt line name t = if name ∈ order then v name t else 0 := by
  unfold ChartData.valueAt
  rw [hseries, find?_map_name hname]
  by_cases hn : name ∈ order
  · rw [if_pos hn, if_pos hn, Option.bind_some, hvalues, lookup_zip_map]
    by_cases ht : t ∈ c.timeLabels
    · rw [if_pos ht]
      rfl
    · rw [if_neg ht, houtside name hn t ht]
      rfl
  · rw [if_neg hn, if_neg hn]
    rfl

/-! ## From the records -/

section Records

variable {recs : List TracingRecord}

theorem groupTracings_records (h : TracedList recs) (name : String) :
    (groupTracings (recs.map some)).records name = recordsFor recs name .successQps := by
  unfold groupTracings CaseGroups.records
  rw [h.counted]
  rfl

theorem groupTracings_starts (h : TracedList recs) (name : String) :
    (groupTracings (recs.map some)).starts name = (recordsFor recs name .qps).foldl
      (fun t r => Tally.add t r.timestamp r.count) ∅ := by
  have hfor : recordsFor recs name .qps
      = (recs.filter fun r => r.startData = true).filter fun r => r.name = name :=
    recordsByName_getD _ _
  unfold groupTracings CaseGroups.starts
  rw [h.counted, hfor]
  show ((Grouped.groupAll _ _ _ (recs.filter fun r => r.startData = true) _).buckets name).getD ∅ = _
  rw [Grouped.groupAll_buckets]
  cases (recs.filter fun r => r.startData = true).filter fun r => r.name = name with
  | nil => rfl
  | cons r l => rfl

/-- A case has a row if something of it occurs. -/
theorem mem_caseOrder (h : TracedList recs) {name : String} :
    name ∈ (groupTracings (recs.map some)).caseOrder ↔ name ∈ caseNames recs := by
  have horder : name ∈ (groupTracings (recs.map some)).caseOrder ↔
      ∃ r ∈ recs.filter fun r => r.startData = false, r.name = name := by
    unfold groupTracings CaseGroups.caseOrder
    rw [h.counted]
    exact Grouped.groupAll_mem ..
  rw [horder, mem_caseNames]
  constructor
  · intro hr
    obtain ⟨r, hr, hname⟩ := hr
    exact ⟨r, (mem_filter.mp hr).1, hname⟩
  · intro hr
    obtain ⟨r, hr, hname⟩ := hr
    obtain ⟨e, he, hename, hend⟩ := h.ended r hr
    exact ⟨e, mem_filter.mpr ⟨he, decide_eq_true hend⟩, hename.trans hname⟩

theorem successCount_eq (r : TracingRecord) : successCount r = ChartLine.success.tally r :=
  Tally.sum_entries_of r.code 0

theorem failedCount_eq {r : TracingRecord} (h : r.Traced) (hend : r.startData = false) :
    failedCount r = ChartLine.failed.tally r := by
  unfold failedCount
  rw [Tally.sum_entries_except, h.codes hend]
  rfl

/-- The end records of a case, summed by the codes. -/
theorem map_failedCount (h : TracedList recs) (name : String) {l : List TracingRecord}
    (hl : ∀ r ∈ l, r ∈ recordsFor recs name .successQps) :
    l.map failedCount = l.map ChartLine.failed.tally := by
  refine map_congr_left fun r hr => ?_
  obtain ⟨hmem, -, hend⟩ := mem_recordsFor.mp (hl r hr)
  exact failedCount_eq (h.each r hmem) hend

/-- **The rows** of `processTracings` show the sums of the case. -/
theorem caseStat_total (h : TracedList recs) (name : String) (line : ChartLine) :
    line.total ((groupTracings (recs.map some)).caseStat name) = caseSum recs name line := by
  cases line with
  | qps =>
    show ((groupTracings (recs.map some)).starts name).total = _
    rw [groupTracings_starts h, Tally.total_foldl_add]
    exact Int.zero_add _
  | success =>
    show (((groupTracings (recs.map some)).records name).map successCount).sum = _
    rw [groupTracings_records h]
    exact congrArg List.sum (map_congr_left fun r _ => successCount_eq r)
  | failed =>
    show (((groupTracings (recs.map some)).records name).map failedCount).sum = _
    rw [groupTracings_records h]
    exact congrArg List.sum (map_failedCount h name fun r hr => hr)

/-- A field of a bucket is what the end records and the starts of the second add to it. -/
theorem bucketField_sum (g : CaseGroups) (name : String) (f : SecondBucket → Int)
    (ofEnd : TracingRecord → Int) (ofStarts : Int → Int) (hzero : f .zero = 0)
    (hend : ∀ r b, f (SecondBucket.addEnd r b) = f b + ofEnd r)
    (hstarts : ∀ n b, f (SecondBucket.addStarts n b) = f b + ofStarts n) (sec : Int) :
    g.bucketField name f sec
      = (((g.records name).filter fun r => r.timestamp = sec).map ofEnd).sum
        + (((g.starts name).entries.filter fun e => e.1 = sec).map fun e => ofStarts e.2).sum := by
  refine (Grouped.getD_groupAll (fun e : Sigma fun _ : Int => Int => e.1) .zero _ f
    (fun e => ofStarts e.2) hzero (fun e b => hstarts e.2 b) sec _ _).trans ?_
  rw [Grouped.getD_groupAll TracingRecord.timestamp .zero SecondBucket.addEnd f ofEnd hzero hend]
  simp [Grouped.empty]

/-- The buckets of a case, by the records they were made of. -/
theorem bucketField_eq (h : TracedList recs) (name : String) (line : ChartLine) (sec : Int) :
    (groupTracings (recs.map some)).bucketField name line.bucket sec
      = (((recordsFor recs name line.metric).filter fun r => r.timestamp = sec).map
          line.tally).sum := by
  cases line with
  | qps =>
    -- the end records leave the starts of a bucket alone
    refine (bucketField_sum _ name SecondBucket.qpsCount (fun _ => 0) id rfl
      (fun _ b => (Int.add_zero b.qpsCount).symm) (fun _ _ => rfl) sec).trans ?_
    show _ + (((_ : Tally Int).entries.filter fun e => e.1 = sec).map fun e => e.2).sum = _
    rw [Tally.sum_entries_of, groupTracings_starts h, Tally.getD_lookup_foldl_add]
    simp [ChartLine.metric]
    rfl
  | success =>
    refine (bucketField_sum _ name SecondBucket.success successCount (fun _ => 0) rfl
      (fun _ _ => rfl) (fun _ b => (Int.add_zero b.success).symm) sec).trans ?_
    rw [groupTracings_records h, map_congr_left fun r _ => successCount_eq r]
    simp [ChartLine.metric]
  | failed =>
    refine (bucketField_sum _ name SecondBucket.failed failedCount (fun _ => 0) rfl
      (fun _ _ => rfl) (fun _ b => (Int.add_zero b.failed).symm) sec).trans ?_
    rw [groupTracings_records h, map_failedCount h name fun r hr => (mem_filter.mp hr).1]
    simp [ChartLine.metric]
    rfl

/-- Every second of a case is on the time axis. -/
theorem mem_secs (h : TracedList recs) {name : String} {line : ChartLine} {r : TracingRecord}
    (hr : r ∈ recordsFor recs name line.metric) :
    r.timestamp ∈ (groupTracings (recs.map some)).secs := by
  have hname : name ∈ (groupTracings (recs.map some)).caseOrder :=
    (mem_caseOrder h).mpr (mem_caseNames_of_record hr)
  unfold CaseGroups.secs
  rw [mem_insertionSort, mem_dedup, mem_flatMap]
  refine ⟨name, hname, ?_⟩
  unfold CaseGroups.caseBuckets
  rw [Grouped.mem_groupAll, Grouped.groupAll_mem, groupTracings_records h, groupTracings_starts h]
  cases line with
  | qps =>
    -- a second with starts is a key of the starts
    have hkey := (Tally.mem_foldl_add TracingRecord.timestamp TracingRecord.count r.timestamp
      (recordsFor recs name .qps) ∅).mpr (Or.inr ⟨r, hr, rfl⟩)
    obtain ⟨e, he, hekey⟩ := mem_map.mp (AList.mem_keys.mp hkey)
    exact Or.inr ⟨e, he, hekey⟩
  | success => exact Or.inl ⟨r, hr, rfl⟩
  | failed => exact Or.inl ⟨r, hr, rfl⟩

/-- A label that no record of the case is shown under. -/
theorem secondSum_eq_zero {format : Int → String} {name t : String} {line : ChartLine}
    (h : ∀ r ∈ recordsFor recs name line.metric, format r.timestamp ≠ t) :
    secondSum format recs name line t = 0 := by
  have hnone : (recordsFor recs name line.metric).filter (fun r => format r.timestamp = t) = [] :=
    filter_eq_nil_iff.mpr fun r hr he => h r hr (of_decide_eq_true he)
  unfold secondSum
  rw [hnone]
  rfl

/-- **The chart** of `processTracings` shows the sums of the seconds. -/
theorem chartSeries_values {format : Int → String} (hformat : Function.Injective format)
    (h : TracedList recs) (name : String) (line : ChartLine) :
    line.values ((groupTracings (recs.map some)).chartSeries format name)
      = ((groupTracings (recs.map some)).secs.map format).map (secondSum format recs name line) := by
  have hfield : line.values ((groupTracings (recs.map some)).chartSeries format name)
      = (groupTracings (recs.map some)).secs.map
          ((groupTracings (recs.map some)).bucketField name line.bucket) := by
    cases line with
    | qps => rfl
    | success => rfl
    | failed => rfl
  rw [hfield, map_map]
  refine map_congr_left fun sec _ => ?_
  rw [bucketField_eq h, Function.comp_apply]
  unfold secondSum
  simp only [hformat.eq_iff]

/-- What `processTracings` fills in, also where no case has ended anything. -/
theorem processTracings_fills (format : Int → String) (records : List (Option TracingRecord)) :
    (processTracings format .new records).caseStats
        = (groupTracings records).caseOrder.map (groupTracings records).caseStat ∧
      (processTracings format .new records).chart.timeLabels
        = (groupTracings records).secs.map format ∧
      (processTracings format .new records).chart.series
        = (groupTracings records).caseOrder.map ((groupTracings records).chartSeries format) := by
  unfold processTracings
  dsimp only
  split
  next hnil =>
    have hempty := length_eq_zero_iff.mp hnil
    have hsecs : (groupTracings records).secs = [] := by
      unfold CaseGroups.secs
      rw [hempty]
      rfl
    rw [hsecs, hempty]
    exact ⟨rfl, rfl, rfl⟩
  next => exact ⟨rfl, rfl, rfl⟩

/-- The rows of `processTracings`. -/
theorem processTracings_row (format : Int → String) (h : TracedList recs) (name : String) :
    (processTracings format .new (recs.map some)).row name
      = if name ∈ caseNames recs then some ((groupTracings (recs.map some)).caseStat name)
        else none := by
  unfold TemplateData.row
  rw [(processTracings_fills format _).1, find?_map_name fun _ => rfl]
  simp only [mem_caseOrder h]

/-- The lines of `processTracings`. -/
theorem processTracings_valueAt {format : Int → String} (hformat : Function.Injective format)
    (h : TracedList recs) (line : ChartLine) (name t : String) :
    (processTracings format .new (recs.map some)).chart.valueAt line name t
      = secondSum format recs name line t := by
  obtain ⟨-, hlabels, hseries⟩ := processTracings_fills format (recs.map some)
  rw [valueAt_eq (fun _ => rfl) hseries
    (fun n => by rw [chartSeries_values hformat h, hlabels]) ?_ name t]
  · split
    next => rfl
    next hname =>
      -- a case without a row has no records
      rw [mem_caseOrder h] at hname
      exact (secondSum_eq_zero fun r hr => absurd (mem_caseNames_of_record hr) hname).symm
  · intro n _ t ht
    refine secondSum_eq_zero fun r hr he => ht ?_
    rw [hlabels]
    exact mem_map.mpr ⟨r.timestamp, mem_secs h hr, he⟩

end Records

end Robot.Report
