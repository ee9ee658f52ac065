import Robot.Lib.Assign
import Robot.Lib.OrderStat
import Robot.Report.Metrics

/-!
# The summary table and the charts, built twice

`report/impl/html_generator.go` has two functions that fill the summary rows and the chart of a
report. `processTracings` works on tracing records. `buildChartsFromMetrics` takes over when the
records are gone: it recovers the same data from the eight cleaned series of each case, which it
finds by their `case` label and their name, and joins by the formatted second.

This file translates both. The parts of the page that neither fills (titles, sizes, the metrics
section) are left out, and the JSON text is the data it is made of. `float64` is idealised to
`ℚ`; sums of milliseconds wrap as `int64`, counts are taken not to. A loop over a Go map has no
order; here it is the order of insertion, and nothing but the order of error entries depends on
it. `format` is `Format("2006-01-02 15:04:05")` of a second and `parse` reads such a text back.
-/

namespace Robot.Report

open Robot.Lib

/-- `caseStat`, a row of the summary table. -/
structure CaseStat where
  name : String
  total : Int
  success : Int
  failed : Int
  avgMs : ℚ
  varianceMs : Int
  minMs : Int
  maxMs : Int
  deriving DecidableEq

/-- `chartSeriesData`: the arrays run along the time labels. -/
structure ChartSeriesData where
  name : String
  minTime : String
  maxTime : String
  qps : List Int
  success : List Int
  failed : List Int
  avgMs : List ℚ
  varianceMs : List Int
  errors : Tally String
  deriving DecidableEq

structure ChartData where
  timeLabels : List String
  startEpoch : Int
  series : List ChartSeriesData
  deriving DecidableEq

/-- The part of `templateData` the two functions fill. -/
structure TemplateData where
  totalReqs : Int
  successReqs : Int
  failedReqs : Int
  avgMs : ℚ
  varianceMs : ℚ
  caseStats : List CaseStat
  chart : ChartData
  errorCodes : Tally String

/-- As `buildTemplateData` starts. -/
def TemplateData.new : TemplateData :=
  { totalReqs := 0, successReqs := 0, failedReqs := 0, avgMs := 0, varianceMs := 0
    caseStats := [], chart := { timeLabels := [], startEpoch := 0, series := [] }
    errorCodes := ∅ }

/-- `math.Round(x*10) / 10`. -/
def roundTenth (x : ℚ) : ℚ := mathRound (x * 10) / 10

/-! ## From the records -/

/-- `for code, cnt := range r.Code`, the counts of the success code. -/
def successCount (r : TracingRecord) : Int :=
  ((r.code.entries.filter fun e => e.1 = 0).map fun e => e.2).sum

/-- The same loop, the counts of all other codes. -/
def failedCount (r : TracingRecord) : Int :=
  ((r.code.entries.filter fun e => ¬ e.1 = 0).map fun e => e.2).sum

/-- The two maps of the first loop. -/
structure CaseGroups where
  caseRecords : Grouped String (List TracingRecord)
  caseStartBuckets : Grouped String (Tally Int)

/-- The first loop: end records by name, starts by name and second. -/
def groupTracings (records : List (Option TracingRecord)) : CaseGroups :=
  let recs := countedRecords records
  { caseRecords := recordsByName (recs.filter fun r => r.startData = false)
    caseStartBuckets :=
      Grouped.groupAll TracingRecord.name ∅ (fun r t => Tally.add t r.timestamp r.count)
        (recs.filter fun r => r.startData = true) .empty }

namespace CaseGroups

def caseOrder (g : CaseGroups) : List String := g.caseRecords.order

def records (g : CaseGroups) (name : String) : List TracingRecord :=
  (g.caseRecords.buckets name).getD []

def starts (g : CaseGroups) (name : String) : Tally Int :=
  (g.caseStartBuckets.buckets name).getD ∅

/-- The row of a case. -/
def caseStat (g : CaseGroups) (name : String) : CaseStat :=
  let recs := g.records name
  let endCount := (recs.map TracingRecord.count).sum
  -- the sentinel `-1` is replaced by zero below
  let minMs := runningMin (recs.map TracingRecord.minDurationMs)
  { name := name
    -- requests are counted where they start, results where they end
    total := (g.starts name).total
    success := (recs.map successCount).sum
    failed := (recs.map failedCount).sum
    avgMs := if endCount > 0 then
        roundTenth ((i64 (recs.map TracingRecord.totalDurationMs).sum : ℚ) / endCount)
      else 0
    varianceMs := if recs.length > 0 then
        (i64 (recs.map TracingRecord.variance).sum).tdiv recs.length
      else 0
    minMs := if minMs < 0 then 0 else minMs
    maxMs := runningMax (recs.map TracingRecord.maxDurationMs) }

end CaseGroups

/-- `bucket`: one case in one second. -/
structure SecondBucket where
  qpsCount : Int
  endCount : Int
  success : Int
  failed : Int
  totalMs : Int
  varianceSumMs : Int
  varianceCount : Int

namespace SecondBucket

def zero : SecondBucket :=
  { qpsCount := 0, endCount := 0, success := 0, failed := 0, totalMs := 0, varianceSumMs := 0
    varianceCount := 0 }

/-- An end record goes into the bucket of its second. -/
def addEnd (r : TracingRecord) (b : SecondBucket) : SecondBucket :=
  { b with
    endCount := b.endCount + r.count
    success := b.success + successCount r
    failed := b.failed + failedCount r
    totalMs := i64 (b.totalMs + r.totalDurationMs)
    varianceSumMs := i64 (b.varianceSumMs + r.variance)
    varianceCount := b.varianceCount + 1 }

/-- The starts of a second. -/
def addStarts (cnt : Int) (b : SecondBucket) : SecondBucket :=
  { b with qpsCount := b.qpsCount + cnt }

end SecondBucket

namespace CaseGroups

/-- `caseBuckets[name]`: the end records, then the starts. -/
def caseBuckets (g : CaseGroups) (name : String) : Grouped Int SecondBucket :=
  let ends := Grouped.groupAll TracingRecord.timestamp .zero SecondBucket.addEnd
    (g.records name) .empty
  -- a second with starts only gets a bucket here
  Grouped.groupAll (fun e => e.1) .zero (fun e => SecondBucket.addStarts e.2)
    (g.starts name).entries ends

/-- `secs`: every second of a case with end records, in order. -/
def secs (g : CaseGroups) : List Int :=
  (g.caseOrder.flatMap fun name => (g.caseBuckets name).order).dedup.insertionSort (· ≤ ·)

/-- A field of the bucket of a second, zero where there is none. -/
def bucketField {α : Type} [Zero α] (g : CaseGroups) (name : String) (f : SecondBucket → α)
    (sec : Int) : α :=
  (((g.caseBuckets name).buckets sec).map f).getD 0

/-- The chart of a case. -/
def chartSeries (g : CaseGroups) (format : Int → String) (name : String) : ChartSeriesData :=
  { name := name
    minTime := format ((g.caseBuckets name).order.min?.getD 0)
    maxTime := format ((g.caseBuckets name).order.max?.getD 0)
    qps := g.secs.map (g.bucketField name SecondBucket.qpsCount)
    success := g.secs.map (g.bucketField name SecondBucket.success)
    failed := g.secs.map (g.bucketField name SecondBucket.failed)
    avgMs := g.secs.map (g.bucketField name fun b =>
      if b.endCount > 0 then roundTenth ((b.totalMs : ℚ) / b.endCount) else 0)
    varianceMs := g.secs.map (g.bucketField name fun b =>
      if b.endCount > 0 ∧ b.varianceCount > 0 then b.varianceSumMs.tdiv b.varianceCount else 0)
    errors := (g.records name).foldl (fun t r => t.merge r.error) ∅ }

end CaseGroups

/-- The end records of the global statistics, which leaves out nil but not a count of zero. -/
def endRecords (records : List (Option TracingRecord)) : List TracingRecord :=
  records.filterMap fun r =>
    match r with
    | none => none
    | some r => if r.startData then none else some r

/-- `processTracings`. -/
def processTracings (format : Int → String) (td : TemplateData)
    (records : List (Option TracingRecord)) : TemplateData :=
  let g := groupTracings records
  if g.caseOrder.length = 0 then { td with totalReqs := 0 }
  else
    let ends := endRecords records
    let endCount := (ends.map TracingRecord.count).sum
    -- the starts of all cases, also of one that has no row
    { totalReqs := (g.caseStartBuckets.order.map fun name => (g.starts name).total).sum
      successReqs := td.successReqs + (ends.map successCount).sum
      failedReqs := td.failedReqs + (ends.map failedCount).sum
      avgMs := if endCount > 0 then
          roundTenth ((i64 (ends.map TracingRecord.totalDurationMs).sum : ℚ) / endCount)
        else td.avgMs
      varianceMs := if ends.length > 0 then
          (i64 (ends.map TracingRecord.variance).sum : ℚ) / ends.length
        else td.varianceMs
      caseStats := td.caseStats ++ g.caseOrder.map g.caseStat
      chart :=
        { timeLabels := g.secs.map format
          startEpoch := g.secs.head?.getD 0
          series := g.caseOrder.map (g.chartSeries format) }
      errorCodes := ends.foldl (fun t r => t.merge r.error) ∅ }

/-! ## From the series -/

/-- `filterMetricPoints`, times in seconds; `none` is the zero time. -/
def filterMetricPoints (points : List MetricsPoint) (start stop : Option Int) : List MetricsPoint :=
  -- the start is truncated to the second, which it is already here
  if start.isNone ∧ stop.isNone then points
  else points.filter fun p =>
    (start.all fun s => ¬ p.timestamp < s) && (stop.all fun e => ¬ p.timestamp > e)

/-- A series that is a cleaned metric of a case. -/
structure MatchedSeries where
  caseName : String
  metric : CleanedMetric
  points : List MetricsPoint

/-- The case label and the first known suffix that fits the name. -/
def matchSeries (start stop : Option Int) (s : MetricsSeries) : Option MatchedSeries :=
  -- a missing label reads as the empty string
  let caseName := (s.labels.lookup "case").getD ""
  if caseName = "" then none
  else (CleanedMetric.all.find? fun m => s.name = caseName ++ m.suffix).map fun m =>
    { caseName := caseName, metric := m, points := filterMetricPoints s.points start stop }

/-- `map[string]float64` from formatted seconds. -/
abbrev TimeMap : Type := AList fun _ : String => ℚ

/-- `caseTimeSeries`, with its seven maps under the metric each is for. -/
structure CaseTimeSeries where
  values : CleanedMetric → TimeMap
  minTime : String
  maxTime : String

namespace CaseTimeSeries

/-- `newCTS`. -/
def new : CaseTimeSeries := { values := fun _ => ∅, minTime := "", maxTime := "" }

/-- One point. The success rate has no map. -/
def put (format : Int → String) (m : CleanedMetric) (cts : CaseTimeSeries) (pt : MetricsPoint) :
    CaseTimeSeries :=
  let t := format pt.timestamp
  { values := if m = .successRate then cts.values
      else Function.update cts.values m ((cts.values m).insert t pt.value)
    minTime := if cts.minTime = "" ∨ t < cts.minTime then t else cts.minTime
    maxTime := if cts.maxTime = "" ∨ t > cts.maxTime then t else cts.maxTime }

/-- `cts.m[t]`; a missing key is zero. -/
def get (cts : CaseTimeSeries) (m : CleanedMetric) (t : String) : ℚ :=
  ((cts.values m).lookup t).getD 0

/-- The chart of a case. -/
def chartSeries (cts : CaseTimeSeries) (timeLabels : List String) (name : String) :
    ChartSeriesData :=
  { name := name
    minTime := cts.minTime
    maxTime := cts.maxTime
    qps := timeLabels.map fun t => mathRound (cts.get .qps t)
    success := timeLabels.map fun t => mathRound (cts.get .successQps t)
    failed := timeLabels.map fun t => mathRound (cts.get .failedQps t)
    avgMs := timeLabels.map fun t => roundTenth (cts.get .avgMs t)
    varianceMs := timeLabels.map fun t => mathRound (cts.get .varianceMs t)
    errors := ∅ }

/-- The row of a case, from the values of each second. -/
def caseStat (cts : CaseTimeSeries) (timeLabels : List String) (name : String) : CaseStat :=
  let sd := cts.chartSeries timeLabels name
  -- `if q > 0`: the averages pass over seconds in which nothing started
  let busy := timeLabels.filter fun t => mathRound (cts.get .qps t) > 0
  let sumAvg := (busy.map fun t => cts.get .avgMs t * (mathRound (cts.get .qps t) : ℚ)).sum
  let sumVariance := i64 (busy.map fun t => mathRound (cts.get .varianceMs t)).sum
  -- `if v > 0 && ...`: a minimum of zero is passed over
  let minMs := runningMin
    (((cts.values .minMs).entries.filter fun e => e.2 > 0).map fun e => TracingBucket.truncate e.2)
  { name := name
    total := sd.qps.sum
    success := sd.success.sum
    failed := sd.failed.sum
    avgMs := if busy.length > 0 then roundTenth (sumAvg / sd.qps.sum) else 0
    varianceMs := if busy.length > 0 then sumVariance.tdiv busy.length else 0
    minMs := if minMs < 0 then 0 else minMs
    maxMs := runningMax ((cts.values .maxMs).entries.map fun e => TracingBucket.truncate e.2) }

end CaseTimeSeries

/-- `caseOrder` and `caseMap`. -/
def caseMap (format : Int → String) (matched : List MatchedSeries) :
    Grouped String CaseTimeSeries :=
  Grouped.groupAll MatchedSeries.caseName .new
    (fun s cts => s.points.foldl (CaseTimeSeries.put format s.metric) cts) matched .empty

/-- `timeLabels`: the keys of `allSecsSet`, sorted as strings. -/
def timeLabels (format : Int → String) (matched : List MatchedSeries) : List String :=
  let allSecs := (matched.flatMap MatchedSeries.points).map fun p => format p.timestamp
  allSecs.dedup.insertionSort (· ≤ ·)

/-- `buildChartsFromMetrics`. -/
def buildChartsFromMetrics (format : Int → String) (parse : String → Option Int)
    (td : TemplateData) (series : List MetricsSeries) (startTime endTime : Option Int) :
    TemplateData :=
  let matched := series.filterMap (matchSeries startTime endTime)
  let cases := caseMap format matched
  let labels := timeLabels format matched
  if cases.order.length = 0 then td
  else
    let cts := fun name => (cases.buckets name).getD .new
    let rows := cases.order.map fun name => (cts name).caseStat labels name
    let caseStats := td.caseStats ++ rows
    let totalReqs := td.totalReqs + (rows.map CaseStat.total).sum
    { totalReqs := totalReqs
      successReqs := td.successReqs + (rows.map CaseStat.success).sum
      failedReqs := td.failedReqs + (rows.map CaseStat.failed).sum
      -- the averages of the rows, weighted by their totals
      avgMs := if totalReqs > 0 then
          roundTenth ((caseStats.map fun cs => cs.avgMs * (cs.total : ℚ)).sum / totalReqs)
        else td.avgMs
      varianceMs := if totalReqs > 0 then
          roundTenth ((caseStats.map fun cs => (cs.varianceMs : ℚ) * cs.total).sum / totalReqs)
        else td.varianceMs
      caseStats := caseStats
      chart :=
        { timeLabels := labels
          startEpoch := (labels.head?.bind parse).getD 0
          series := cases.order.map fun name => (cts name).chartSeries labels name }
      errorCodes := td.errorCodes }

end Robot.Report
