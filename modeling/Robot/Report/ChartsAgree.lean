import Robot.Report.ChartFigures

/-!
# Do the two ways to the charts agree?

`buildChartsFromMetrics`, fed with the cleaned series of some records, looks single points up by
their formatted second. With one record per case, second and kind no point overwrites another,
so it shows the sums of `ChartFigures` as `processTracings` does.

What is left is where the second way leaves something out. It passes over series whose case
label is empty, and over minima that are zero: a case with some seconds in which the fastest
request took less than a millisecond and some in which none did has the minimum zero in one
table and not in the other. `charts_agree_iff` says that this is all.
-/

namespace Robot.Report

open Robot.Lib Function List

/-! ## The series are found -/

section Rebuilt

variable {recs : List TracingRecord} {format : Int → String}

/-- A cleaned series is matched to its case and metric, unless the case has no name. -/
theorem matchSeries_seriesOf (recs : List TracingRecord) (name : String) (m : CleanedMetric) :
    matchSeries none none (seriesOf recs name m)
      = if name = "" then none else some ⟨name, m, (seriesOf recs name m).points⟩ := by
  have hfind : (CleanedMetric.all.find? fun m' => name ++ m.suffix = name ++ m'.suffix) = some m := by
    have hpred : (fun m' : CleanedMetric => decide (name ++ m.suffix = name ++ m'.suffix))
        = fun m' => decide (m = m') := by
      funext m'
      refine decide_eq_decide.mpr ⟨fun h => ?_, fun h => by rw [h]⟩
      exact CleanedMetric.suffix_inj ((String.append_right_inj name).mp h)
    rw [hpred]
    cases m <;> rfl
  show (if name = "" then none else _) = _
  split
  next => rfl
  next => exact congrArg (Option.map _) hfind

/-- The matched series of a case. -/
def matchedOf (recs : List TracingRecord) (name : String) : List MatchedSeries :=
  if name = "" then []
  else CleanedMetric.all.map fun m => ⟨name, m, (seriesOf recs name m).points⟩

variable {name : String}

theorem matchedOf_named (h : name ≠ "") :
    matchedOf recs name
      = CleanedMetric.all.map fun m => ⟨name, m, (seriesOf recs name m).points⟩ := if_neg h

theorem matched_clean (h : TracedList recs) :
    (cleanTracingsToMetrics (recs.map some)).filterMap (matchSeries none none)
      = (caseNames recs).flatMap (matchedOf recs) := by
  unfold cleanTracingsToMetrics
  rw [h.counted, filterMap_flatMap]
  refine flatMap_congr fun name _ => ?_
  unfold matchedOf
  rw [filterMap_map]
  split
  next hname =>
    refine filterMap_eq_nil_iff.mpr fun m _ => ?_
    rw [comp_apply, matchSeries_seriesOf, if_pos hname]
  next hname =>
    rw [← filterMap_eq_map]
    refine filterMap_congr fun m _ => ?_
    rw [comp_apply, matchSeries_seriesOf, if_neg hname]
    rfl

/-- The maps rebuilt for a case. -/
def rebuiltCase (format : Int → String) (recs : List TracingRecord) (name : String) :
    CaseTimeSeries :=
  ((caseMap format ((caseNames recs).flatMap (matchedOf recs))).buckets name).getD .new

/-- The rebuilt time axis. -/
def rebuiltLabels (format : Int → String) (recs : List TracingRecord) : List String :=
  timeLabels format ((caseNames recs).flatMap (matchedOf recs))

theorem caseName_matchedOf (recs : List TracingRecord) (name : String) :
    ∀ s ∈ matchedOf recs name, s.caseName = name := by
  intro s hs
  unfold matchedOf at hs
  split at hs
  next => exact absurd hs not_mem_nil
  next =>
    obtain ⟨m, -, rfl⟩ := mem_map.mp hs
    rfl

/-- A case has a row if something of it occurs and it has a name. -/
theorem mem_caseMap :
    name ∈ (caseMap format ((caseNames recs).flatMap (matchedOf recs))).order ↔
      name ∈ caseNames recs ∧ name ≠ "" := by
  unfold caseMap
  rw [Grouped.groupAll_mem]
  constructor
  · intro h
    obtain ⟨s, hs, hcase⟩ := h
    obtain ⟨name', hname', hs'⟩ := mem_flatMap.mp hs
    have hsame : name' = name := (caseName_matchedOf recs name' s hs').symm.trans hcase
    subst hsame
    refine ⟨hname', fun hempty => ?_⟩
    unfold matchedOf at hs'
    rw [if_pos hempty] at hs'
    exact absurd hs' not_mem_nil
  · intro h
    refine ⟨⟨name, .qps, (seriesOf recs name .qps).points⟩, mem_flatMap.mpr ⟨name, h.1, ?_⟩, rfl⟩
    rw [matchedOf_named h.2]
    exact mem_map.mpr ⟨.qps, CleanedMetric.mem_all _, rfl⟩

/-! ## The points are found -/

/-- The points of a series go into the map of its metric and no other. -/
theorem values_foldl_put (m m' : CleanedMetric) : ∀ (pts : List MetricsPoint) (cts : CaseTimeSeries),
    (pts.foldl (CaseTimeSeries.put format m) cts).values m'
      = if m' = m ∧ m ≠ .successRate then
          assignAll (fun p => format p.timestamp) MetricsPoint.value pts (cts.values m')
        else cts.values m' := by
  intro pts
  induction pts with
  | nil =>
    intro cts
    split
    · rfl
    · rfl
  | cons p pts ih =>
    intro cts
    rw [foldl_cons, ih]
    -- the rate has no map; another metric's map gets the point
    by_cases hm : m = .successRate
    · have hkeep : (CaseTimeSeries.put format m cts p).values = cts.values := if_pos hm
      simp only [hm, ne_eq, not_true_eq_false, and_false, if_false]
      rw [← hm, hkeep]
    · have hput : (CaseTimeSeries.put format m cts p).values = update cts.values m
          ((cts.values m).insert (format p.timestamp) p.value) := if_neg hm
      by_cases hm' : m' = m
      · subst hm'
        rw [if_pos ⟨rfl, hm⟩, if_pos ⟨rfl, hm⟩, hput, update_self]
        rfl
      · rw [if_neg (fun h => hm' h.1), if_neg (fun h => hm' h.1), hput,
          update_of_ne hm']

/-- The maps of a case after some of its series, one for each metric. -/
theorem values_foldl_series (points : CleanedMetric → List MetricsPoint) (m : CleanedMetric)
    (hm : m ≠ .successRate) (name : String) : ∀ (ms : List CleanedMetric) (cts : CaseTimeSeries),
    ms.Nodup →
    ((ms.map fun m => (⟨name, m, points m⟩ : MatchedSeries)).foldl
        (fun cts s => s.points.foldl (CaseTimeSeries.put format s.metric) cts) cts).values m
      = if m ∈ ms then
          assignAll (fun p => format p.timestamp) MetricsPoint.value (points m) (cts.values m)
        else cts.values m := by
  intro ms
  induction ms with
  | nil => intro cts _; rfl
  | cons a ms ih =>
    intro cts hnd
    rw [nodup_cons] at hnd
    rw [map_cons, foldl_cons, ih _ hnd.2, values_foldl_put]
    by_cases ha : m = a
    · subst ha
      rw [if_neg hnd.1, if_pos ⟨rfl, hm⟩, if_pos mem_cons_self]
    · simp only [ha, false_and, if_false, mem_cons, false_or]

/-- **The maps of a case** have an entry for each of its records. -/
theorem caseMap_values (hname : name ∈ caseNames recs ∧ name ≠ "")
    {m : CleanedMetric} (hm : m ≠ .successRate) :
    (rebuiltCase format recs name).values m
      = assignAll (fun r => format r.timestamp) (fun r => m.value r)
          (sortByTime (recordsFor recs name m)) ∅ := by
  have hgroup := filter_flatMap_key (caseName_matchedOf recs) name (caseNames recs)
    (caseNames_nodup recs)
  rw [if_pos hname.1, matchedOf_named hname.2] at hgroup
  unfold rebuiltCase caseMap
  rw [Grouped.groupAll_bucket, hgroup, Option.getD_some,
    values_foldl_series (fun m => (seriesOf recs name m).points) m hm name CleanedMetric.all .new
      (by decide), if_pos (CleanedMetric.mem_all m)]
  · unfold assignAll seriesOf
    exact foldl_map
  · rw [hgroup]
    exact nofun

/-- The formatted seconds of a case and metric are distinct. -/
theorem formatted_nodup (hformat : Injective format)
    (hnd : (recs.map TracingRecord.key).Nodup) (name : String) (m : CleanedMetric) :
    ((sortByTime (recordsFor recs name m)).map fun r => format r.timestamp).Nodup := by
  have hperm := (sortByTime_perm (recordsFor recs name m)).map fun r => format r.timestamp
  rw [hperm.nodup_iff]
  have hmap := (recordsFor_nodup hnd name m).map hformat
  rw [map_map] at hmap
  exact hmap

/-- What is looked up at a label is the sum of the second. -/
theorem mathRound_get (hformat : Injective format)
    (hnd : (recs.map TracingRecord.key).Nodup)
    (hname : name ∈ caseNames recs ∧ name ≠ "") (line : ChartLine) (t : String) :
    mathRound ((rebuiltCase format recs name).get line.metric t)
      = secondSum format recs name line t := by
  have hrate : line.metric ≠ .successRate := by
    cases line <;> decide
  have hkeys := formatted_nodup hformat hnd name line.metric
  unfold CaseTimeSeries.get
  rw [caseMap_values hname hrate]
  by_cases hr : ∃ r ∈ recordsFor recs name line.metric, format r.timestamp = t
  · obtain ⟨r, hr, rfl⟩ := hr
    have hsorted : r ∈ sortByTime (recordsFor recs name line.metric) :=
      (sortByTime_perm _).mem_iff.mpr hr
    -- the record is alone at its label
    have hgroup := filter_of_nodup_keys
      (((sortByTime_perm _).map fun r => format r.timestamp).nodup_iff.mp hkeys) hr
    rw [lookup_assignAll_of_mem _ hkeys hsorted, Option.getD_some, value_eq_tally,
      mathRound_intCast]
    unfold secondSum
    rw [hgroup]
    exact (Int.add_zero _).symm
  · have hnone : ∀ r ∈ recordsFor recs name line.metric, format r.timestamp ≠ t :=
      fun r hr' he => hr ⟨r, hr', he⟩
    rw [secondSum_eq_zero hnone, lookup_assignAll_of_ne _ _ _ fun r hr' =>
      hnone r ((sortByTime_perm _).mem_iff.mp hr')]
    have hzero : mathRound 0 = 0 := by simpa using mathRound_intCast 0
    exact hzero

/-! ## The time axis -/

theorem rebuiltLabels_nodup : (rebuiltLabels format recs).Nodup := by
  unfold rebuiltLabels timeLabels
  exact (perm_insertionSort _ _).nodup_iff.mpr (nodup_dedup _)

/-- Every second of a named case is on the time axis. -/
theorem mem_rebuiltLabels (hname : name ∈ caseNames recs ∧ name ≠ "")
    {m : CleanedMetric} {r : TracingRecord} (hr : r ∈ recordsFor recs name m) :
    format r.timestamp ∈ rebuiltLabels format recs := by
  unfold rebuiltLabels timeLabels
  rw [mem_insertionSort, mem_dedup, mem_map]
  refine ⟨⟨r.timestamp, m.value r⟩, mem_flatMap.mpr
    ⟨⟨name, m, (seriesOf recs name m).points⟩, mem_flatMap.mpr ⟨name, hname.1, ?_⟩, ?_⟩, rfl⟩
  · rw [matchedOf_named hname.2]
    exact mem_map.mpr ⟨m, m.mem_all, rfl⟩
  · exact mem_map.mpr ⟨r, (sortByTime_perm _).mem_iff.mpr hr, rfl⟩

/-! ## Rows and lines -/

/-- **The rows** of `buildChartsFromMetrics` show the sums of the case. -/
theorem rebuilt_total (hformat : Injective format)
    (hnd : (recs.map TracingRecord.key).Nodup)
    (hname : name ∈ caseNames recs ∧ name ≠ "") (line : ChartLine) :
    line.total ((rebuiltCase format recs name).caseStat (rebuiltLabels format recs) name)
      = caseSum recs name line := by
  have hrow : ∀ (cts : CaseTimeSeries) (labels : List String),
      line.total (cts.caseStat labels name)
        = (labels.map fun t => mathRound (cts.get line.metric t)).sum := by
    intro cts labels
    cases line with
    | qps => rfl
    | success => rfl
    | failed => rfl
  rw [hrow, map_congr_left fun t _ => mathRound_get hformat hnd hname line t]
  exact sum_groups_cover (fun r => format r.timestamp) line.tally _ rebuiltLabels_nodup
    fun r hr => mem_rebuiltLabels hname hr

/-- The values of a map that came from whole numbers, up to their order. -/
theorem truncate_entries {α κ : Type} [DecidableEq κ] {key : α → κ} {xs : List α} (val : α → Int)
    (hnd : (xs.map key).Nodup) :
    ((assignAll key (fun x => (val x : ℚ)) xs ∅).entries.map fun e =>
        TracingBucket.truncate e.2).Perm (xs.map val) := by
  refine ((assignAll_perm _ hnd).map _).trans (List.Perm.of_eq ?_)
  rw [map_map]
  exact map_congr_left fun x _ => truncate_intCast (val x)

/-- Leaving out the minima that are not positive, before or after the conversion. -/
theorem filter_truncate {α κ : Type} [DecidableEq κ] {key : α → κ} {xs : List α} (val : α → Int)
    (hnd : (xs.map key).Nodup) :
    (((assignAll key (fun x => (val x : ℚ)) xs ∅).entries.filter fun e => e.2 > 0).map fun e =>
        TracingBucket.truncate e.2)
      = ((assignAll key (fun x => (val x : ℚ)) xs ∅).entries.map fun e =>
          TracingBucket.truncate e.2).filter fun v => 0 < v := by
  rw [filter_map]
  refine congrArg (List.map _) (filter_congr fun e he => ?_)
  obtain ⟨x, -, rfl⟩ := mem_map.mp ((assignAll_perm _ hnd).mem_iff.mp he)
  rw [comp_apply, truncate_intCast]
  exact decide_eq_decide.mpr Int.cast_pos

/-- A matched series has its case in the map. -/
theorem caseMap_order_ne_nil {matched : List MatchedSeries} (h : matched ≠ []) :
    (caseMap format matched).order ≠ [] := by
  obtain ⟨s, hs⟩ := exists_mem_of_ne_nil _ h
  have hcase : s.caseName ∈ (caseMap format matched).order :=
    (Grouped.groupAll_mem ..).mpr ⟨s, hs, rfl⟩
  exact ne_nil_of_mem hcase

/-- What `buildChartsFromMetrics` fills in from the cleaned series, also where there is no case. -/
theorem rebuilt_fills (parse : String → Option Int) (h : TracedList recs) :
    let td := buildChartsFromMetrics format parse .new (cleanTracingsToMetrics (recs.map some)) none
      none
    let order := (caseMap format ((caseNames recs).flatMap (matchedOf recs))).order
    td.caseStats = order.map (fun name =>
        (rebuiltCase format recs name).caseStat (rebuiltLabels format recs) name) ∧
      td.chart.timeLabels = rebuiltLabels format recs ∧
      td.chart.series = order.map fun name =>
        (rebuiltCase format recs name).chartSeries (rebuiltLabels format recs) name := by
  dsimp only
  unfold buildChartsFromMetrics
  rw [matched_clean h]
  dsimp only
  split
  next hnil =>
    have hempty := length_eq_zero_iff.mp hnil
    have hmatched : (caseNames recs).flatMap (matchedOf recs) = [] :=
      not_not.mp fun hne => caseMap_order_ne_nil hne hempty
    unfold rebuiltLabels
    rw [hmatched]
    exact ⟨rfl, rfl, rfl⟩
  next => exact ⟨rfl, rfl, rfl⟩

/-- The rows of `buildChartsFromMetrics`, from the cleaned series. -/
theorem rebuilt_row (parse : String → Option Int) (h : TracedList recs) (name : String) :
    (buildChartsFromMetrics format parse .new (cleanTracingsToMetrics (recs.map some)) none
        none).row name
      = if name ∈ caseNames recs ∧ name ≠ "" then
          some ((rebuiltCase format recs name).caseStat (rebuiltLabels format recs) name)
        else none := by
  unfold TemplateData.row
  rw [(rebuilt_fills parse h).1, find?_map_name fun _ => rfl]
  simp only [mem_caseMap]

theorem rebuilt_values (line : ChartLine) (name : String) :
    line.values ((rebuiltCase format recs name).chartSeries (rebuiltLabels format recs) name)
      = (rebuiltLabels format recs).map fun t =>
          mathRound ((rebuiltCase format recs name).get line.metric t) := by
  cases line with
  | qps => rfl
  | success => rfl
  | failed => rfl

/-- The lines of `buildChartsFromMetrics`, from the cleaned series. -/
theorem rebuilt_valueAt (hformat : Injective format)
    (hnd : (recs.map TracingRecord.key).Nodup) (parse : String → Option Int) (h : TracedList recs)
    (line : ChartLine) (name t : String) :
    (buildChartsFromMetrics format parse .new (cleanTracingsToMetrics (recs.map some)) none
        none).chart.valueAt line name t
      = if name ∈ caseNames recs ∧ name ≠ "" then secondSum format recs name line t else 0 := by
  obtain ⟨-, hlabels, hseries⟩ := (rebuilt_fills parse h : _ ∧ _ ∧ _)
  rw [valueAt_eq (fun _ => rfl) hseries (fun n => by rw [hlabels, rebuilt_values]) ?_ name t]
  · simp only [mem_caseMap]
    split
    next hname => exact mathRound_get hformat hnd hname line t
    next => rfl
  · intro n hn t ht
    rw [mem_caseMap] at hn
    rw [mathRound_get hformat hnd hn line t]
    refine secondSum_eq_zero fun r hr he => ht ?_
    rw [hlabels, ← he]
    exact mem_rebuiltLabels hn hr

/-! ## Minima and maxima -/

/-- The minima of a case, in the order of its records. -/
def minimaOf (recs : List TracingRecord) (name : String) : List Int :=
  (recordsFor recs name .minMs).map TracingRecord.minDurationMs

theorem minimaOf_nonneg (h : TracedList recs) (name : String) : ∀ v ∈ minimaOf recs name, 0 ≤ v := by
  intro v hv
  obtain ⟨r, hr, rfl⟩ := mem_map.mp hv
  exact (h.each r (mem_recordsFor.mp hr).1).min

/-- The minimum from the records is the minimum. -/
theorem caseStat_minMs (h : TracedList recs) (name : String) :
    ((groupTracings (recs.map some)).caseStat name).minMs = (minimaOf recs name).min?.getD 0 := by
  rw [← runningMin_eq (minimaOf_nonneg h name)]
  unfold CaseGroups.caseStat
  dsimp only
  rw [groupTracings_records h]
  rfl

/-- The minimum from the series is the least positive one. -/
theorem rebuilt_minMs (hformat : Injective format)
    (hnd : (recs.map TracingRecord.key).Nodup) (hname : name ∈ caseNames recs ∧ name ≠ "") :
    ∃ l : List Int, l.Perm (minimaOf recs name) ∧
      ((rebuiltCase format recs name).caseStat (rebuiltLabels format recs) name).minMs
        = (l.filter fun v => 0 < v).min?.getD 0 := by
  have hkeys := formatted_nodup hformat hnd name .minMs
  have hvalues : (rebuiltCase format recs name).values .minMs = _ := caseMap_values hname nofun
  refine ⟨_, (truncate_entries TracingRecord.minDurationMs hkeys).trans
    ((sortByTime_perm _).map _), ?_⟩
  rw [← filter_truncate TracingRecord.minDurationMs hkeys, ← runningMin_eq]
  · unfold CaseTimeSeries.caseStat
    dsimp only
    rw [hvalues]
    rfl
  · intro v hv
    rw [filter_truncate TracingRecord.minDurationMs hkeys] at hv
    exact Int.le_of_lt (of_decide_eq_true (mem_filter.mp hv).2)

/-- The maximum is the same both ways. -/
theorem rebuilt_maxMs (hformat : Injective format)
    (hnd : (recs.map TracingRecord.key).Nodup) (h : TracedList recs)
    (hname : name ∈ caseNames recs ∧ name ≠ "") :
    ((rebuiltCase format recs name).caseStat (rebuiltLabels format recs) name).maxMs
      = ((groupTracings (recs.map some)).caseStat name).maxMs := by
  have hkeys := formatted_nodup hformat hnd name .maxMs
  have hvalues : (rebuiltCase format recs name).values .maxMs = _ := caseMap_values hname nofun
  unfold CaseTimeSeries.caseStat CaseGroups.caseStat
  dsimp only
  rw [hvalues, groupTracings_records h]
  exact runningMax_perm ((truncate_entries TracingRecord.maxDurationMs hkeys).trans
    ((sortByTime_perm _).map _))

/-! ## Where they agree -/

/-- No case has both seconds with a minimum of zero and seconds without. -/
def MinimaAlike (recs : List TracingRecord) : Prop :=
  ∀ r ∈ recs, ∀ r' ∈ recs, r.startData = false → r'.startData = false → r.name = r'.name →
    r.minDurationMs = 0 → r'.minDurationMs = 0

instance (recs : List TracingRecord) : Decidable (MinimaAlike recs) :=
  inferInstanceAs (Decidable (∀ r ∈ recs, ∀ r' ∈ recs, r.startData = false →
    r'.startData = false → r.name = r'.name → r.minDurationMs = 0 → r'.minDurationMs = 0))

theorem minimaAlike_iff (recs : List TracingRecord) :
    MinimaAlike recs ↔
      ∀ name, 0 ∈ minimaOf recs name → ∀ v ∈ minimaOf recs name, v = 0 := by
  constructor
  · intro h name hzero v hv
    obtain ⟨r, hr, hr0⟩ := mem_map.mp hzero
    obtain ⟨r', hr', rfl⟩ := mem_map.mp hv
    obtain ⟨hmem, hname, hend⟩ := mem_recordsFor.mp hr
    obtain ⟨hmem', hname', hend'⟩ := mem_recordsFor.mp hr'
    exact h r hmem r' hmem' hend hend' (hname.trans hname'.symm) hr0
  · intro h r hr r' hr' hend hend' hname hr0
    refine h r.name ?_ _ (mem_map.mpr ⟨r', mem_recordsFor.mpr ⟨hr', hname.symm, hend'⟩, rfl⟩)
    exact mem_map.mpr ⟨r, mem_recordsFor.mpr ⟨hr, rfl, hend⟩, hr0⟩

/-- The rows of a named case agree in all but the minimum. -/
theorem figures_eq_iff (hformat : Injective format)
    (hnd : (recs.map TracingRecord.key).Nodup) (h : TracedList recs)
    (hname : name ∈ caseNames recs ∧ name ≠ "") :
    ((groupTracings (recs.map some)).caseStat name).figures
        = ((rebuiltCase format recs name).caseStat (rebuiltLabels format recs) name).figures ↔
      (0 ∈ minimaOf recs name → ∀ v ∈ minimaOf recs name, v = 0) := by
  obtain ⟨l, hperm, hmin⟩ := rebuilt_minMs hformat hnd hname
  rw [← min_eq_min_pos_iff hperm (minimaOf_nonneg h name), ← hmin, ← caseStat_minMs h]
  refine figures_eq_iff_minMs (fun line => ?_) (rebuilt_maxMs hformat hnd h hname).symm
  rw [caseStat_total h, rebuilt_total hformat hnd hname]

/-- For records as `CompactTracingsBySecond` returns them. -/
theorem sameCharts_iff (hformat : Injective format) (parse : String → Option Int)
    (h : TracedList recs) (hnd : (recs.map TracingRecord.key).Nodup) :
    SameCharts (processTracings format .new (recs.map some))
        (buildChartsFromMetrics format parse .new (cleanTracingsToMetrics (recs.map some)) none none)
      ↔ (∀ r ∈ recs, r.name ≠ "") ∧ MinimaAlike recs := by
  rw [minimaAlike_iff]
  constructor
  · intro hsame
    -- the case without a name has a row on one page only
    have hnames : ∀ r ∈ recs, r.name ≠ "" := by
      intro r hr hempty
      have hrow := hsame.rows r.name
      rw [processTracings_row format h, rebuilt_row parse h,
        if_pos (mem_caseNames.mpr ⟨r, hr, rfl⟩), if_neg fun hn => hn.2 hempty] at hrow
      cases hrow
    refine ⟨hnames, fun name hzero => ?_⟩
    obtain ⟨r, hr, -⟩ := mem_map.mp hzero
    obtain ⟨hmem, hname, -⟩ := mem_recordsFor.mp hr
    have hok : name ∈ caseNames recs ∧ name ≠ "" :=
      ⟨mem_caseNames_of_record hr, hname ▸ hnames r hmem⟩
    have hrow := hsame.rows name
    rw [processTracings_row format h, rebuilt_row parse h, if_pos hok.1, if_pos hok] at hrow
    exact (figures_eq_iff hformat hnd h hok).mp (Option.some.inj hrow) hzero
  · intro hcond
    obtain ⟨hnames, hminima⟩ := hcond
    have hok : ∀ name, name ∈ caseNames recs ↔ name ∈ caseNames recs ∧ name ≠ "" := by
      intro name
      refine ⟨fun hn => ⟨hn, ?_⟩, And.left⟩
      obtain ⟨r, hr, rfl⟩ := mem_caseNames.mp hn
      exact hnames r hr
    constructor
    · intro name
      rw [processTracings_row format h, rebuilt_row parse h]
      by_cases hn : name ∈ caseNames recs
      · rw [if_pos hn, if_pos ((hok name).mp hn)]
        exact congrArg some ((figures_eq_iff hformat hnd h ((hok name).mp hn)).mpr (hminima name))
      · rw [if_neg hn, if_neg fun hn' => hn hn'.1]
    · intro line name t
      rw [processTracings_valueAt hformat h, rebuilt_valueAt hformat hnd parse h]
      split
      next => rfl
      next hn =>
        rw [← hok] at hn
        exact secondSum_eq_zero fun r hr => absurd (mem_caseNames_of_record hr) hn

end Rebuilt

/-- **The charts rebuilt from the cleaned metrics are those made from the records**, for any
tracers, flushes and order of the chunks, if and only if every case has a name and no case has
both seconds with a minimum of zero and seconds without. -/
theorem charts_agree_iff (format : Int → String) (hformat : Injective format)
    (parse : String → Option Int) (agents : List TracingAgent)
    (chunks : List (List TracingRecord)) (hchunks : chunks.Perm (flushedChunks agents)) :
    let recs := compactTracingsBySecond (chunks.flatten.map some)
    SameCharts (processTracings format .new (recs.map some))
        (buildChartsFromMetrics format parse .new (cleanTracingsToMetrics (recs.map some)) none none)
      ↔ (∀ r ∈ recs, r.name ≠ "") ∧ MinimaAlike recs :=
  sameCharts_iff hformat parse (tracedList_compact (tracedList_chunks hchunks)) (compact_nodup _)

/-- One tracer has requests of two cases in two seconds, another one has one more. -/
def wholeRun : List TracingAgent :=
  [(1, [.add sampleRequest (.zero, .zero), .flush,
      .add { sampleRequest with name := "logout", durMs := 0 } (.zero, .zero),
      .add { sampleRequest with startSec := 11, endSec := 12, durMs := 9 } (.zero, .zero)]),
    (2, [.add { sampleRequest with code := -1, errMsg := "timeout" } (.zero, .zero)])]

/-- Two cases over two seconds, from two tracers. -/
theorem two_cases_agree :
    let recs := compactTracingsBySecond ((flushedChunks wholeRun).flatten.map some)
    SameCharts (processTracings Int.repr .new (recs.map some))
        (buildChartsFromMetrics Int.repr String.toInt? .new (cleanTracingsToMetrics (recs.map some))
          none none) := by
  refine (charts_agree_iff Int.repr (fun _ _ => intRepr_inj) String.toInt? wholeRun _ (.refl _)).mpr ?_
  decide +kernel

/-- A request of less than a millisecond, and one of 7 ms in the next second. -/
def zeroThenSeven : List TracingAgent :=
  [(1, [.add { sampleRequest with durMs := 0 } (.zero, .zero),
    .add { sampleRequest with startSec := 11, endSec := 11 } (.zero, .zero)])]

/-- The table says 0 ms from the records and 7 ms from the series. -/
theorem zero_minimum_disagrees :
    let recs := compactTracingsBySecond ((flushedChunks zeroThenSeven).flatten.map some)
    ¬ SameCharts (processTracings Int.repr .new (recs.map some))
        (buildChartsFromMetrics Int.repr String.toInt? .new (cleanTracingsToMetrics (recs.map some))
          none none) := by
  intro recs hsame
  have hrow := hsame.rows "login"
  revert hrow
  decide +kernel

example :
    let recs := compactTracingsBySecond ((flushedChunks zeroThenSeven).flatten.map some)
    ((processTracings Int.repr .new (recs.map some)).row "login").map CaseStat.minMs = some 0 ∧
      ((buildChartsFromMetrics Int.repr String.toInt? .new
        (cleanTracingsToMetrics (recs.map some)) none none).row "login").map CaseStat.minMs
        = some 7 := by
  decide +kernel

end Robot.Report
