import Robot.Report.CompactAlgebra
import Robot.Report.Metrics

/-!
# Solo and master clean different records

Both modes end with `CleanTracingsToMetrics`. The master cleans what `ReadReport` returns, which
is compacted: one record per case, second and kind. `StartSolo` cleans `allTracings`, the
records of all its flushes one after the other. A flush in the middle of a second leaves two
records for that second, and so do two runs of one case, which have a tracer each; compaction
merges them, and cleaning gives them two points.

So the two agree exactly on the reports in which no case has two records of one kind for one
second among the flushes (`metrics_agree_iff`). The argument goes through the order of time. The
series of the master are always in strict order (`masterMetrics_increasing`); those of solo are
if and only if the records have distinct keys (`increasing_iff_nodup`); and where the keys are
distinct compaction only rewrites each record on its own (`compactOnFloats_singles`), in a way that
no metric sees (`value_alone`).

The last step is where `float64` matters. Compaction takes the variance of a record apart into a sum
of squares, `float64(r.Variance) * float64(r.Count)`, and divides it again. Up to `2 ^ 53` this is
exact, beyond it a unit may get lost. So the float fields of the accumulator are computed here with
a rounding after every operation (`floatVariance`), of which all that is used is that it leaves
integers up to `2 ^ 53` alone (`Float64`). The variances that the tracers report are `float64`
results, too; they are taken as they come (`TracingRecord.exact`).
-/

namespace Robot.Report

open Robot.Lib List

/-- What `StartSolo` derives: `allTracings` is the concatenation of the flushes. -/
def soloMetrics (chunks : List (List TracingRecord)) : List MetricsSeries :=
  cleanTracingsToMetrics (chunks.flatten.map some)

/-- The tracing records `ReadReport` gets from the server, before it compacts them. -/
def tracingsRead (client : RedisClient) (reportID : String) : List (Option TracingRecord) :=
  match scanKeys (client.scan (tracingPattern reportID)) with
  | .error _ => []
  | .ok keys => keys.flatMap (readChunks client unmarshalTracings)

/-! ## The variance on `float64` -/

/-- A rounding of `float64`. -/
structure Float64 where
  round : ℚ → ℚ
  exact : ∀ n : Int, |n| ≤ 2 ^ 53 → round n = n

/-- The float fields of an accumulator, and its count. -/
structure FloatAcc where
  count : Int
  mean : ℚ
  m2 : ℚ

/-- `CompactAcc.mergeDurations` on these fields, with a rounding after every operation. -/
def FloatAcc.merge (fl : Float64) (a : FloatAcc) (r : TracingRecord) : FloatAcc :=
  let count := fl.round r.count
  let newCount := fl.round (a.count + r.count : Int)
  let meanB := fl.round (fl.round r.totalDurationMs / count)
  let m2B := fl.round (fl.round r.variance * count)
  let delta := fl.round (meanB - a.mean)
  let between := fl.round (fl.round (fl.round (fl.round (delta * delta) * fl.round a.count) * count)
    / newCount)
  { count := a.count + r.count
    mean := fl.round (a.mean + fl.round (fl.round (delta * count) / newCount))
    m2 := fl.round (a.m2 + fl.round (m2B + between)) }

/-- `rec.Variance` for the end records of one key. -/
def floatVariance (fl : Float64) (g : List TracingRecord) : Int :=
  let a := g.foldl (FloatAcc.merge fl) ⟨0, 0, 0⟩
  TracingBucket.toInt64 (fl.round (a.m2 / fl.round a.count))

/-- The record compacted of `g`, with its variance on `float64`; its other fields are no floats. -/
def TracingRecord.onFloats (fl : Float64) (g : List TracingRecord) (r : TracingRecord) :
    TracingRecord :=
  if r.startData then r else { r with variance := floatVariance fl g }

/-- The records compacted of `read`, with their variances on `float64`. -/
def onFloatsAll (fl : Float64) (read : List (Option TracingRecord)) (compacted : List TracingRecord) :
    List TracingRecord :=
  compacted.map fun r => r.onFloats fl ((countedRecords read).filter fun x => x.key = r.key)

/-- `CompactTracingsBySecond` on `float64`. -/
def compactOnFloats (fl : Float64) (read : List (Option TracingRecord)) : List TracingRecord :=
  onFloatsAll fl read (compactTracingsBySecond read)

/-- What `aggregateAndGenerate` derives from the report it reads. -/
def masterMetrics (fl : Float64) (client : RedisClient) (reportID : String) :
    Except String (List MetricsSeries) := do
  let data ← wrapErr "read report" (readReport (some client) reportID)
  return cleanTracingsToMetrics
    ((onFloatsAll fl (tracingsRead client reportID) data.tracings).map some)

/-- **A variance is taken apart and put together again** without loss as long as the sum of squares
is one that `float64` has. -/
theorem floatVariance_singleton (fl : Float64) {r : TracingRecord} (hcount : 0 < r.count)
    (h0 : 0 ≤ r.variance) (h : r.variance * r.count ≤ 2 ^ 53) : floatVariance fl [r] = r.variance := by
  have hle : r.variance ≤ r.variance * r.count := le_mul_of_one_le_right h0 hcount
  have hzero : fl.round 0 = 0 := by exact_mod_cast fl.exact 0 (by decide)
  have hvariance : fl.round r.variance = r.variance :=
    fl.exact _ (by rw [abs_of_nonneg h0]; exact hle.trans h)
  -- a count is not above a sum of squares it is part of, and an empty sum stays one
  have hparts : fl.round (r.variance * fl.round r.count) = r.variance * fl.round r.count ∧
      fl.round (r.variance * fl.round r.count / fl.round r.count) = r.variance := by
    rcases h0.eq_or_lt with hnone | hpos
    · simp only [← hnone, Int.cast_zero, zero_mul, zero_div, hzero, and_self]
    · have hc : r.count ≤ r.variance * r.count := le_mul_of_one_le_left hcount.le hpos
      have hne : (r.count : ℚ) ≠ 0 := by exact_mod_cast hcount.ne'
      rw [fl.exact r.count (by rw [abs_of_pos hcount]; exact hc.trans h),
        mul_div_cancel_right₀ _ hne, ← Int.cast_mul]
      exact ⟨fl.exact _ (by rw [abs_of_nonneg (mul_nonneg h0 hcount.le)]; exact h), hvariance⟩
  have hm2 : (FloatAcc.merge fl ⟨0, 0, 0⟩ r).m2 = r.variance * fl.round r.count := by
    simp only [FloatAcc.merge, Int.cast_zero, hzero, mul_zero, zero_mul, zero_div, add_zero,
      zero_add, hvariance, hparts.1]
  show TracingBucket.toInt64 (fl.round ((FloatAcc.merge fl ⟨0, 0, 0⟩ r).m2
    / fl.round ((0 + r.count : Int) : ℚ))) = _
  rw [hm2, zero_add, hparts.2]
  exact toInt64_intCast (i64_of_lt h0 ((hle.trans h).trans_lt (by decide)))

/-! ## What is read -/

theorem bind_eq_ok {α β : Type} {x : Except String α} {f : α → Except String β} {b : β}
    (h : (x >>= f) = .ok b) : ∃ a, x = .ok a ∧ f a = .ok b := by
  cases x with
  | error err => cases h
  | ok a => exact ⟨a, rfl, h⟩

theorem wrapErr_eq_ok {α : Type} {text : String} {x : Except String α} {a : α}
    (h : wrapErr text x = .ok a) : x = .ok a := by
  cases x with
  | error err => cases h
  | ok b => exact h

/-- `ReadReport` returns the compaction of what was read. -/
theorem readReport_tracings {client : RedisClient} {reportID : String} {data : ReportData}
    (h : readReport (some client) reportID = .ok data) :
    data.tracings = compactTracingsBySecond (tracingsRead client reportID) := by
  unfold readReport at h
  obtain ⟨text, -, h⟩ := bind_eq_ok h
  obtain ⟨m, -, h⟩ := bind_eq_ok h
  obtain ⟨keys, hkeys, h⟩ := bind_eq_ok h
  obtain ⟨metricsKeys, -, h⟩ := bind_eq_ok h
  rw [← Except.ok.inj h]
  unfold tracingsRead
  rw [wrapErr_eq_ok hkeys]

/-- The master cleans the compaction of what was read. -/
theorem masterMetrics_eq {fl : Float64} {client : RedisClient} {reportID : String}
    {series : List MetricsSeries} (h : masterMetrics fl client reportID = .ok series) :
    series = cleanTracingsToMetrics
      ((compactOnFloats fl (tracingsRead client reportID)).map some) := by
  obtain ⟨data, hread, hseries⟩ := bind_eq_ok h
  rw [← Except.ok.inj hseries, readReport_tracings (wrapErr_eq_ok hread)]
  rfl

/-! ## Records that are alone with their key -/

variable {r : TracingRecord} {recs : List TracingRecord} {fl : Float64}

theorem onFloats_key (g : List TracingRecord) (r : TracingRecord) : (r.onFloats fl g).key = r.key := by
  unfold TracingRecord.onFloats
  split <;> rfl

theorem onFloats_count (g : List TracingRecord) (r : TracingRecord) :
    (r.onFloats fl g).count = r.count := by
  unfold TracingRecord.onFloats
  split <;> rfl

theorem onFloats_code (g : List TracingRecord) (r : TracingRecord) :
    (r.onFloats fl g).code = r.code := by
  unfold TracingRecord.onFloats
  split <;> rfl

theorem compactOnFloats_nodup (read : List (Option TracingRecord)) :
    ((compactOnFloats fl read).map TracingRecord.key).Nodup := by
  unfold compactOnFloats onFloatsAll
  rw [map_map]
  refine (congrArg List.Nodup (map_congr_left fun r _ => ?_)).mpr (compact_nodup read)
  exact onFloats_key _ r

theorem compactOnFloats_counted (read : List (Option TracingRecord)) :
    countedRecords ((compactOnFloats fl read).map some) = compactOnFloats fl read := by
  refine countedRecords_of_pos fun r hr => ?_
  obtain ⟨x, hx, rfl⟩ := mem_map.mp hr
  rw [← countedRecords_compact read] at hx
  rw [onFloats_count]
  exact countedRecords_pos x hx

/-- What compaction makes of a record that is alone with its key. -/
def TracingRecord.alone (fl : Float64) (r : TracingRecord) : TracingRecord :=
  ((CompactAcc.zero.merge r).record r.key).onFloats fl [r]

theorem alone_key (r : TracingRecord) : (r.alone fl).key = r.key :=
  (onFloats_key _ _).trans (CompactAcc.record_key _ _)

/-- Distinct keys: every record is compacted on its own. -/
theorem compactOnFloats_singles {records : List (Option TracingRecord)}
    (hnd : ((countedRecords records).map TracingRecord.key).Nodup) :
    (compactOnFloats fl records).Perm ((countedRecords records).map (TracingRecord.alone fl)) := by
  refine ((compactTracings_perm records).map _).trans ?_
  -- the groups are the keys of the records, and each accumulator has merged one record
  have horder : (compactGroups records).order.Perm
      ((countedRecords records).map TracingRecord.key) := by
    refine (perm_ext_iff_of_nodup (compactGroups records).nodup hnd).mpr fun k => ?_
    rw [mem_map]
    exact Grouped.groupAll_mem ..
  refine ((horder.map _).map _).trans (List.Perm.of_eq ?_)
  rw [map_map, map_map]
  refine map_congr_left fun r hr => ?_
  have hgroup := filter_of_nodup_keys hnd hr
  have hbucket := Grouped.groupAll_bucket TracingRecord.key CompactAcc.zero CompactAcc.merge
    (countedRecords records) r.key (by rw [hgroup]; exact cons_ne_nil _ _)
  rw [hgroup] at hbucket
  show ((((compactGroups records).buckets r.key).getD .zero).record r.key).onFloats fl _ = _
  unfold compactGroups
  rw [hbucket, CompactAcc.record_key, hgroup]
  rfl

theorem TracingRecord.Traced.group (h : r.Traced) : Group r.key [r] where
  key x hx := by rw [mem_singleton.mp hx]
  count x hx := by
    rw [mem_singleton.mp hx]
    exact h.count
  min x hx := by
    rw [mem_singleton.mp hx]
    exact h.min

/-- A record of a tracer goes through an empty accumulator with its figures. -/
theorem single_figures (h : r.Traced) : ((CompactAcc.zero.merge r).record r.key).figures = r.figures :=
  (record_figures h.group (cons_ne_nil r [])).trans (add_zero r.figures)

/-- Its variance is exact: the sum of squares it stands for is one that `float64` has. -/
def TracingRecord.ExactVariance (r : TracingRecord) : Prop :=
  0 ≤ r.variance ∧ r.variance * r.count ≤ 2 ^ 53

instance (r : TracingRecord) : Decidable r.ExactVariance := inferInstanceAs (Decidable (_ ∧ _))

/-- An end record goes through it unchanged. -/
theorem alone_same (h : r.Traced) (hv : r.ExactVariance) (hs : r.startData = false) :
    (r.alone fl).Same r := by
  have hnormal : r.Normal := ⟨h.total, h.max, fun ht => absurd (ht.symm.trans hs) nofun⟩
  have hagree := (record_normal [r] r.key).agree hnormal (CompactAcc.record_key _ _) (single_figures h)
  have hstart : ((CompactAcc.zero.merge r).record r.key).startData = false :=
    (congrArg TracingBucketKey.startData hagree.key).trans hs
  unfold TracingRecord.alone TracingRecord.onFloats
  rw [if_neg (by rw [hstart]; exact Bool.false_ne_true),
    floatVariance_singleton fl h.count hv.1 hv.2]
  exact ⟨⟨hagree.key, hagree.count, hagree.total, hagree.min, hagree.max, hagree.code, hagree.error⟩,
    rfl⟩

/-- **No metric sees** that a record of a tracer was compacted on its own. -/
theorem value_alone (h : r.Traced) (hv : r.ExactVariance) {m : CleanedMetric}
    (hm : r.startData = m.ofStart) : m.value (r.alone fl) = m.value r := by
  have hcount : (r.alone fl).count = r.count :=
    (onFloats_count _ _).trans (congrArg Figures.count (single_figures h))
  have hcode : (r.alone fl).code.lookup 0 = r.code.lookup 0 := by
    rw [TracingRecord.alone, onFloats_code]
    exact congrFun (congrArg Figures.codes (single_figures h)) 0
  cases m with
  | qps => simp only [CleanedMetric.value, hcount]
  | successQps => simp only [CleanedMetric.value, hcode]
  | failedQps => simp only [CleanedMetric.value, hcount, hcode]
  | avgMs => simp only [CleanedMetric.value, hcount, (alone_same h hv hm).total]
  | varianceMs => simp only [CleanedMetric.value, (alone_same h hv hm).variance]
  | minMs => simp only [CleanedMetric.value, (alone_same h hv hm).min]
  | maxMs => simp only [CleanedMetric.value, (alone_same h hv hm).max]
  | successRate => simp only [CleanedMetric.value, hcount, hcode]

/-! ## Order of time and distinct keys -/

/-- A case and a kind of record, by one of the metrics made of it. -/
def metricOfKind (start : Bool) : CleanedMetric := if start then .qps else .successQps

theorem metricOfKind_ofStart (start : Bool) : (metricOfKind start).ofStart = start := by
  cases start with
  | true => rfl
  | false => rfl

/-- **All series in strict order of time** if and only if no key occurs twice. -/
theorem increasing_iff_nodup (hpos : countedRecords (recs.map some) = recs) :
    (∀ s ∈ cleanTracingsToMetrics (recs.map some), s.Increasing) ↔
      (recs.map TracingRecord.key).Nodup := by
  constructor
  · intro h
    refine pairwise_map.mpr (pairwise_iff_forall_sublist.mpr fun hab hkey => ?_)
    rename_i a b
    -- two records of one key are two points of a series of their case
    have ha : a ∈ recs := hab.subset mem_cons_self
    have hseries := h (seriesOf recs a.name (metricOfKind a.startData))
      (mem_cleanTracingsToMetrics.mpr
        ⟨a.name, by rw [hpos]; exact mem_caseNames.mpr ⟨a, ha, rfl⟩, _, by rw [hpos]⟩)
    rw [seriesOf_increasing_iff, recordsFor_nodup_iff, metricOfKind_ofStart] at hseries
    refine pairwise_iff_forall_sublist.mp hseries hab ⟨rfl, rfl⟩ ⟨?_, ?_⟩ ?_
    · exact (congrArg TracingBucketKey.name hkey).symm
    · exact (congrArg TracingBucketKey.startData hkey).symm
    · exact congrArg TracingBucketKey.timestamp hkey
  · intro h s hs
    obtain ⟨name, -, m, rfl⟩ := mem_cleanTracingsToMetrics.mp hs
    rw [hpos, seriesOf_increasing_iff]
    exact recordsFor_nodup h name m

/-- The series of the master are always in strict order. -/
theorem masterMetrics_increasing (records : List (Option TracingRecord)) :
    ∀ s ∈ cleanTracingsToMetrics ((compactOnFloats fl records).map some), s.Increasing :=
  (increasing_iff_nodup (compactOnFloats_counted records)).mpr (compactOnFloats_nodup records)

/-! ## The same series -/

theorem alone_name (r : TracingRecord) : (r.alone fl).name = r.name :=
  congrArg TracingBucketKey.name (alone_key r)

theorem alone_startData (r : TracingRecord) : (r.alone fl).startData = r.startData :=
  congrArg TracingBucketKey.startData (alone_key r)

theorem alone_timestamp (r : TracingRecord) : (r.alone fl).timestamp = r.timestamp :=
  congrArg TracingBucketKey.timestamp (alone_key r)

/-- The points of a series, up to their order. -/
theorem points_perm {recs' : List TracingRecord} (htraced : ∀ r ∈ recs, r.Traced)
    (hexact : ∀ r ∈ recs, r.ExactVariance)
    (h : recs'.Perm (recs.map (TracingRecord.alone fl))) (name : String) (m : CleanedMetric) :
    (seriesOf recs' name m).points.Perm (seriesOf recs name m).points := by
  have hpoint : ∀ l : List TracingRecord,
      ((sortByTime l).map fun r => (⟨r.timestamp, m.value r⟩ : MetricsPoint)).Perm
        (l.map fun r => ⟨r.timestamp, m.value r⟩) := fun l => (sortByTime_perm l).map _
  refine (hpoint _).trans (List.Perm.trans ?_ (hpoint _).symm)
  rw [recordsFor_eq, recordsFor_eq]
  refine ((h.filter _).map _).trans (List.Perm.of_eq ?_)
  rw [filter_map, map_map]
  -- what is kept and what becomes of it is read off the record before
  have hkept : ((fun r : TracingRecord => decide (r.name = name ∧ r.startData = m.ofStart)) ∘
      TracingRecord.alone fl) = fun r => decide (r.name = name ∧ r.startData = m.ofStart) := by
    funext r
    rw [Function.comp_apply, alone_name, alone_startData]
  rw [hkept]
  refine map_congr_left fun r hr => ?_
  rw [mem_filter, decide_eq_true_iff] at hr
  rw [Function.comp_apply, alone_timestamp, value_alone (htraced r hr.1) (hexact r hr.1) hr.2.2]

/-- Points with one strict order are equal. -/
theorem seriesOf_eq {recs' : List TracingRecord} {name : String} {m : CleanedMetric}
    (h : (seriesOf recs' name m).points.Perm (seriesOf recs name m).points)
    (hi : (seriesOf recs name m).Increasing) (hi' : (seriesOf recs' name m).Increasing) :
    seriesOf recs' name m = seriesOf recs name m := by
  have hpoints : (seriesOf recs' name m).points = (seriesOf recs name m).points := by
    -- a strict order has one arrangement of the points only
    refine h.eq_of_pairwise (fun p q _ _ hpq hqp => ?_) hi' hi
    exact absurd (Int.lt_trans hpq hqp) (Int.lt_irrefl _)
  exact congrArg (fun points => (⟨name ++ m.suffix, [("case", name)], points⟩ : MetricsSeries))
    hpoints

/-- **Distinct keys**: cleaning before and after compaction gives the same series. -/
theorem clean_compact_perm {records : List (Option TracingRecord)}
    (htraced : TracedList recs) (hexact : ∀ r ∈ recs, r.ExactVariance)
    (hread : records.Perm (recs.map some)) (hnd : (recs.map TracingRecord.key).Nodup) :
    (cleanTracingsToMetrics (recs.map some)).Perm
      (cleanTracingsToMetrics ((compactOnFloats fl records).map some)) := by
  have hcounted : (countedRecords records).Perm recs := by
    refine (hread.filterMap _).trans (List.Perm.of_eq htraced.counted)
  have hnd' : ((countedRecords records).map TracingRecord.key).Nodup :=
    (hcounted.map _).nodup_iff.mpr hnd
  have hcompact : (compactOnFloats fl records).Perm (recs.map (TracingRecord.alone fl)) :=
    (compactOnFloats_singles hnd').trans (hcounted.map _)
  have hsolo := (increasing_iff_nodup htraced.counted).mpr hnd
  have hmaster : ∀ s ∈ cleanTracingsToMetrics ((compactOnFloats fl records).map some),
      s.Increasing := masterMetrics_increasing records
  -- the names come in another order: compaction sorts, the flushes do not
  have hnames : (caseNames recs).Perm (caseNames (compactOnFloats fl records)) := by
    refine (perm_ext_iff_of_nodup (caseNames_nodup _) (caseNames_nodup _)).mpr fun name => ?_
    rw [mem_caseNames, mem_caseNames]
    have hmem : ∀ r, r ∈ compactOnFloats fl records ↔ ∃ x ∈ recs, x.alone fl = r := fun r => by
      rw [hcompact.mem_iff, mem_map]
    constructor
    · intro h
      obtain ⟨r, hr, hname⟩ := h
      exact ⟨r.alone fl, (hmem _).mpr ⟨r, hr, rfl⟩, (alone_name r).trans hname⟩
    · intro h
      obtain ⟨r, hr, hname⟩ := h
      obtain ⟨x, hx, rfl⟩ := (hmem r).mp hr
      exact ⟨x, hx, (alone_name x).symm.trans hname⟩
  have hseries : ∀ name ∈ caseNames recs, ∀ m,
      seriesOf (compactOnFloats fl records) name m = seriesOf recs name m := by
    intro name hname m
    refine seriesOf_eq (points_perm htraced.each hexact hcompact name m) (hsolo _ ?_) (hmaster _ ?_)
    · exact mem_cleanTracingsToMetrics.mpr ⟨name, by rw [htraced.counted]; exact hname, m,
        by rw [htraced.counted]⟩
    · refine mem_cleanTracingsToMetrics.mpr ⟨name, ?_, m, by rw [compactOnFloats_counted]⟩
      rw [compactOnFloats_counted]
      exact hnames.mem_iff.mp hname
  unfold cleanTracingsToMetrics
  rw [htraced.counted, compactOnFloats_counted]
  refine List.Perm.trans (List.Perm.of_eq ?_) (hnames.flatMap_right _)
  refine flatMap_congr fun name hname => map_congr_left fun m _ => ?_
  exact (hseries name hname m).symm

/-! ## What the tracers report -/

/-- What of a record does not depend on `float64`. -/
def TracingRecord.exact (r : TracingRecord) : TracingRecord := { r with variance := 0 }

/-- The variance is no part of what a tracer guarantees. -/
theorem tracedList_exact : TracedList (recs.map TracingRecord.exact) ↔ TracedList recs := by
  constructor
  · intro h
    refine ⟨fun r hr => ?_, fun r hr => ?_⟩
    · have hr' := h.each r.exact (mem_map_of_mem hr)
      exact ⟨hr'.count, hr'.min, hr'.max, hr'.total, hr'.codes⟩
    · obtain ⟨e, he, hname⟩ := h.ended r.exact (mem_map_of_mem hr)
      obtain ⟨x, hx, rfl⟩ := mem_map.mp he
      exact ⟨x, hx, hname⟩
  · intro h
    refine ⟨forall_mem_map.mpr fun r hr => ?_, forall_mem_map.mpr fun r hr => ?_⟩
    · have hr' := h.each r hr
      exact ⟨hr'.count, hr'.min, hr'.max, hr'.total, hr'.codes⟩
    · obtain ⟨e, he, hname⟩ := h.ended r hr
      exact ⟨e.exact, mem_map_of_mem he, hname⟩

/-- The chunks are those of the flushes, in some order, with whatever variances the tracers have
computed. -/
def Flushed (runs : List TracingAgent) (chunks : List (List TracingRecord)) : Prop :=
  (chunks.map (List.map TracingRecord.exact)).Perm
    ((flushedChunks runs).map (List.map TracingRecord.exact))

theorem Flushed.traced {runs : List TracingAgent} {chunks : List (List TracingRecord)}
    (h : Flushed runs chunks) : TracedList chunks.flatten := by
  refine tracedList_flatten chunks fun c hc => tracedList_exact.mp ?_
  obtain ⟨c', hc', heq⟩ := mem_map.mp (h.mem_iff.mp (mem_map_of_mem hc))
  rw [← heq, tracedList_exact]
  obtain ⟨a, -, hca⟩ := mem_flatMap.mp hc'
  exact tracedList_runOps _ (holding_new a.1) c' hca

/-- **Solo and master derive the same series, all in strict order of time**, if and only if no
case has two records of one kind for one second among the flushes. -/
theorem metrics_agree_iff (fl : Float64) (runs : List TracingAgent)
    (chunks : List (List TracingRecord)) (hchunks : Flushed runs chunks)
    (hexact : ∀ r ∈ chunks.flatten, r.ExactVariance) (client : RedisClient) (reportID : String)
    (hstored : (tracingsRead client reportID).Perm (chunks.flatten.map some))
    (master : List MetricsSeries) (hmaster : masterMetrics fl client reportID = .ok master) :
    (soloMetrics chunks).Perm master ∧ (∀ s ∈ soloMetrics chunks ++ master, s.Increasing) ↔
      (chunks.flatten.map TracingRecord.key).Nodup := by
  have htraced := hchunks.traced
  rw [masterMetrics_eq hmaster]
  unfold soloMetrics
  constructor
  · intro h
    refine (increasing_iff_nodup htraced.counted).mp fun s hs => ?_
    exact h.2 s (mem_append_left _ hs)
  · intro h
    refine ⟨clean_compact_perm htraced hexact hstored h, fun s hs => ?_⟩
    rcases mem_append.mp hs with hs | hs
    · exact (increasing_iff_nodup htraced.counted).mpr h s hs
    · exact masterMetrics_increasing _ s hs

/-! ## One second, one flush or two -/

/-- A server that has these chunks for the report, in one list. -/
def chunkServer (chunks : List (List TracingRecord)) : RedisClient :=
  { get := fun _ => .ok (.reportMeta
      { reportID := "r1", title := "", startTime := 0, endTime := 0, agentIDs := ["solo"]
        createdAt := 0, expiresAt := none, rawDataSize := 0, reportSize := 0 })
    scan := fun pattern =>
      [.ok (if pattern = tracingPattern "r1" then [tracingKey "r1" "solo"] else [], 0)]
    lrange := fun _ => .ok (chunks.map fun c => marshalTracings (c.map some)) }

theorem tracingsRead_chunkServer (chunks : List (List TracingRecord)) :
    tracingsRead (chunkServer chunks) "r1" = chunks.flatten.map some := by
  have hscan : scanKeys ((chunkServer chunks).scan (tracingPattern "r1"))
      = .ok [tracingKey "r1" "solo"] := by
    show Except.ok (if tracingPattern "r1" = tracingPattern "r1" then _ else _) = _
    rw [if_pos rfl]
  unfold tracingsRead
  rw [hscan]
  show [tracingKey "r1" "solo"].flatMap (readChunks (chunkServer chunks) unmarshalTracings) = _
  rw [flatMap_singleton]
  show (chunks.map fun c => marshalTracings (c.map some)).flatMap _ = _
  rw [flatMap_map, map_flatten, flatMap_def]
  refine congrArg List.flatten (map_congr_left fun c _ => ?_)
  rw [unmarshalTracings_marshal]

/-- No rounding at all is one that satisfies what is asked. -/
def unrounded : Float64 := ⟨id, fun _ _ => rfl⟩

/-- Two cases and two seconds, with a flush between the seconds. -/
def wholeSeconds : List TracingAgent :=
  [(1, [.add sampleRequest (.zero, .zero), .add { sampleRequest with durMs := 9 } (.zero, .zero),
      .add { sampleRequest with name := "logout" } (.zero, .zero), .flush,
      .add { sampleRequest with startSec := 20, endSec := 20 } (.zero, .zero)])]

/-- Solo and master agree on them. -/
theorem whole_seconds_agree :
    ∃ master, masterMetrics unrounded (chunkServer (flushedChunks wholeSeconds)) "r1" = .ok master ∧
      (soloMetrics (flushedChunks wholeSeconds)).Perm master ∧
      ∀ s ∈ soloMetrics (flushedChunks wholeSeconds) ++ master, s.Increasing := by
  refine ⟨_, rfl, (metrics_agree_iff unrounded wholeSeconds _ (.refl _) ?_ (chunkServer
    (flushedChunks wholeSeconds)) "r1" (List.Perm.of_eq (tracingsRead_chunkServer _)) _ rfl).mpr ?_⟩
  · decide +kernel
  · decide +kernel

/-- Two requests of one second, with a flush between them. -/
def cutSecond : List TracingAgent :=
  [(1, [.add sampleRequest (.zero, .zero), .flush, .add sampleRequest (.zero, .zero)])]

/-- Solo has two points for the one second where the master has one. -/
theorem cut_second_disagrees :
    ∃ master, masterMetrics unrounded (chunkServer (flushedChunks cutSecond)) "r1" = .ok master ∧
      ¬ (soloMetrics (flushedChunks cutSecond)).Perm master ∧
      ¬ ∀ s ∈ soloMetrics (flushedChunks cutSecond), s.Increasing := by
  refine ⟨_, rfl, fun hperm => ?_, fun h => ?_⟩
  · -- the series of solo have twice as many points
    have hpoints := (hperm.map fun s => s.points.length).sum_eq
    revert hpoints
    decide +kernel
  · have hnd := (increasing_iff_nodup (tracedList_chunks (.refl _)).counted).mp h
    revert hnd
    decide +kernel

example : (soloMetrics (flushedChunks cutSecond)).head?.map
    (fun s => (s.name, s.points.map fun p => (p.timestamp, p.value)))
      = some ("login_qps", [(10, 1), (10, 1)]) := by
  decide +kernel

end Robot.Report
