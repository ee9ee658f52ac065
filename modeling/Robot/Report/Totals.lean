import Robot.Report.ChartFigures
import Robot.Report.FlushRace

/-!
# The totals of a report agree

`processTracings` adds up the requests four times: the starts of all cases, the starts of each case
and of each second, and the results of the end records. A request counts where it starts in one
record and where it ends in another, so the sums agree only if the records have both.

They do: a bank is locked while a request is added to it, so a bank always holds the starts and the
ends of the same requests, wherever `Flush` is (`Sound`). That survives concatenation and compaction
(`Gathered.sound`), and from there on it is summing a list by its names and its seconds.
-/

namespace Robot.Report

open Robot.Lib Function List

/-- What so many starts or ends add to the starts without an end. -/
def unmatched (start : Bool) (count : Int) : Int := if start then count else -count

theorem unmatched_add (start : Bool) (a b : Int) :
    unmatched start (a + b) = unmatched start a + unmatched start b := by
  cases start with
  | false => exact Int.neg_add
  | true => rfl

theorem unmatched_zero (start : Bool) : unmatched start 0 = 0 := by cases start <;> rfl

/-- As many requests start as end. -/
def Balanced (recs : List TracingRecord) : Prop :=
  (recs.map fun r => unmatched r.startData r.count).sum = 0

/-- Records in which every total is right. -/
structure Sound (recs : List TracingRecord) : Prop where
  traced : TracedList recs
  balanced : Balanced recs

theorem Sound.append {l l' : List TracingRecord} (h : Sound l) (h' : Sound l') : Sound (l ++ l') := by
  refine ⟨h.traced.append h'.traced, ?_⟩
  unfold Balanced
  rw [map_append, sum_append, h.balanced, h'.balanced]
  rfl

theorem sound_nil : Sound [] := ⟨tracedList_nil, rfl⟩

/-- `snapshot` drops only empty buckets. -/
theorem unmatched_snapshot (bank : TracingBank) :
    ((TracingBank.snapshot bank).map fun r => unmatched r.startData r.count).sum
      = bank.weigh fun k b => unmatched k.startData b.count := by
  unfold TracingBank.snapshot Grouped.weigh
  induction bank.order with
  | nil => rfl
  | cons key order ih =>
    rw [map_cons, sum_cons, ← ih]
    cases hb : bank.buckets key with
    | none => simp [hb]
    | some bk =>
      by_cases h0 : bk.count = 0
      · simp [hb, h0, unmatched_zero]
      · rw [filterMap_cons_some (b := bk.record key) (by simp [hb, h0]), map_cons,
          sum_cons, TracingBucket.record_startData]
        have hcount : (bk.record key).count = bk.count := by
          unfold TracingBucket.record
          split <;> rfl
        rw [hcount]
        rfl

/-- A bank has both ends of each request. -/
theorem sound_snapshot (q : List Request) : Sound (TracingBank.snapshot (bankOf q)) := by
  refine ⟨tracedList_snapshot q, ?_⟩
  unfold Balanced
  rw [unmatched_snapshot]
  induction q using List.reverseRecOn with
  | nil => rfl
  | append_singleton q r ih =>
    rw [← addRecord_bankOf q r (.zero, .zero)]
    unfold TracingBank.addRecord
    rw [Grouped.weigh_upsert _ _ _ _ _ (by simp [unmatched_zero, TracingBucket.reset]),
      Grouped.weigh_upsert _ _ _ _ _ (by simp [unmatched_zero, TracingBucket.reset]), ih]
    simp [unmatched, Request.startKey, Request.endKey, TracingBucket.updateEnd,
      TracingBucket.updateStart]

/-! ## Every flush -/

/-- The banks hold requests, and what was taken out of them is sound. -/
structure FlushState.Whole (st : FlushState) : Prop where
  banks : ∀ j b, ∃ q, (st.tracer.shards j).banks b = bankOf q
  collected : Sound st.collected
  returned : ∀ c ∈ st.returned, Sound c

/-- A shard changes one bank, to one that holds requests. -/
theorem FlushState.Whole.set {t : MemoryTracer} {s : TracerShard} {b : Fin 2} {q : List Request}
    (h : ∀ j b, ∃ q, (t.shards j).banks b = bankOf q) {j : Nat}
    (hs : s.banks = update (t.shards j).banks b (bankOf q)) :
    ∀ i b, ∃ q, ((t.setShard j s).shards i).banks b = bankOf q := by
  intro i b'
  show ∃ q, (update t.shards j s i).banks b' = bankOf q
  by_cases hi : i = j
  · subst hi
    rw [update_self, hs]
    by_cases hb : b' = b
    · subst hb
      exact ⟨q, update_self ..⟩
    · rw [update_of_ne hb]
      exact h i b'
  · rw [update_of_ne hi]
    exact h i b'

theorem FlushState.Whole.flushStep {st : FlushState} (h : st.Whole) : (flushStep st).Whole := by
  have hclear : ∀ j i b, ∃ q,
      ((st.tracer.setShard j (st.tracer.shards j).clearIdle).shards i).banks b = bankOf q :=
    fun j => FlushState.Whole.set (q := []) h.banks rfl
  have hharvest : ∀ j, Sound (st.collected ++ (st.tracer.shards j).harvested) := by
    intro j
    obtain ⟨q, hq⟩ := h.banks j (st.tracer.shards j).idle
    refine h.collected.append ?_
    unfold TracerShard.harvested
    rw [hq]
    exact sound_snapshot q
  unfold Robot.Report.flushStep
  split
  next => exact ⟨h.banks, sound_nil, h.returned⟩
  next j _ => exact ⟨hclear j, h.collected, h.returned⟩
  next j _ =>
    obtain ⟨q, hq⟩ := h.banks j 0
    refine ⟨FlushState.Whole.set (b := 0) (q := q) h.banks ?_, h.collected, h.returned⟩
    rw [← hq, update_eq_self]
    rfl
  next j _ =>
    dsimp only
    split
    next => exact ⟨hclear j, hharvest j, h.returned⟩
    next =>
      refine ⟨hclear j, sound_nil, fun c hc => ?_⟩
      rcases mem_append.mp hc with hc | hc
      · exact h.returned c hc
      · rw [mem_singleton.mp hc]
        exact hharvest j

theorem FlushState.Whole.step {st st' : FlushState} {a : FlushAct} (h : st.Whole)
    (hstep : raceStep st a = some st') : st'.Whole := by
  cases a with
  | load r =>
    obtain rfl := Option.some.inj hstep
    exact ⟨h.banks, h.collected, h.returned⟩
  | aggregate i pooled =>
    simp only [raceStep] at hstep
    split at hstep
    next => cases hstep
    next r b _ =>
      obtain rfl := Option.some.inj hstep
      obtain ⟨q, hq⟩ := h.banks (st.tracer.pickShard r.name) b
      refine ⟨FlushState.Whole.set (b := b) (q := q ++ [r]) h.banks ?_, h.collected, h.returned⟩
      show update _ b _ = _
      rw [hq, addRecord_bankOf]
  | flush =>
    obtain rfl := Option.some.inj hstep
    exact h.flushStep

/-- **Concatenations of flushes, compacted or not**: what any `Flush` returns in any interleaving
with any calls of `addRecord`, what is put together of such, and what is compacted of such. -/
inductive Gathered : List TracingRecord → Prop
  | flush {n : Int64} {acts : List FlushAct} {st : FlushState} {chunk : List TracingRecord}
      (hrun : run raceStep (raceInit (newMemoryTracerWithShards n)) acts = some st)
      (hchunk : chunk ∈ st.returned) : Gathered chunk
  | nil : Gathered []
  | append {l l' : List TracingRecord} : Gathered l → Gathered l' → Gathered (l ++ l')
  | compact {l : List TracingRecord} : Gathered l → Gathered (compactTracingsBySecond (l.map some))

/-- Compaction adds counts up. -/
theorem Sound.compact {recs : List TracingRecord} (h : Sound recs) :
    Sound (compactTracingsBySecond (recs.map some)) := by
  refine ⟨tracedList_compact h.traced, ?_⟩
  have hweigh : (compactGroups (recs.map some)).weigh (fun k a => unmatched k.startData a.count)
      = 0 := by
    have hadds : ∀ (r : TracingRecord) (a : CompactAcc),
        unmatched r.key.startData (a.merge r).count
          = unmatched r.key.startData a.count + unmatched r.startData r.count := by
      intro r a
      rw [CompactAcc.merge_count]
      exact unmatched_add _ _ _
    unfold compactGroups
    rw [Grouped.weigh_groupAll TracingRecord.key CompactAcc.zero CompactAcc.merge
      (fun k a => unmatched k.startData a.count) (fun r => unmatched r.startData r.count)
      (fun _ => unmatched_zero _) hadds, h.traced.counted, h.balanced]
    rfl
  unfold Balanced
  rw [((compactTracings_perm _).map _).sum_eq, map_map, ← hweigh]
  refine congrArg List.sum (map_congr_left fun k hk => ?_)
  obtain ⟨a, ha, -⟩ := compactGroups_pos hk
  have hstart : (a.record k).startData = k.startData :=
    congrArg TracingBucketKey.startData (CompactAcc.record_key a k)
  simp only [comp_apply, ha, Option.getD_some, CompactAcc.record_count, Option.map_some,
    hstart]

theorem Gathered.sound {recs : List TracingRecord} (h : Gathered recs) : Sound recs := by
  induction h with
  | @flush n _ _ _ hrun hchunk =>
    have hinit : (raceInit (newMemoryTracerWithShards n)).Whole :=
      ⟨fun _ _ => ⟨[], rfl⟩, sound_nil, nofun⟩
    exact (run_inv_all (fun _ _ _ => FlushState.Whole.step) _ hinit hrun).returned _ hchunk
  | nil => exact sound_nil
  | append _ _ h h' => exact h.append h'
  | compact _ h => exact h.compact

/-! ## The sums -/

section Sums

variable {recs : List TracingRecord}

/-- The starts of all cases, or of those that have a row: both are all starts. -/
theorem sum_starts {names : List String} (hnd : names.Nodup)
    (hnames : ∀ r ∈ recs, r.startData = true → r.name ∈ names) :
    (names.map fun name => caseSum recs name .qps).sum
      = ((recs.filter fun r => r.startData = true).map TracingRecord.count).sum := by
  rw [← sum_groups_cover TracingRecord.name TracingRecord.count _ hnd fun r hr => by
    rw [mem_filter, decide_eq_true_iff] at hr
    exact hnames r hr.1 hr.2]
  refine congrArg List.sum (map_congr_left fun name _ => ?_)
  exact congrArg (fun l => (List.map TracingRecord.count l).sum) (recordsByName_getD _ _)

/-- **The chart adds up to the row**: each second of a case is on the time axis, once. -/
theorem sum_values (h : TracedList recs) (format : Int → String) (name : String) (line : ChartLine) :
    (line.values ((groupTracings (recs.map some)).chartSeries format name)).sum
      = line.total ((groupTracings (recs.map some)).caseStat name) := by
  have hfield : line.values ((groupTracings (recs.map some)).chartSeries format name)
      = (groupTracings (recs.map some)).secs.map
          ((groupTracings (recs.map some)).bucketField name line.bucket) := by
    cases line <;> rfl
  have hnd : (groupTracings (recs.map some)).secs.Nodup :=
    (perm_insertionSort _ _).nodup_iff.mpr (nodup_dedup _)
  rw [hfield, caseStat_total h, map_congr_left fun sec _ => bucketField_eq h name line sec]
  exact sum_groups_cover TracingRecord.timestamp line.tally _ hnd fun r hr => mem_secs h hr

theorem endRecords_eq (recs : List TracingRecord) :
    endRecords (recs.map some) = recs.filter fun r => r.startData = false := by
  unfold endRecords
  rw [filterMap_map, ← filterMap_eq_filter]
  refine filterMap_congr fun r _ => ?_
  cases hs : r.startData <;> simp [hs, Option.guard]

theorem endCount_eq (recs : List TracingRecord) :
    endCount recs = ((recs.filter fun r => r.startData = false).map TracingRecord.count).sum := by
  unfold endCount
  induction recs with
  | nil => rfl
  | cons r recs ih => cases hs : r.startData <;> simp [hs, ih]

theorem Balanced.starts_eq (h : Balanced recs) :
    ((recs.filter fun r => r.startData = true).map TracingRecord.count).sum = endCount recs := by
  have hsplit : (recs.map fun r => unmatched r.startData r.count).sum
      = ((recs.filter fun r => r.startData = true).map TracingRecord.count).sum
        - endCount recs := by
    unfold endCount
    clear h
    induction recs with
    | nil => rfl
    | cons r recs ih =>
      rw [map_cons, sum_cons, ih, map_cons, sum_cons]
      cases hs : r.startData with
      | false => simp [hs, unmatched]; omega
      | true => simp [hs, unmatched]; omega
  rw [h] at hsplit
  omega

/-- The results of the end records are their counts. -/
theorem sum_results (h : TracedList recs) :
    ((endRecords (recs.map some)).map successCount).sum
      + ((endRecords (recs.map some)).map failedCount).sum = endCount recs := by
  rw [endRecords_eq, ← sum_map_add, endCount_eq]
  refine congrArg List.sum (map_congr_left fun r hr => ?_)
  rw [mem_filter, decide_eq_true_iff] at hr
  rw [successCount_eq, failedCount_eq (h.each r hr.1) hr.2]
  exact add_sub_cancel ..

/-- The three totals of the page, also where there is nothing to show. -/
theorem processTracings_totals (format : Int → String) (h : TracedList recs) :
    (processTracings format .new (recs.map some)).totalReqs
        = ((recs.filter fun r => r.startData = true).map TracingRecord.count).sum ∧
      (processTracings format .new (recs.map some)).successReqs
        + (processTracings format .new (recs.map some)).failedReqs = endCount recs := by
  unfold processTracings
  dsimp only
  split
  next hnil =>
    -- without a row there is no record at all
    have hempty : recs = [] := by
      refine eq_nil_iff_forall_not_mem.mpr fun r hr => ?_
      have hrow := (mem_caseOrder h).mpr (mem_caseNames.mpr ⟨r, hr, rfl⟩)
      rw [length_eq_zero_iff.mp hnil] at hrow
      exact absurd hrow not_mem_nil
    subst hempty
    exact ⟨rfl, rfl⟩
  next =>
    refine ⟨?_, ?_⟩
    · rw [← sum_starts (groupTracings (recs.map some)).caseStartBuckets.nodup fun r hr hs => ?_]
      · exact congrArg List.sum (map_congr_left fun name _ => caseStat_total h name .qps)
      · unfold groupTracings
        rw [h.counted]
        exact (Grouped.groupAll_mem ..).mpr ⟨r, mem_filter.mpr ⟨hr, decide_eq_true hs⟩, rfl⟩
    · show 0 + _ + (0 + _) = _
      rw [Int.zero_add, Int.zero_add]
      exact sum_results h

/-- The time axis is in order. -/
theorem secs_sorted (g : CaseGroups) : g.secs.Pairwise (· < ·) := by
  have hnd : g.secs.Nodup := (perm_insertionSort _ _).nodup_iff.mpr (nodup_dedup _)
  exact ((pairwise_insertionSort _ _).and hnd).imp fun h => lt_of_le_of_ne h.1 h.2

end Sums

/-- **The totals of a page agree** with each other and with the records it was made of. -/
structure TotalsAgree (format : Int → String) (recs : List TracingRecord) (td : TemplateData) :
    Prop where
  rows : td.totalReqs = (td.caseStats.map CaseStat.total).sum
  qps : td.totalReqs = (td.chart.series.map fun sd => sd.qps.sum).sum
  results : td.successReqs + td.failedReqs = endCount recs
  requests : endCount recs = td.totalReqs
  cases : List.Forall₂ (fun cs sd => cs.name = sd.name ∧ cs.success = sd.success.sum ∧
    cs.failed = sd.failed.sum) td.caseStats td.chart.series
  lengths : ∀ sd ∈ td.chart.series, sd.qps.length = td.chart.timeLabels.length ∧
    sd.success.length = td.chart.timeLabels.length ∧ sd.failed.length = td.chart.timeLabels.length ∧
    sd.avgMs.length = td.chart.timeLabels.length ∧ sd.varianceMs.length = td.chart.timeLabels.length
  labels : ∃ secs : List Int, secs.Pairwise (· < ·) ∧ td.chart.timeLabels = secs.map format

/-- **Report totals are mutually consistent**, for all records that came out of tracers. -/
theorem totals_agree (format : Int → String) {recs : List TracingRecord} (h : Gathered recs) :
    TotalsAgree format recs (processTracings format .new (recs.map some)) := by
  obtain ⟨htraced, hbalanced⟩ := h.sound
  obtain ⟨hstats, hlabels, hseries⟩ := processTracings_fills format (recs.map some)
  obtain ⟨htotal, hresults⟩ := processTracings_totals format htraced
  have hrows : ((groupTracings (recs.map some)).caseOrder.map fun name =>
      ((groupTracings (recs.map some)).caseStat name).total).sum
        = ((recs.filter fun r => r.startData = true).map TracingRecord.count).sum := by
    rw [← sum_starts (groupTracings (recs.map some)).caseRecords.nodup fun r hr _ =>
      (mem_caseOrder htraced).mpr (mem_caseNames.mpr ⟨r, hr, rfl⟩)]
    exact congrArg List.sum (map_congr_left fun name _ => caseStat_total htraced name .qps)
  refine ⟨?_, ?_, hresults, ?_, ?_, ?_, ?_⟩
  · rw [htotal, hstats, map_map]
    exact hrows.symm
  · rw [htotal, hseries, map_map, ← hrows]
    exact congrArg List.sum (map_congr_left fun name _ => (sum_values htraced format name .qps).symm)
  · rw [htotal, hbalanced.starts_eq]
  · rw [hstats, hseries, List.forall₂_map_left_iff, List.forall₂_map_right_iff]
    exact List.forall₂_same.mpr fun name _ => ⟨rfl, (sum_values htraced format name .success).symm,
      (sum_values htraced format name .failed).symm⟩
  · intro sd hsd
    rw [hseries] at hsd
    obtain ⟨name, -, rfl⟩ := mem_map.mp hsd
    rw [hlabels]
    simp [CaseGroups.chartSeries]
  · exact ⟨_, secs_sorted _, hlabels⟩

/-- Two requests of a case in different seconds and one of another case, then a flush. -/
def threeRequests : List FlushAct :=
  [.load sampleRequest, .load { sampleRequest with name := "logout" },
    .load { sampleRequest with startSec := 11, endSec := 11, code := -1 },
    .aggregate 1 (.zero, .zero), .aggregate 0 (.zero, .zero), .aggregate 0 (.zero, .zero),
    .flush, .flush, .flush, .flush]

/-- Flushed and compacted, they agree. -/
theorem flushed_requests_agree : ∃ chunk : List TracingRecord,
    endCount (compactTracingsBySecond (chunk.map some)) = 3 ∧
      TotalsAgree toString (compactTracingsBySecond (chunk.map some))
        (processTracings toString .new ((compactTracingsBySecond (chunk.map some)).map some)) := by
  have hend : (run raceStep (raceInit (newMemoryTracerWithShards 1)) threeRequests).map (fun st =>
      st.returned.map fun chunk => endCount (compactTracingsBySecond (chunk.map some)))
        = some [3] := by decide +kernel
  obtain ⟨st, hrun, hreturned⟩ := Option.map_eq_some_iff.mp hend
  obtain ⟨chunk, hchunk, hcount⟩ := map_eq_singleton_iff.mp hreturned
  have hgathered : Gathered chunk := .flush hrun (by rw [hchunk]; exact mem_singleton_self chunk)
  exact ⟨chunk, hcount, totals_agree _ hgathered.compact⟩

end Robot.Report
