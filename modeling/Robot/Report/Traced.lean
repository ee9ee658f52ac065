import Robot.Report.Aggregate

/-!
# What every record of a tracer satisfies

`Aggregate` says which requests a record stands for, and needs durations that are not negative
for it. The consumers of the records rely on less: a count is positive, the codes of an end
record add up to its count, minimum and maximum are not negative, the total is an `int64`, and
a case that started something has ended something. None of this depends on what was measured:
`Traced` is established by `record`, kept by `CompactTracingsBySecond`, and needs no hypothesis
on the requests.
-/

namespace Robot.Report

open Robot.Lib List

/-- What holds of a record that came out of a tracer. -/
structure TracingRecord.Traced (r : TracingRecord) : Prop where
  count : 0 < r.count
  min : 0 ≤ r.minDurationMs
  max : 0 ≤ r.maxDurationMs
  total : i64 r.totalDurationMs = r.totalDurationMs
  codes : r.startData = false → r.code.total = r.count

/-- Records as a tracer returns them: each is `Traced`, and no case has only starts. -/
structure TracedList (recs : List TracingRecord) : Prop where
  each : ∀ r ∈ recs, r.Traced
  ended : ∀ r ∈ recs, ∃ e ∈ recs, e.name = r.name ∧ e.startData = false

/-! ## Lists of records -/

theorem tracedList_nil : TracedList [] := ⟨nofun, nofun⟩

theorem TracedList.append {l₁ l₂ : List TracingRecord} (h₁ : TracedList l₁) (h₂ : TracedList l₂) :
    TracedList (l₁ ++ l₂) where
  each := by
    intro r hr
    rcases mem_append.mp hr with hr | hr
    · exact h₁.each r hr
    · exact h₂.each r hr
  ended := by
    intro r hr
    rcases mem_append.mp hr with hr | hr
    · obtain ⟨e, he, hname⟩ := h₁.ended r hr
      exact ⟨e, mem_append_left _ he, hname⟩
    · obtain ⟨e, he, hname⟩ := h₂.ended r hr
      exact ⟨e, mem_append_right _ he, hname⟩

theorem tracedList_flatten : ∀ chunks : List (List TracingRecord),
    (∀ c ∈ chunks, TracedList c) → TracedList chunks.flatten := by
  intro chunks
  induction chunks with
  | nil => intro _; exact tracedList_nil
  | cons c chunks ih =>
    intro h
    rw [flatten_cons]
    exact (h c mem_cons_self).append (ih fun c' hc' => h c' (mem_cons_of_mem _ hc'))

variable {recs : List TracingRecord} {k : TracingBucketKey}

/-- Records with a count are not skipped. -/
theorem countedRecords_of_pos (h : ∀ r ∈ recs, 0 < r.count) :
    countedRecords (recs.map some) = recs := by
  unfold countedRecords
  rw [filterMap_map]
  refine (filterMap_congr fun r hr => ?_).trans filterMap_some
  have hpos := h r hr
  show (if r.count ≤ 0 then none else some r) = some r
  rw [if_neg (by omega)]

theorem TracedList.counted (h : TracedList recs) :
    countedRecords (recs.map some) = recs :=
  countedRecords_of_pos fun r hr => (h.each r hr).count

/-! ## Out of the tracer -/

/-- The bucket of an end or start key, in terms a record keeps. -/
structure TracingBucket.Sound (start : Bool) (b : TracingBucket) : Prop where
  max : 0 ≤ b.maxMs
  total : i64 b.totalMs = b.totalMs
  codes : start = false → b.codeCounts.total = b.count

theorem TracingBucket.sound_zero (start : Bool) : TracingBucket.zero.Sound start :=
  ⟨Int.le_refl _, rfl, fun _ => rfl⟩

theorem TracingBucket.Sound.update {start : Bool} {b : TracingBucket} (h : b.Sound start)
    (r : Request) : (TracingBucket.update start r b).Sound start := by
  cases start with
  | true => exact ⟨h.max, h.total, nofun⟩
  | false =>
    -- every update counts one request and one code
    refine ⟨?_, i64_i64 _, fun _ => ?_⟩
    · have hmax := h.max
      show 0 ≤ if r.durMs > b.maxMs then r.durMs else b.maxMs
      split
      · omega
      · exact hmax
    · show (b.codeCounts.add r.code 1).total = b.count + 1
      rw [Tally.total_add, h.codes rfl]

theorem TracingBucket.sound_ofRequests (start : Bool) (g : List Request) :
    (TracingBucket.ofRequests start g).Sound start := by
  have hrun : ∀ (g : List Request) (b : TracingBucket), b.Sound start →
      (g.foldl (fun b r => TracingBucket.update start r b) b).Sound start := by
    intro g
    induction g with
    | nil => intro b h; exact h
    | cons r g ih => intro b h; exact ih _ (h.update r)
  exact hrun g .zero (TracingBucket.sound_zero start)

theorem TracingBucket.record_key (k : TracingBucketKey) (b : TracingBucket) :
    (b.record k).key = k := by
  unfold TracingBucket.record
  split
  · rfl
  · rfl

theorem TracingBucket.record_name (k : TracingBucketKey) (b : TracingBucket) :
    (b.record k).name = k.name := congrArg TracingBucketKey.name (TracingBucket.record_key k b)

theorem TracingBucket.record_startData (k : TracingBucketKey) (b : TracingBucket) :
    (b.record k).startData = k.startData :=
  congrArg TracingBucketKey.startData (TracingBucket.record_key k b)

theorem TracingBucket.Sound.traced {b : TracingBucket}
    (h : b.Sound k.startData) (hpos : 0 < b.count) : (b.record k).Traced := by
  obtain ⟨name, timestamp, start⟩ := k
  cases start with
  | true => exact ⟨hpos, Int.le_refl _, Int.le_refl _, rfl, nofun⟩
  | false =>
    refine ⟨hpos, ?_, h.max, h.total, fun _ => h.codes rfl⟩
    show 0 ≤ if b.minMs ≥ 0 then b.minMs else 0
    split
    next hmin => exact hmin
    next => exact Int.le_refl _

/-- **A snapshot** is as a tracer returns it: the end bucket of a request is in the same bank as
its start bucket. -/
theorem tracedList_snapshot (q : List Request) :
    TracedList (TracingBank.snapshot (bankOf q)) := by
  rw [snapshot_bankOf]
  constructor
  · intro r hr
    obtain ⟨k, hk, rfl⟩ := mem_map.mp hr
    have hlen := length_pos_iff.mpr (mem_bankOf_order.mp hk)
    refine (TracingBucket.sound_ofRequests k.startData (ofKey q k)).traced ?_
    rw [TracingBucket.ofRequests_count]
    omega
  · intro r hr
    obtain ⟨k, hk, rfl⟩ := mem_map.mp hr
    -- a request of the key has an end key in the same bank
    obtain ⟨x, hx⟩ := exists_mem_of_ne_nil _ (mem_bankOf_order.mp hk)
    obtain ⟨hxq, hxk⟩ := mem_ofKey.mp hx
    have hend : x.endKey ∈ (bankOf q).order :=
      mem_bankOf_order.mpr (ne_nil_of_mem (mem_ofKey.mpr ⟨hxq, rfl⟩))
    refine ⟨_, mem_map.mpr ⟨x.endKey, hend, rfl⟩, ?_⟩
    have hname : x.name = k.name := by
      rw [← hxk]
      unfold Request.keyOf
      split
      · rfl
      · rfl
    rw [TracingBucket.record_name, TracingBucket.record_name, TracingBucket.record_startData]
    exact ⟨hname, rfl⟩

/-- The chunks of a tracer. -/
theorem tracedList_runOps : ∀ (ops : List TraceOp) {t : MemoryTracer} {q : List Request},
    t.Holding q → ∀ c ∈ t.runOps ops, TracedList c := by
  intro ops
  induction ops with
  | nil => intro t q _ c hc; exact absurd hc not_mem_nil
  | cons op ops ih =>
    intro t q h c hc
    cases op with
    | add r pooled => exact ih (h.addRecord r pooled) c hc
    | flush =>
      rcases mem_cons.mp hc with hc | hc
      · subst hc
        rw [h.flush_records]
        refine tracedList_flatten _ fun c hc => ?_
        obtain ⟨j, -, rfl⟩ := mem_map.mp hc
        exact tracedList_snapshot _
      · exact ih t.flush_holding c hc

/-- **All chunks of all tracers**, in any order. -/
theorem tracedList_chunks {agents : List TracingAgent} {chunks : List (List TracingRecord)}
    (h : chunks.Perm (flushedChunks agents)) : TracedList chunks.flatten := by
  refine tracedList_flatten chunks fun c hc => ?_
  obtain ⟨a, -, hca⟩ := mem_flatMap.mp (h.mem_iff.mp hc)
  exact tracedList_runOps _ (holding_new a.1) c hca

/-! ## Through compaction -/

/-- The accumulator of a kind, in the same terms. -/
structure CompactAcc.Sound (start : Bool) (a : CompactAcc) : Prop where
  max : 0 ≤ a.maxMs
  total : i64 a.totalMs = a.totalMs
  codes : start = false → a.codes.total = a.count

theorem CompactAcc.sound_zero (start : Bool) : CompactAcc.zero.Sound start :=
  ⟨Int.le_refl _, rfl, fun _ => rfl⟩

theorem CompactAcc.Sound.merge {a : CompactAcc} {r : TracingRecord} (h : a.Sound r.startData)
    (hr : r.Traced) : (a.merge r).Sound r.startData := by
  have hcodes : r.startData = false → (a.codes.merge r.code).total = a.count + r.count := by
    intro hs
    rw [Tally.total_merge, h.codes hs, hr.codes hs]
  unfold CompactAcc.merge
  split
  · refine ⟨?_, i64_i64 _, hcodes⟩
    show 0 ≤ if r.maxDurationMs > a.maxMs then r.maxDurationMs else a.maxMs
    split
    · exact hr.max
    · exact h.max
  · exact ⟨h.max, h.total, hcodes⟩

theorem CompactAcc.Sound.mergeAll {start : Bool} : ∀ (l : List TracingRecord) {a : CompactAcc},
    a.Sound start → (∀ r ∈ l, r.Traced ∧ r.startData = start) →
    (l.foldl (fun a r => CompactAcc.merge r a) a).Sound start := by
  intro l
  induction l with
  | nil => intro a h _; exact h
  | cons r l ih =>
    intro a h hl
    obtain ⟨hr, hs⟩ := hl r mem_cons_self
    subst hs
    exact ih (h.merge hr) fun r' hr' => hl r' (mem_cons_of_mem _ hr')

theorem CompactAcc.Sound.traced {a : CompactAcc}
    (h : a.Sound k.startData) (hpos : 0 < a.count) : (a.record k).Traced := by
  unfold CompactAcc.record
  split
  · refine ⟨hpos, ?_, h.max, h.total, h.codes⟩
    show 0 ≤ if a.minMs ≥ 0 then a.minMs else 0
    split
    next hmin => exact hmin
    next => exact Int.le_refl _
  · exact ⟨hpos, Int.le_refl _, Int.le_refl _, rfl, h.codes⟩

/-- **Each key once**: the keys of the result are those of the groups. -/
theorem compact_keys_perm (records : List (Option TracingRecord)) :
    ((compactTracingsBySecond records).map TracingRecord.key).Perm (compactGroups records).order := by
  refine ((compactTracings_perm records).map TracingRecord.key).trans (List.Perm.of_eq ?_)
  rw [map_map]
  refine (map_congr_left fun k _ => ?_).trans (map_id _)
  exact CompactAcc.record_key _ k

theorem compact_nodup (records : List (Option TracingRecord)) :
    ((compactTracingsBySecond records).map TracingRecord.key).Nodup :=
  (compact_keys_perm records).nodup_iff.mpr (compactGroups records).nodup

/-- A compacted record has a count. -/
theorem countedRecords_compact (records : List (Option TracingRecord)) :
    countedRecords ((compactTracingsBySecond records).map some)
      = compactTracingsBySecond records := by
  refine countedRecords_of_pos fun r hr => ?_
  obtain ⟨k, hk, rfl⟩ := mem_map.mp ((compactTracings_perm _).mem_iff.mp hr)
  obtain ⟨a, ha, hpos⟩ := compactGroups_pos hk
  rw [ha, CompactAcc.record_count]
  exact hpos

/-- The keys of the result are the keys that were counted. -/
theorem mem_compact_keys {records : List (Option TracingRecord)} :
    (∃ r ∈ compactTracingsBySecond records, r.key = k) ↔
      ∃ r ∈ countedRecords records, r.key = k := by
  rw [← mem_map, (compact_keys_perm records).mem_iff]
  exact Grouped.groupAll_mem ..

/-- **Compaction keeps it.** -/
theorem tracedList_compact (h : TracedList recs) :
    TracedList (compactTracingsBySecond (recs.map some)) where
  each := by
    intro r hr
    obtain ⟨k, hk, rfl⟩ := mem_map.mp ((compactTracings_perm _).mem_iff.mp hr)
    obtain ⟨a, ha, hpos⟩ := compactGroups_pos hk
    rw [ha]
    refine CompactAcc.Sound.traced ?_ hpos
    -- the accumulator is the fold over the records of its key
    obtain ⟨x, hx, hxk⟩ := (Grouped.groupAll_mem ..).mp hk
    have hmem : x ∈ (countedRecords (recs.map some)).filter fun r => r.key = k :=
      mem_filter.mpr ⟨hx, by simpa using hxk⟩
    have hfold := Grouped.groupAll_bucket TracingRecord.key CompactAcc.zero CompactAcc.merge
      (countedRecords (recs.map some)) k (ne_nil_of_mem hmem)
    have hacc := Option.some.inj (ha.symm.trans hfold)
    rw [hacc]
    refine (CompactAcc.sound_zero _).mergeAll _ fun y hy => ?_
    rw [h.counted, mem_filter, decide_eq_true_iff] at hy
    exact ⟨h.each y hy.1, congrArg TracingBucketKey.startData hy.2⟩
  ended := by
    intro r hr
    obtain ⟨x, hx, hxk⟩ := mem_compact_keys.mp ⟨r, hr, rfl⟩
    rw [h.counted] at hx
    obtain ⟨e, he, hname, hend⟩ := h.ended x hx
    obtain ⟨c, hc, hck⟩ := mem_compact_keys.mpr ⟨e, by rw [h.counted]; exact he, rfl⟩
    refine ⟨c, hc, ?_, ?_⟩
    · exact (congrArg TracingBucketKey.name hck).trans
        (hname.trans (congrArg TracingBucketKey.name hxk))
    · exact (congrArg TracingBucketKey.startData hck).trans hend

end Robot.Report
