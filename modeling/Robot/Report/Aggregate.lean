import Robot.Report.Summary
import Robot.Report.FlushRace

/-!
# Aggregation loses and duplicates nothing

The way of a request through the tracer: into two buckets of a bank (`bankOf`), out as
records at the next `Flush` (`Holding`), and through `CompactTracingsBySecond`. Each stage
turns requests into records that `Account` for them; `compacted` then says what a list of
records that accounts for some requests is compacted to, whatever way they came.
-/

namespace Robot.Report

open Robot.Lib Function

/-! ## One bucket -/

/-- The bucket describes this group. A start bucket only counts. -/
structure TracingBucket.Holds (b : TracingBucket) (start : Bool) (g : List Request) : Prop where
  count : b.count = g.length
  stats : start = false → Tracks g b.totalMs b.minMs b.maxMs b.codeCounts b.errorCounts

/-- What `addRecord` does to the bucket of a key of this kind. -/
def TracingBucket.update (start : Bool) (r : Request) (b : TracingBucket) : TracingBucket :=
  if start then b.updateStart else b.updateEnd r.durMs r.code r.errMsg

/-- The bucket these requests leave behind. -/
def TracingBucket.ofRequests (start : Bool) (g : List Request) : TracingBucket :=
  g.foldl (fun b r => TracingBucket.update start r b) .zero

theorem TracingBucket.update_count (start : Bool) (r : Request) (b : TracingBucket) :
    (TracingBucket.update start r b).count = b.count + 1 := by
  unfold TracingBucket.update
  split
  · rfl
  · rfl

theorem TracingBucket.ofRequests_count (start : Bool) (g : List Request) :
    (TracingBucket.ofRequests start g).count = g.length := by
  have hrun : ∀ (g : List Request) (b : TracingBucket),
      (g.foldl (fun b r => TracingBucket.update start r b) b).count = b.count + g.length := by
    intro g
    induction g with
    | nil => intro b; simp
    | cons r g ih =>
      intro b
      rw [List.foldl_cons, ih, TracingBucket.update_count, List.length_cons]
      push_cast
      omega
  exact (hrun g .zero).trans (Int.zero_add _)

theorem TracingBucket.holds_zero (start : Bool) : TracingBucket.zero.Holds start [] :=
  ⟨rfl, fun _ => tracks_nil⟩

variable {g q : List Request} {b : TracingBucket} {r : Request} {start : Bool}
  {k : TracingBucketKey} {t : MemoryTracer} {a : CompactAcc}

theorem Tracks.updateEnd (hg : ∀ r ∈ g, 0 ≤ r.durMs) (hr : 0 ≤ r.durMs)
    (h : Tracks g b.totalMs b.minMs b.maxMs b.codeCounts b.errorCounts) :
    let b' := b.updateEnd r.durMs r.code r.errMsg
    Tracks (g ++ [r]) b'.totalMs b'.minMs b'.maxMs b'.codeCounts b'.errorCounts where
  total := by
    show i64 (b.totalMs + r.durMs) = _
    rw [h.total, i64_add_left, List.map_append, List.sum_append]
    simp
  min := by
    refine Or.inr (least_append hg h.min ?_)
    rw [durations_singleton]
    exact isLeast_singleton
  max := by
    refine Or.inr (greatest_append (by simpa using hr) h.max ?_)
    rw [durations_singleton]
    exact isGreatest_singleton
  code := by
    intro c
    refine (h.code.add r.code 1 Nat.one_pos c).trans ?_
    have hiff : decide (r.code = c) = true ↔ c = r.code := by
      rw [decide_eq_true_iff]
      exact eq_comm
    simp only [List.countP_append, List.countP_singleton, hiff]
  error := by
    show Tally.Counts (if r.errMsg ≠ "" ∧ r.code ≠ 0 then _ else _) _
    intro e
    simp only [List.countP_append, List.countP_singleton]
    split
    next herr =>
      refine (h.error.add r.errMsg 1 Nat.one_pos e).trans ?_
      -- the request has error `e` exactly if `e` is its message
      have hiff : r.hasError e = true ↔ e = r.errMsg := by
        unfold Request.hasError
        constructor
        · intro he
          simp only [Bool.and_eq_true, decide_eq_true_eq] at he
          exact he.1.1.symm
        · intro he
          subst he
          simp [herr.1, herr.2]
      simp only [hiff]
    next hno =>
      have hfalse : ¬ r.hasError e = true := by
        intro he
        simp only [Request.hasError, Bool.and_eq_true, decide_eq_true_eq] at he
        exact hno ⟨he.1.1 ▸ he.1.2, he.2⟩
      simp only [if_neg hfalse, Nat.add_zero]
      exact h.error e

/-- One request more in the bucket. -/
theorem TracingBucket.Holds.update
     (h : b.Holds start g) (hg : ∀ r ∈ g, 0 ≤ r.durMs) (hr : 0 ≤ r.durMs) :
    (TracingBucket.update start r b).Holds start (g ++ [r]) := by
  cases start with
  | true =>
    refine ⟨?_, fun hs => absurd hs (by decide)⟩
    show b.count + 1 = _
    rw [h.count, List.length_append]
    rfl
  | false =>
    refine ⟨?_, fun _ => (h.stats rfl).updateEnd hg hr⟩
    show b.count + 1 = _
    rw [h.count, List.length_append]
    rfl

/-- All requests of a key. -/
theorem TracingBucket.Holds.updateAll : ∀ (g' : List Request) {b : TracingBucket}
    {g : List Request}, b.Holds start g → (∀ r ∈ g ++ g', 0 ≤ r.durMs) →
    (g'.foldl (fun b r => TracingBucket.update start r b) b).Holds start (g ++ g') := by
  intro g'
  induction g' with
  | nil =>
    intro b g h _
    rw [List.append_nil]
    exact h
  | cons r g' ih =>
    intro b g h hd
    have hnext : (g ++ [r]) ++ g' = g ++ r :: g' := by simp
    have hstep := h.update (fun x hx => hd x (List.mem_append_left _ hx)) (hd r (by simp))
    have hrest := ih hstep (by rw [hnext]; exact hd)
    rw [hnext] at hrest
    exact hrest

/-- The minimum of a record is the minimum of the accumulator: the sentinel is gone. -/
theorem EndStats.min_nonneg {total min max : Int} {code : Tally Int}
    {error : Tally String} (h : EndStats g total min max code error)
    (hg : ∀ r ∈ g, 0 ≤ r.durMs) : 0 ≤ min := by
  obtain ⟨r, hr, hrm⟩ := h.min.1
  exact hrm ▸ hg r hr

theorem TracingBucket.Holds.summarises
     (h : b.Holds k.startData g) (hne : g ≠ []) (hg : ∀ r ∈ g, 0 ≤ r.durMs)
    (hkey : ∀ r ∈ g, r.keyOf k.startData = k) : Summarises (b.record k) g := by
  obtain ⟨name, timestamp, start⟩ := k
  cases start with
  | true => exact ⟨hne, hkey, h.count, fun hs => absurd (show true = false from hs) (by decide)⟩
  | false =>
    refine ⟨hne, hkey, h.count, fun _ => ?_⟩
    have hstats := (h.stats rfl).endStats hne
    show EndStats g b.totalMs (if b.minMs ≥ 0 then b.minMs else 0) b.maxMs b.codeCounts b.errorCounts
    rw [if_pos (hstats.min_nonneg hg)]
    exact hstats

/-! ## One bank -/

/-- A request makes two updates: of its end bucket, then of its start bucket. -/
def Request.events (r : Request) : List (Request × Bool) := [(r, false), (r, true)]

/-- The bank that holds exactly these requests. -/
def bankOf (q : List Request) : TracingBank :=
  Grouped.groupAll (fun e => e.1.keyOf e.2) .zero (fun e => TracingBucket.update e.2 e.1)
    (q.flatMap Request.events) .empty

/-- `addRecord` is the two updates, whatever the pool hands out. -/
theorem addRecord_bankOf (q : List Request) (r : Request) (pooled : TracingBucket × TracingBucket) :
    TracingBank.addRecord (bankOf q) r pooled = bankOf (q ++ [r]) := by
  unfold TracingBank.addRecord bankOf Grouped.groupAll
  rw [TracingBucket.reset_eq, TracingBucket.reset_eq, List.flatMap_append, List.foldl_append]
  rfl

/-- The updates of one bucket. -/
theorem events_filter (k : TracingBucketKey) (q : List Request) :
    (q.flatMap Request.events).filter (fun e => e.1.keyOf e.2 = k)
      = (q.filter fun r => r.keyOf k.startData = k).map fun r => (r, k.startData) := by
  induction q with
  | nil => rfl
  | cons r q ih =>
    -- of the two updates of `r`, only the one of the key's kind can be of the key
    have hother : ∀ start, start ≠ k.startData → ¬ r.keyOf start = k := by
      intro start hne he
      exact hne (by rw [← he, keyOf_startData])
    have hhead : r.events.filter (fun e => e.1.keyOf e.2 = k)
        = if r.keyOf k.startData = k then [(r, k.startData)] else [] := by
      unfold Request.events
      cases hs : k.startData with
      | false =>
        have h := hother true (by rw [hs]; decide)
        by_cases hk : r.keyOf false = k
        · simp [hk, h]
        · simp [hk, h]
      | true =>
        have h := hother false (by rw [hs]; decide)
        by_cases hk : r.keyOf true = k
        · simp [hk, h]
        · simp [hk, h]
    rw [List.flatMap_cons, List.filter_append, ih, hhead]
    by_cases hk : r.keyOf k.startData = k
    · rw [if_pos hk, List.filter_cons_of_pos (by simpa using hk)]
      rfl
    · rw [if_neg hk, List.filter_cons_of_neg (by simpa using hk)]
      rfl

/-- The requests of a key. -/
def ofKey (q : List Request) (k : TracingBucketKey) : List Request :=
  q.filter fun r => r.keyOf k.startData = k

theorem mem_ofKey :
    r ∈ ofKey q k ↔ r ∈ q ∧ r.keyOf k.startData = k := by
  unfold ofKey
  rw [List.mem_filter, decide_eq_true_iff]

theorem mem_bankOf_order :
    k ∈ (bankOf q).order ↔ ofKey q k ≠ [] := by
  unfold bankOf
  rw [Grouped.groupAll_mem]
  constructor
  · intro h
    obtain ⟨e, he, hk⟩ := h
    have hmem : e ∈ (q.flatMap Request.events).filter (fun e => e.1.keyOf e.2 = k) :=
      List.mem_filter.mpr ⟨he, by simpa using hk⟩
    rw [events_filter] at hmem
    obtain ⟨r, hr, -⟩ := List.mem_map.mp hmem
    exact List.ne_nil_of_mem hr
  · intro h
    obtain ⟨r, hr⟩ := List.exists_mem_of_ne_nil _ h
    have hmem : (r, k.startData) ∈ (q.flatMap Request.events).filter (fun e => e.1.keyOf e.2 = k) := by
      rw [events_filter]
      exact List.mem_map.mpr ⟨r, hr, rfl⟩
    rw [List.mem_filter, decide_eq_true_iff] at hmem
    exact ⟨_, hmem.1, hmem.2⟩

/-- The bucket of a key is the one its requests leave behind. -/
theorem bankOf_buckets (hk : k ∈ (bankOf q).order) :
    (bankOf q).buckets k = some (TracingBucket.ofRequests k.startData (ofKey q k)) := by
  have hne := mem_bankOf_order.mp hk
  unfold bankOf
  rw [Grouped.groupAll_bucket, events_filter, List.foldl_map]
  · rfl
  · rw [events_filter]
    exact fun hnil => hne (List.map_eq_nil_iff.mp hnil)

/-- **The bucket of a key** holds the requests of the key. -/
theorem holds_ofRequests (hq : ∀ r ∈ q, 0 ≤ r.durMs) (k : TracingBucketKey) :
    (TracingBucket.ofRequests k.startData (ofKey q k)).Holds k.startData (ofKey q k) := by
  have h := (TracingBucket.holds_zero k.startData).updateAll (ofKey q k)
    (by rw [List.nil_append]; exact fun r hr => hq r (mem_ofKey.mp hr).1)
  rw [List.nil_append] at h
  exact h

/-- **A snapshot** has one record per key: no bucket is empty, so none is skipped. -/
theorem snapshot_bankOf (q : List Request) :
    TracingBank.snapshot (bankOf q) = (bankOf q).order.map fun k =>
      (TracingBucket.ofRequests k.startData (ofKey q k)).record k := by
  unfold TracingBank.snapshot
  rw [← List.filterMap_eq_map]
  refine List.filterMap_congr fun k hk => ?_
  have hpos : 0 < (ofKey q k).length := List.length_pos_iff.mpr (mem_bankOf_order.mp hk)
  have hcount : ¬ (TracingBucket.ofRequests k.startData (ofKey q k)).count = 0 := by
    rw [TracingBucket.ofRequests_count]
    omega
  simp only [comp_apply, bankOf_buckets hk, if_neg hcount]

theorem durMs_ofKey (hq : ∀ r ∈ q, 0 ≤ r.durMs) (k : TracingBucketKey) :
    ∀ r ∈ ofKey q k, 0 ≤ r.durMs :=
  fun r hr => hq r (mem_ofKey.mp hr).1

/-- Keys of one kind that cover the requests cut them into groups. -/
theorem ofKey_partition {order : List TracingBucketKey} (hnd : order.Nodup)
    (start : Bool) (hcover : ∀ r ∈ q, r.keyOf start ∈ order) :
    (((order.filter fun k => k.startData = start).map (ofKey q)).flatten).Perm q := by
  have hgroup : (order.filter fun k => k.startData = start).map (ofKey q)
      = (order.filter fun k => k.startData = start).map fun k => q.filter fun r => r.keyOf start = k := by
    refine List.map_congr_left fun k hk => ?_
    rw [List.mem_filter, decide_eq_true_iff] at hk
    unfold ofKey
    rw [hk.2]
  rw [hgroup]
  refine flatten_filter_perm (Request.keyOf start) _ q (hnd.filter _) fun r hr => ?_
  rw [List.mem_filter, decide_eq_true_iff]
  exact ⟨hcover r hr, keyOf_startData start r⟩

/-- **A snapshot accounts for what the bank holds.** -/
theorem snapshot_accounts (hq : ∀ r ∈ q, 0 ≤ r.durMs) :
    Accounts (TracingBank.snapshot (bankOf q)) q := by
  let rec' : TracingBucketKey → TracingRecord :=
    fun k => (TracingBucket.ofRequests k.startData (ofKey q k)).record k
  have hrec : ∀ k ∈ (bankOf q).order, Summarises (rec' k) (ofKey q k) := by
    intro k hk
    exact (holds_ofRequests hq k).summarises (mem_bankOf_order.mp hk) (durMs_ofKey hq k)
      fun r hr => (mem_ofKey.mp hr).2
  refine ⟨(bankOf q).order.map fun k => (rec' k, ofKey q k), ?_, ?_, fun start => ?_⟩
  · rw [snapshot_bankOf, List.map_map]
    rfl
  · intro p hp
    obtain ⟨k, hk, rfl⟩ := List.mem_map.mp hp
    exact hrec k hk
  · -- the kind of a record is the kind of its key
    have hkind : ∀ k, (rec' k).startData = k.startData := by
      intro k
      show (TracingBucket.record k _).startData = _
      unfold TracingBucket.record
      split
      · rfl
      · rfl
    rw [List.filter_map, List.map_map]
    have hfun : ((fun p : TracingRecord × List Request => decide (p.1.startData = start)) ∘
        fun k => (rec' k, ofKey q k)) = fun k => decide (k.startData = start) := by
      funext k
      show decide ((rec' k).startData = start) = _
      rw [hkind]
    rw [hfun]
    refine ofKey_partition (bankOf q).nodup start fun r hr => mem_bankOf_order.mpr ?_
    refine List.ne_nil_of_mem (mem_ofKey.mpr ⟨hr, ?_⟩)
    rw [keyOf_startData]

/-! ## One shard -/

theorem TracerShard.aggregate_bank (s : TracerShard) (b : Fin 2) (r : Request)
    (pooled : TracingBucket × TracingBucket) :
    (s.aggregate b r pooled).banks b = TracingBank.addRecord (s.banks b) r pooled :=
  update_self ..

/-- After the switch the harvested bank is the one that was active. -/
theorem TracerShard.switched_harvested (s : TracerShard) :
    s.clearIdle.switch.harvested = TracingBank.snapshot (s.banks s.active) := by
  have hbank : s.clearIdle.switch.banks s.clearIdle.switch.idle = s.banks s.active := by
    show update s.banks (1 - s.active) Grouped.empty (1 - (1 - s.active)) = _
    rw [other_other, update_of_ne (other_ne _).symm]
  unfold harvested
  rw [hbank]

/-- The bank that becomes active was cleared before the switch. -/
theorem TracerShard.flushed_active (s : TracerShard) :
    s.clearIdle.switch.clearIdle.banks s.clearIdle.switch.clearIdle.active = Grouped.empty := by
  show update (update s.banks (1 - s.active) Grouped.empty)
    (1 - (1 - s.active)) Grouped.empty (1 - s.active) = _
  rw [other_other, update_of_ne (other_ne _), update_self]

/-! ## One tracer -/

/-- The requests of a shard. -/
def MemoryTracer.ofShard (t : MemoryTracer) (q : List Request) (j : Nat) : List Request :=
  q.filter fun r => t.pickShard r.name = j

/-- Every request is in the shard of its name. -/
theorem MemoryTracer.ofShard_partition (t : MemoryTracer) (q : List Request) :
    (((List.range t.shardCount.toNat).map fun j => t.ofShard q j).flatten).Perm q := by
  unfold MemoryTracer.ofShard
  have hcover : ∀ r ∈ q, t.pickShard r.name ∈ List.range t.shardCount.toNat := by
    intro r _
    rw [List.mem_range]
    exact t.pickShard_lt r.name
  exact flatten_filter_perm (fun r : Request => t.pickShard r.name) _ q List.nodup_range hcover

/-- The active banks hold exactly these requests. -/
def MemoryTracer.Holding (t : MemoryTracer) (q : List Request) : Prop :=
  ∀ j, j < t.shardCount.toNat → (t.shards j).banks (t.shards j).active = bankOf (t.ofShard q j)

theorem holding_new (n : Int64) : (newMemoryTracerWithShards n).Holding [] :=
  fun _ _ => rfl

theorem MemoryTracer.Holding.addRecord (h : t.Holding q)
    (r : Request) (pooled : TracingBucket × TracingBucket) :
    (t.addRecord r pooled).Holding (q ++ [r]) := by
  intro j hj
  have hbank := h j hj
  -- only the picked shard changes, and the hash does not depend on the shards
  have hshard : (t.addRecord r pooled).ofShard (q ++ [r]) j
      = t.ofShard q j ++ if t.pickShard r.name = j then [r] else [] := by
    show (q ++ [r]).filter (fun r => t.pickShard r.name = j) = _
    rw [List.filter_append]
    by_cases hp : t.pickShard r.name = j
    · simp [hp, MemoryTracer.ofShard]
    · simp [hp, MemoryTracer.ofShard]
  rw [hshard]
  by_cases hp : t.pickShard r.name = j
  · have hs : (t.addRecord r pooled).shards j
        = (t.shards j).aggregate (t.shards j).active r pooled := by
      show update t.shards (t.pickShard r.name) _ j = _
      rw [hp, update_self]
    rw [hs, if_pos hp, ← addRecord_bankOf _ r pooled, ← hbank]
    exact TracerShard.aggregate_bank ..
  · have hs : (t.addRecord r pooled).shards j = t.shards j := by
      show update t.shards (t.pickShard r.name) _ j = _
      rw [update_of_ne (fun he => hp he.symm)]
    rw [hs, if_neg hp, List.append_nil]
    exact hbank

/-- The records of a `Flush`, shard by shard. -/
theorem MemoryTracer.Holding.flush_records
    (h : t.Holding q) : t.flush.1 = ((List.range t.shardCount.toNat).map fun j =>
      TracingBank.snapshot (bankOf (t.ofShard q j))).flatten := by
  have hshard : ∀ j ∈ List.range t.shardCount.toNat,
      ((t.forShards fun shard => shard.clearIdle.switch).shards j).harvested
        = TracingBank.snapshot (bankOf (t.ofShard q j)) := by
    intro j hj
    rw [List.mem_range] at hj
    have hs : (t.forShards fun shard => shard.clearIdle.switch).shards j
        = (t.shards j).clearIdle.switch := if_pos hj
    rw [hs, TracerShard.switched_harvested, h j hj]
  rw [← List.map_congr_left hshard]
  exact List.flatMap_def

/-- After a `Flush` the tracer is empty again. -/
theorem MemoryTracer.flush_holding (t : MemoryTracer) : t.flush.2.Holding [] := by
  intro j hj
  have hj' : j < t.shardCount.toNat := hj
  have hs : t.flush.2.shards j = (t.shards j).clearIdle.switch.clearIdle := by
    show (if j < t.shardCount.toNat then TracerShard.clearIdle (if j < t.shardCount.toNat then _ else _)
      else _) = _
    rw [if_pos hj', if_pos hj']
  rw [hs, TracerShard.flushed_active]
  rfl

/-- **`Flush` returns what the tracer holds.** -/
theorem MemoryTracer.Holding.flush (h : t.Holding q)
    (hq : ∀ r ∈ q, 0 ≤ r.durMs) : Accounts t.flush.1 q := by
  rw [h.flush_records]
  refine Accounts.perm_requests ?_ (t.ofShard_partition q)
  generalize List.range t.shardCount.toNat = js
  induction js with
  | nil => exact accounts_nil
  | cons j js ih =>
    rw [List.map_cons, List.map_cons, List.flatten_cons, List.flatten_cons]
    exact Accounts.append (snapshot_accounts fun r hr => hq r (List.mem_filter.mp hr).1) ih

/-! ## Compaction -/

/-- The accumulator describes this group. -/
structure CompactAcc.Holds (a : CompactAcc) (start : Bool) (g : List Request) : Prop where
  count : a.count = g.length
  stats : start = false → Tracks g a.totalMs a.minMs a.maxMs a.codes a.errors

/-- The statistics of two groups merge. -/
theorem Tracks.merge {h : List Request} {r : TracingRecord}
    (hg : ∀ x ∈ g, 0 ≤ x.durMs) (hh : ∀ x ∈ h, 0 ≤ x.durMs)
    (ha : Tracks g a.totalMs a.minMs a.maxMs a.codes a.errors) (hr : r.Stats h)
    (hend : r.startData = false) (hcount : r.count > 0) :
    Tracks (g ++ h) (a.merge r).totalMs (a.merge r).minMs (a.merge r).maxMs (a.merge r).codes
      (a.merge r).errors := by
  unfold CompactAcc.merge
  rw [if_pos ⟨by rw [hend]; decide, hcount⟩]
  refine ⟨?_, Or.inr (least_append hg ha.min hr.min), Or.inr (greatest_append hh ha.max hr.max), ?_, ?_⟩
  · show i64 (a.totalMs + r.totalDurationMs) = _
    rw [ha.total, hr.total, i64_add_left, i64_add_right, List.map_append, List.sum_append]
  · simp only [List.countP_append]
    exact ha.code.merge hr.code
  · simp only [List.countP_append]
    exact ha.error.merge hr.error

/-- One record more in the accumulator. -/
theorem CompactAcc.Holds.merge {h : List Request} {r : TracingRecord}
    (ha : a.Holds r.startData g) (hr : Summarises r h) (hg : ∀ x ∈ g, 0 ≤ x.durMs)
    (hh : ∀ x ∈ h, 0 ≤ x.durMs) : (a.merge r).Holds r.startData (g ++ h) := by
  have hpos : 0 < h.length := List.length_pos_iff.mpr hr.ne
  have hcount : r.count > 0 := by
    rw [hr.count]
    omega
  refine ⟨?_, fun hend => (ha.stats hend).merge hg hh (hr.stats hend) hend hcount⟩
  rw [CompactAcc.merge_count, ha.count, hr.count, List.length_append]
  omega

/-- All records of a key. -/
theorem CompactAcc.Holds.mergeAll : ∀ (ps : List (TracingRecord × List Request))
    {a : CompactAcc} {g : List Request}, a.Holds start g →
    (∀ p ∈ ps, Summarises p.1 p.2 ∧ p.1.startData = start) →
    (∀ x ∈ g ++ (ps.map Prod.snd).flatten, 0 ≤ x.durMs) →
    ((ps.map Prod.fst).foldl (fun a r => CompactAcc.merge r a) a).Holds start
      (g ++ (ps.map Prod.snd).flatten) := by
  intro ps
  induction ps with
  | nil =>
    intro a g ha _ _
    show a.Holds start (g ++ [])
    rw [List.append_nil]
    exact ha
  | cons p ps ih =>
    intro a g ha hps hd
    obtain ⟨hsum, hstart⟩ := hps p List.mem_cons_self
    rw [List.map_cons, List.flatten_cons, ← List.append_assoc] at hd
    rw [List.map_cons, List.map_cons, List.flatten_cons, List.foldl_cons, ← List.append_assoc]
    subst hstart
    have hdur : ∀ x ∈ g ++ p.2, 0 ≤ x.durMs := fun x hx => hd x (List.mem_append_left _ hx)
    have hstep := ha.merge hsum (fun x hx => hdur x (List.mem_append_left _ hx))
      (fun x hx => hdur x (List.mem_append_right _ hx))
    exact ih hstep (fun p' hp' => hps p' (List.mem_cons_of_mem _ hp')) hd

theorem CompactAcc.Holds.summarises
    (h : a.Holds k.startData g) (hne : g ≠ []) (hg : ∀ r ∈ g, 0 ≤ r.durMs)
    (hkey : ∀ r ∈ g, r.keyOf k.startData = k) : Summarises (a.record k) g := by
  obtain ⟨name, timestamp, start⟩ := k
  have hpos : 0 < g.length := List.length_pos_iff.mpr hne
  have hcount : a.count > 0 := by
    rw [h.count]
    omega
  cases start with
  | true => exact ⟨hne, hkey, h.count, fun hs => absurd (show true = false from hs) (by decide)⟩
  | false =>
    have hstats := (h.stats rfl).endStats hne
    unfold CompactAcc.record
    rw [if_pos ⟨rfl, hcount⟩]
    refine ⟨hne, hkey, h.count, fun _ => ?_⟩
    show EndStats g a.totalMs (if a.minMs ≥ 0 then a.minMs else 0) a.maxMs a.codes a.errors
    rw [if_pos (hstats.min_nonneg hg)]
    exact hstats

/-- What the compaction is to produce for some requests: one record per key that occurs,
describing the requests of the key. -/
structure Compacted (recs : List TracingRecord) (reqs : List Request) : Prop where
  nodup : (recs.map TracingRecord.key).Nodup
  occurs : ∀ k, k ∈ recs.map TracingRecord.key ↔ ∃ r ∈ reqs, r.keyOf k.startData = k
  record : ∀ r ∈ recs, Summarises r (ofKey reqs r.key)

theorem Compacted.perm {recs recs' : List TracingRecord} {reqs : List Request}
    (h : Compacted recs reqs) (hp : recs.Perm recs') : Compacted recs' reqs where
  nodup := (hp.map _).nodup_iff.mp h.nodup
  occurs := fun k => ((hp.map _).mem_iff).symm.trans (h.occurs k)
  record := fun r hr => h.record r (hp.mem_iff.mpr hr)

theorem Summarises.perm {rec : TracingRecord} {g' : List Request} (h : Summarises rec g)
    (hp : g.Perm g') : Summarises rec g' where
  ne := fun hnil => h.ne (by rw [hnil] at hp; exact hp.eq_nil)
  key := fun r hr => h.key r (hp.mem_iff.mpr hr)
  count := by rw [h.count, hp.length_eq]
  stats := fun hend => (h.stats hend).perm hp

/-- The groups of the records of a key make up the requests of the key. -/
theorem groups_ofKey {gs : List (TracingRecord × List Request)} {reqs : List Request}
    (hsum : ∀ p ∈ gs, Summarises p.1 p.2) (k : TracingBucketKey)
    (hperm : (((gs.filter fun p => p.1.startData = k.startData).map Prod.snd).flatten).Perm reqs) :
    (((gs.filter fun p => p.1.key = k).map Prod.snd).flatten).Perm (ofKey reqs k) := by
  have hcut : ((gs.filter fun p => p.1.key = k).map Prod.snd).flatten
      = ofKey ((gs.filter fun p => p.1.startData = k.startData).map Prod.snd).flatten k := by
    clear hperm
    induction gs with
    | nil => rfl
    | cons p gs ih =>
      have hp := hsum p List.mem_cons_self
      have ih := ih fun p' hp' => hsum p' (List.mem_cons_of_mem _ hp')
      by_cases hstart : p.1.startData = k.startData
      · have hfilter : (p :: gs).filter (fun p => p.1.startData = k.startData)
            = p :: gs.filter fun p => p.1.startData = k.startData :=
          List.filter_cons_of_pos (by simpa using hstart)
        rw [hfilter, List.map_cons, List.flatten_cons]
        unfold ofKey at ih ⊢
        rw [List.filter_append, ← ih]
        -- a group is of the key as a whole or not at all
        have hgroup : ∀ r ∈ p.2, r.keyOf k.startData = p.1.key := by
          intro r hr
          rw [← hstart]
          exact hp.key r hr
        by_cases hkey : p.1.key = k
        · have hall : p.2.filter (fun r => r.keyOf k.startData = k) = p.2 :=
            List.filter_eq_self.mpr fun r hr => by simpa [hkey] using hgroup r hr
          rw [List.filter_cons_of_pos (by simpa using hkey), List.map_cons, List.flatten_cons, hall]
        · have hnone : p.2.filter (fun r => r.keyOf k.startData = k) = [] :=
            List.filter_eq_nil_iff.mpr fun r hr => by simpa [hgroup r hr] using hkey
          rw [List.filter_cons_of_neg (by simpa using hkey), hnone, List.nil_append]
      · have hkey : ¬ p.1.key = k := fun he => hstart (by rw [← he]; rfl)
        have hfilter : (p :: gs).filter (fun p => p.1.startData = k.startData)
            = gs.filter fun p => p.1.startData = k.startData :=
          List.filter_cons_of_neg (by simpa using hstart)
        rw [List.filter_cons_of_neg (by simpa using hkey), hfilter]
        exact ih
  rw [hcut]
  exact hperm.filter _

section Compaction

variable {gs : List (TracingRecord × List Request)} {reqs : List Request}

/-- A record of a group is not skipped. -/
theorem countedRecords_groups (hsum : ∀ p ∈ gs, Summarises p.1 p.2) :
    countedRecords ((gs.map Prod.fst).map some) = gs.map Prod.fst := by
  unfold countedRecords
  rw [List.filterMap_map]
  conv_rhs => rw [← List.filterMap_some (l := gs.map Prod.fst)]
  refine List.filterMap_congr fun r hr => ?_
  obtain ⟨p, hp, rfl⟩ := List.mem_map.mp hr
  have hpos : 0 < p.2.length := List.length_pos_iff.mpr (hsum p hp).ne
  show (if p.1.count ≤ 0 then none else some p.1) = some p.1
  rw [if_neg (by rw [(hsum p hp).count]; omega)]

theorem filter_records (k : TracingBucketKey) :
    (gs.map Prod.fst).filter (fun r => r.key = k) = (gs.filter fun p => p.1.key = k).map Prod.fst := by
  rw [List.filter_map]
  rfl

/-- The keys of the accumulators are the keys that occur. -/
theorem compactGroups_occurs (hsum : ∀ p ∈ gs, Summarises p.1 p.2) (k : TracingBucketKey)
    (hgroup : (((gs.filter fun p => p.1.key = k).map Prod.snd).flatten).Perm (ofKey reqs k)) :
    k ∈ (compactGroups ((gs.map Prod.fst).map some)).order ↔ ofKey reqs k ≠ [] := by
  unfold compactGroups
  rw [countedRecords_groups hsum, Grouped.groupAll_mem]
  constructor
  · intro hk hnil
    obtain ⟨r, hr, hkey⟩ := hk
    obtain ⟨p, hp, rfl⟩ := List.mem_map.mp hr
    -- the group of a record is not empty
    obtain ⟨x, hx⟩ := List.exists_mem_of_ne_nil _ (hsum p hp).ne
    have hp' : p ∈ gs.filter fun p => p.1.key = k := List.mem_filter.mpr ⟨hp, by simpa using hkey⟩
    have hmem := hgroup.mem_iff.mp (List.mem_flatten.mpr ⟨p.2, List.mem_map.mpr ⟨p, hp', rfl⟩, hx⟩)
    rw [hnil] at hmem
    exact absurd hmem (by simp)
  · intro hne
    obtain ⟨x, hx⟩ := List.exists_mem_of_ne_nil _ hne
    obtain ⟨l, hl, -⟩ := List.mem_flatten.mp (hgroup.mem_iff.mpr hx)
    obtain ⟨p, hp, -⟩ := List.mem_map.mp hl
    rw [List.mem_filter, decide_eq_true_iff] at hp
    exact ⟨p.1, List.mem_map.mpr ⟨p, hp.1, rfl⟩, hp.2⟩

/-- The accumulator of a key describes the requests of the key. -/
theorem compactGroups_acc (hsum : ∀ p ∈ gs, Summarises p.1 p.2) (hd : ∀ r ∈ reqs, 0 ≤ r.durMs)
    (k : TracingBucketKey)
    (hgroup : (((gs.filter fun p => p.1.key = k).map Prod.snd).flatten).Perm (ofKey reqs k))
    (hne : ofKey reqs k ≠ []) :
    ∃ a, (compactGroups ((gs.map Prod.fst).map some)).buckets k = some a ∧
      Summarises (a.record k) (ofKey reqs k) := by
  have hps : ∀ p ∈ gs.filter (fun p => p.1.key = k),
      Summarises p.1 p.2 ∧ p.1.startData = k.startData := by
    intro p hp
    rw [List.mem_filter, decide_eq_true_iff] at hp
    exact ⟨hsum p hp.1, by rw [← hp.2]; rfl⟩
  have hdur : ∀ x ∈ ((gs.filter fun p => p.1.key = k).map Prod.snd).flatten, 0 ≤ x.durMs :=
    fun x hx => durMs_ofKey hd k x (hgroup.mem_iff.mp hx)
  have hzero : CompactAcc.zero.Holds k.startData [] := ⟨rfl, fun _ => tracks_nil⟩
  have hholds := hzero.mergeAll _ hps (by rw [List.nil_append]; exact hdur)
  rw [List.nil_append, ← filter_records] at hholds
  have hnil : ((gs.filter fun p => p.1.key = k).map Prod.snd).flatten ≠ [] := by
    intro hnil
    rw [hnil] at hgroup
    exact hne hgroup.symm.eq_nil
  refine ⟨_, ?_, (hholds.summarises hnil hdur ?_).perm hgroup⟩
  · unfold compactGroups
    rw [countedRecords_groups hsum, Grouped.groupAll_bucket]
    rw [filter_records]
    intro he
    rw [List.map_eq_nil_iff] at he
    rw [he] at hnil
    exact hnil rfl
  · exact fun x hx => (mem_ofKey.mp (hgroup.mem_iff.mp hx)).2

end Compaction

/-- **Compaction**: records that account for some requests become one record per key. -/
theorem compacted {recs : List TracingRecord} {reqs : List Request} (h : Accounts recs reqs)
    (hd : ∀ r ∈ reqs, 0 ≤ r.durMs) : Compacted (compactTracingsBySecond (recs.map some)) reqs := by
  obtain ⟨gs, rfl, hsum, hperm⟩ := h
  have hgroup := fun k => groups_ofKey hsum k (hperm k.startData)
  have hoccurs := fun k => compactGroups_occurs hsum k (hgroup k)
  have hacc := fun k hk => compactGroups_acc hsum hd k (hgroup k) ((hoccurs k).mp hk)
  refine Compacted.perm ?_ (compactTracings_perm _).symm
  generalize compactGroups ((gs.map Prod.fst).map some) = grouped at hoccurs hacc ⊢
  have hkeys : (grouped.order.map fun k => CompactAcc.record k ((grouped.buckets k).getD .zero)).map
      TracingRecord.key = grouped.order := by
    rw [List.map_map]
    refine (List.map_congr_left fun k _ => ?_).trans (List.map_id _)
    exact CompactAcc.record_key _ k
  refine ⟨by rw [hkeys]; exact grouped.nodup, fun k => ?_, fun r hr => ?_⟩
  · rw [hkeys, hoccurs]
    constructor
    · intro hne
      obtain ⟨r, hr⟩ := List.exists_mem_of_ne_nil _ hne
      exact ⟨r, mem_ofKey.mp hr⟩
    · intro hr
      obtain ⟨r, hr⟩ := hr
      exact List.ne_nil_of_mem (mem_ofKey.mpr hr)
  · obtain ⟨k, hk, rfl⟩ := List.mem_map.mp hr
    obtain ⟨a, ha, hsumm⟩ := hacc k hk
    show Summarises (CompactAcc.record k _) (ofKey reqs (CompactAcc.record k _).key)
    rw [CompactAcc.record_key, ha]
    exact hsumm

/-! ## From the requests to the report -/

/-- The calls on one tracer, one after the other. -/
inductive TraceOp where
  | add (r : Request) (pooled : TracingBucket × TracingBucket)
  | flush

/-- The chunks the `Flush` calls return. -/
def MemoryTracer.runOps (t : MemoryTracer) : List TraceOp → List (List TracingRecord)
  | [] => []
  | .add r pooled :: ops => (t.addRecord r pooled).runOps ops
  | .flush :: ops => t.flush.1 :: t.flush.2.runOps ops

/-- The requests among the calls. -/
def requestsOf : List TraceOp → List Request
  | [] => []
  | .add r _ :: ops => r :: requestsOf ops
  | .flush :: ops => requestsOf ops

/-- The chunks of a run that ends with a `Flush` account for all its requests. -/
theorem runOps_accounts : ∀ (ops : List TraceOp) {t : MemoryTracer} {q : List Request},
    t.Holding q → (∀ r ∈ q ++ requestsOf ops, 0 ≤ r.durMs) →
    Accounts (t.runOps (ops ++ [.flush])).flatten (q ++ requestsOf ops) := by
  intro ops
  induction ops with
  | nil =>
    intro t q h hd
    have hq : q ++ requestsOf [] = q := List.append_nil q
    rw [hq] at hd ⊢
    show Accounts (t.flush.1 ++ []) q
    rw [List.append_nil]
    exact h.flush hd
  | cons op ops ih =>
    intro t q h hd
    cases op with
    | add r pooled =>
      have hnext : (q ++ [r]) ++ requestsOf ops = q ++ r :: requestsOf ops := by simp
      have hrest := ih (h.addRecord r pooled) (by rw [hnext]; exact hd)
      rw [hnext] at hrest
      exact hrest
    | flush =>
      have hflush := h.flush fun r hr => hd r (List.mem_append_left _ hr)
      exact hflush.append (ih t.flush_holding fun r hr => hd r (List.mem_append_right _ hr))

/-- An agent: the shard count of its tracer and the calls on it, before the last `Flush`. -/
abbrev TracingAgent : Type := Int64 × List TraceOp

/-- All chunks of all agents. -/
def flushedChunks (agents : List TracingAgent) : List (List TracingRecord) :=
  agents.flatMap fun a => (newMemoryTracerWithShards a.1).runOps (a.2 ++ [.flush])

/-- All requests of all agents. -/
def finishedRequests (agents : List TracingAgent) : List Request :=
  agents.flatMap fun a => requestsOf a.2

theorem flushedChunks_accounts (agents : List TracingAgent)
    (hd : ∀ r ∈ finishedRequests agents, 0 ≤ r.durMs) :
    Accounts (flushedChunks agents).flatten (finishedRequests agents) := by
  unfold flushedChunks finishedRequests at *
  induction agents with
  | nil => exact accounts_nil
  | cons a agents ih =>
    rw [List.flatMap_cons] at hd
    rw [List.flatMap_cons, List.flatMap_cons, List.flatten_append]
    refine Accounts.append ?_ (ih fun r hr => hd r (List.mem_append_right _ hr))
    exact runOps_accounts a.2 (holding_new a.1) fun r hr => hd r (List.mem_append_left _ hr)

/-- **Nothing is lost or counted twice** between the requests and the compacted tracings, for
any agents, shard counts, placement of the flushes, pooled buckets and order of the chunks.
The total is the `int64` sum of the durations, the sum itself as long as it fits. -/
theorem compactTracings_exact (agents : List TracingAgent) (chunks : List (List TracingRecord))
    (hd : ∀ r ∈ finishedRequests agents, 0 ≤ r.durMs)
    (horder : chunks.Perm (flushedChunks agents)) :
    let out := compactTracingsBySecond (chunks.flatten.map some)
    Compacted out (finishedRequests agents) ∧
    ∀ r ∈ out, r.startData = false →
      ((ofKey (finishedRequests agents) r.key).map Request.durMs).sum < 2 ^ 63 →
      r.totalDurationMs = ((ofKey (finishedRequests agents) r.key).map Request.durMs).sum := by
  intro out
  have hacc := (flushedChunks_accounts agents hd).perm_records (horder.flatten.symm)
  have hout : Compacted out (finishedRequests agents) := compacted hacc hd
  refine ⟨hout, fun r hr hend hfits => ?_⟩
  rw [((hout.record r hr).stats hend).total]
  refine i64_of_lt (List.sum_nonneg fun d hmem => ?_) hfits
  obtain ⟨x, hx, rfl⟩ := List.mem_map.mp hmem
  exact durMs_ofKey hd _ x hx

/-- Two agents with a request of the same second, one before and one after its first `Flush`. -/
def twoAgents : List TracingAgent :=
  [(1, [.add sampleRequest (.zero, .zero), .flush]),
    (4, [.flush,
      .add { sampleRequest with durMs := 9, code := -1, errMsg := "timeout" } (.zero, .zero)])]

/-- Their chunks in reverse order: one end record, with the total of both. -/
theorem compactTracings_twoAgents :
    Compacted (compactTracingsBySecond ((flushedChunks twoAgents).reverse.flatten.map some))
      (finishedRequests twoAgents) ∧
    ∃ r ∈ compactTracingsBySecond ((flushedChunks twoAgents).reverse.flatten.map some),
      r.key = ⟨"login", 10, false⟩ ∧ r.totalDurationMs = 16 := by
  obtain ⟨hout, htotal⟩ := compactTracings_exact twoAgents _ (by decide) (List.reverse_perm _)
  obtain ⟨r, hr, hkey⟩ := List.mem_map.mp ((hout.occurs ⟨"login", 10, false⟩).mpr (by decide))
  have hsum := htotal r hr (congrArg TracingBucketKey.startData hkey)
  rw [hkey] at hsum
  exact ⟨hout, r, hr, hkey, hsum (by decide)⟩

/-- Two requests of one second that took `2 ^ 62` ms each. -/
def longRequests : List TracingAgent :=
  [(1, [.add { sampleRequest with durMs := 2 ^ 62 } (.zero, .zero),
    .add { sampleRequest with durMs := 2 ^ 62 } (.zero, .zero)])]

/-- Their total wraps: it is reported as `-2 ^ 63` and is `2 ^ 63`. -/
theorem long_total_wraps :
    ∃ r ∈ compactTracingsBySecond ((flushedChunks longRequests).flatten.map some),
      r.key = ⟨"login", 10, false⟩ ∧ r.totalDurationMs = -2 ^ 63 ∧
      ((ofKey (finishedRequests longRequests) r.key).map Request.durMs).sum = 2 ^ 63 := by
  have hd : ∀ r ∈ finishedRequests longRequests, 0 ≤ r.durMs := by decide
  have hout := compacted (flushedChunks_accounts longRequests hd) hd
  obtain ⟨r, hr, hkey⟩ := List.mem_map.mp ((hout.occurs ⟨"login", 10, false⟩).mpr (by decide))
  have htotal := ((hout.record r hr).stats (congrArg TracingBucketKey.startData hkey)).total
  rw [hkey] at htotal
  exact ⟨r, hr, hkey, htotal, by rw [hkey]; rfl⟩

end Robot.Report
