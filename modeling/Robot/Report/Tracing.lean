import Robot.Lib.Pow2
import Robot.Lib.Int64
import Robot.Lib.Grouped
import Robot.Lib.Tally

/-!
# Tracing records and the memory tracer

`report/tracing.go` and `report/impl/tracing_impl.go`. A finished request is aggregated in
place: under its end second with duration, code and error text, under its start second
with a count. The buckets live in one of the two banks of a shard, the shard is picked
by a hash of the name, and `Flush` switches banks and turns the old ones into records.

This file has the data and the operations; the steps of `Flush` on one shard are
separate definitions because concurrent writers can come in between them. Buckets come
out of a `sync.Pool` with whatever they held before; what the pool returns is an
argument here, and `reset_eq` is why it does not matter.

`float64` is idealised to `ℚ`: mean and `M2` only feed the variance. `int64` totals wrap.
-/

namespace Robot.Report

open Robot.Lib

/-- `TracingRecord`. -/
structure TracingRecord where
  timestamp : Int
  startData : Bool
  name : String
  count : Int
  totalDurationMs : Int
  minDurationMs : Int
  maxDurationMs : Int
  variance : Int
  code : Tally Int
  error : Tally String
  deriving DecidableEq

/-- The arguments of one `addRecord`: a finished request. -/
structure Request where
  name : String
  startSec : Int
  endSec : Int
  durMs : Int
  code : Int
  errMsg : String

/-- `tracingBucketKey`; `CompactTracingsBySecond` groups by the same three fields. -/
structure TracingBucketKey where
  name : String
  timestamp : Int
  startData : Bool
  deriving DecidableEq

def TracingRecord.key (r : TracingRecord) : TracingBucketKey := ⟨r.name, r.timestamp, r.startData⟩

/-! ## Buckets -/

/-- `tracingBucket`; `minMs = -1` is unset. -/
structure TracingBucket where
  count : Int
  totalMs : Int
  minMs : Int
  maxMs : Int
  meanMs : ℚ
  m2Ms : ℚ
  codeCounts : Tally Int
  errorCounts : Tally String

namespace TracingBucket

/-- `reset`: every field, and every key of the two maps deleted. -/
def reset (b : TracingBucket) : TracingBucket :=
  { count := 0, totalMs := 0, minMs := -1, maxMs := 0, meanMs := 0, m2Ms := 0
    codeCounts := b.codeCounts.keys.foldl (fun m k => m.erase k) b.codeCounts
    errorCounts := b.errorCounts.keys.foldl (fun m k => m.erase k) b.errorCounts }

/-- `updateEnd`. -/
def updateEnd (b : TracingBucket) (durMs code : Int) (errMsg : String) : TracingBucket :=
  let count := b.count + 1
  let delta := (durMs : ℚ) - b.meanMs
  let meanMs := b.meanMs + delta / count
  { count := count
    totalMs := i64 (b.totalMs + durMs)
    minMs := if b.minMs < 0 ∨ durMs < b.minMs then durMs else b.minMs
    maxMs := if durMs > b.maxMs then durMs else b.maxMs
    meanMs := meanMs
    m2Ms := b.m2Ms + delta * (durMs - meanMs)
    codeCounts := b.codeCounts.add code 1
    errorCounts := if errMsg ≠ "" ∧ code ≠ 0 then b.errorCounts.add errMsg 1 else b.errorCounts }

/-- `startBk.count++`. -/
def updateStart (b : TracingBucket) : TracingBucket := { b with count := b.count + 1 }

/-- A float without its fraction. -/
def truncate (x : ℚ) : Int := x.num.tdiv x.den

/-- `int64(x)` of a float. The language leaves open what becomes of a value outside the range, and
amd64 makes it the smallest `int64`; nothing here relies on more than that it is one. -/
def toInt64 (x : ℚ) : Int :=
  if -2 ^ 63 ≤ truncate x ∧ truncate x < 2 ^ 63 then truncate x else -2 ^ 63

/-- The record `snapshot` makes of a bucket. -/
def record (key : TracingBucketKey) (bk : TracingBucket) : TracingRecord :=
  if key.startData then
    { timestamp := key.timestamp, startData := key.startData, name := key.name, count := bk.count
      totalDurationMs := 0, minDurationMs := 0, maxDurationMs := 0, variance := 0
      code := ∅, error := ∅ }
  else
    { timestamp := key.timestamp, startData := key.startData, name := key.name, count := bk.count
      totalDurationMs := bk.totalMs
      minDurationMs := if bk.minMs ≥ 0 then bk.minMs else 0
      maxDurationMs := bk.maxMs
      variance := if bk.count > 1 then toInt64 (bk.m2Ms / bk.count) else 0
      code := bk.codeCounts
      error := bk.errorCounts }

/-- The bucket every new key starts from. -/
def zero : TracingBucket :=
  { count := 0, totalMs := 0, minMs := -1, maxMs := 0, meanMs := 0, m2Ms := 0
    codeCounts := ∅, errorCounts := ∅ }

/-- Deleting every key of a map leaves it empty. -/
theorem foldl_erase_keys {κ : Type} [DecidableEq κ] (t : Tally κ) :
    t.keys.foldl (fun m k => m.erase k) t = ∅ := by
  have hlook : ∀ (l : List κ) (m : Tally κ) (k : κ),
      (l.foldl (fun m k => m.erase k) m).lookup k = if k ∈ l then none else m.lookup k := by
    intro l
    induction l with
    | nil => intro m k; simp
    | cons a l ih =>
      intro m k
      rw [List.foldl_cons, ih]
      by_cases hk : k = a
      · subst hk
        simp
      · rw [AList.lookup_erase_ne hk]
        simp [hk]
  -- an association list without any key has no entries
  have hnone : ∀ k, (t.keys.foldl (fun m k => m.erase k) t).lookup k = none := by
    intro k
    rw [hlook]
    split
    · rfl
    next hk => exact AList.lookup_eq_none.mpr (fun hm => hk hm)
  refine AList.ext ?_
  refine List.eq_nil_iff_forall_not_mem.mpr fun e he => ?_
  have hsome := AList.mem_lookup_iff.mpr he
  rw [hnone] at hsome
  simp at hsome

/-- A recycled bucket is as good as a new one. -/
theorem reset_eq (b : TracingBucket) : b.reset = zero := by
  unfold reset zero
  rw [foldl_erase_keys, foldl_erase_keys]

end TracingBucket

open TracingBucket

theorem truncate_intCast (n : Int) : TracingBucket.truncate (n : ℚ) = n := by
  unfold TracingBucket.truncate
  rw [Rat.num_intCast, Rat.den_intCast]
  exact Int.tdiv_one n

theorem i64_toInt64 (x : ℚ) : i64 (toInt64 x) = toInt64 x := by
  unfold toInt64
  split
  next h => exact i64_of_fits h.1 h.2
  next => rfl

/-- A value in the range loses its fraction only. -/
theorem toInt64_of_fits {x : ℚ} (h0 : -2 ^ 63 ≤ truncate x) (h : truncate x < 2 ^ 63) :
    toInt64 x = truncate x := if_pos ⟨h0, h⟩

theorem toInt64_intCast {n : Int} (h : i64 n = n) : toInt64 (n : ℚ) = n := by
  rw [toInt64_of_fits, truncate_intCast]
  · rw [truncate_intCast, ← h]
    exact le_i64 n
  · rw [truncate_intCast, ← h]
    exact i64_lt n

/-! ## Banks -/

/-- `tracingBank`. -/
abbrev TracingBank : Type := Grouped TracingBucketKey TracingBucket

def Request.endKey (r : Request) : TracingBucketKey := ⟨r.name, r.endSec, false⟩

def Request.startKey (r : Request) : TracingBucketKey := ⟨r.name, r.startSec, true⟩

namespace TracingBank

/-- The locked part of `addRecord`, with the two buckets the pool would hand out. -/
def addRecord (bank : TracingBank) (r : Request) (pooled : TracingBucket × TracingBucket) :
    TracingBank :=
  (bank.upsert r.endKey pooled.1.reset (·.updateEnd r.durMs r.code r.errMsg)).upsert
    r.startKey pooled.2.reset TracingBucket.updateStart

/-- `snapshot`. -/
def snapshot (bank : TracingBank) : List TracingRecord :=
  bank.order.filterMap fun key =>
    match bank.buckets key with
    | none => none
    | some bk => if bk.count = 0 then none else some (bk.record key)

end TracingBank

/-! ## Shards -/

structure TracerShard where
  active : Fin 2
  banks : Fin 2 → TracingBank

namespace TracerShard

def new : TracerShard := { active := 0, banks := fun _ => Grouped.empty }

/-- `lock; aggregate; unlock` on the bank whose index was loaded. -/
def aggregate (s : TracerShard) (bankIdx : Fin 2) (r : Request)
    (pooled : TracingBucket × TracingBucket) : TracerShard :=
  { s with
    banks := Function.update s.banks bankIdx (TracingBank.addRecord (s.banks bankIdx) r pooled) }

/-- `1 - shard.active`. -/
def idle (s : TracerShard) : Fin 2 := 1 - s.active

/-- `newBank.clear()`, `newIdx = 1 - oldIdx`. -/
def clearIdle (s : TracerShard) : TracerShard :=
  { s with banks := Function.update s.banks s.idle Grouped.empty }

/-- `atomic.StoreInt32(&shard.active, newIdx)`. -/
def switch (s : TracerShard) : TracerShard := { s with active := s.idle }

/-- What the second loop of `Flush` takes out of a shard. -/
def harvested (s : TracerShard) : List TracingRecord :=
  TracingBank.snapshot (s.banks s.idle)

end TracerShard

/-! ## Tracers -/

/-- `MemoryTracer`: `shardMask` is `shardCount - 1` of a power of two. -/
structure MemoryTracer where
  shards : Nat → TracerShard
  shardCount : UInt64
  pow2 : ∃ j, j ≤ 63 ∧ shardCount.toNat = 2 ^ j

/-- `NewMemoryTracerWithShards`. -/
def newMemoryTracerWithShards (shardCount : Int64) : MemoryTracer :=
  { shards := fun _ => TracerShard.new
    shardCount := roundPow2 (if shardCount ≤ 0 then 1 else shardCount).toUInt64
    pow2 := by
      have hnn : 0 ≤ (if shardCount ≤ 0 then 1 else shardCount) := by
        split
        · decide
        next h => exact Int64.le_of_lt (Int64.not_le.mp h)
      obtain ⟨j, hj, hval, -⟩ := roundPow2_spec (toUInt64_le_of_nonneg hnn)
      exact ⟨j, hj, hval⟩ }

namespace MemoryTracer

/-- The FNV-like hash of `pickShard`, over the bytes of the name. -/
def hash (name : String) : UInt64 :=
  name.toUTF8.data.foldl (fun h b => (h ^^^ b.toUInt64) * 1099511628211) 14695981039346656037

/-- `pickShard`, as the index into `shards`. -/
def pickShard (t : MemoryTracer) (name : String) : Nat := (hash name &&& (t.shardCount - 1)).toNat

/-- `addRecord`, run without interruption. -/
def addRecord (t : MemoryTracer) (r : Request) (pooled : TracingBucket × TracingBucket) :
    MemoryTracer :=
  let j := t.pickShard r.name
  let shard := t.shards j
  { t with shards := Function.update t.shards j (shard.aggregate shard.active r pooled) }

/-- One statement for every shard of the slice. -/
def forShards (t : MemoryTracer) (f : TracerShard → TracerShard) : MemoryTracer :=
  { t with shards := fun j => if j < t.shardCount.toNat then f (t.shards j) else t.shards j }

/-- `Flush`, run without interruption: all shards are switched, then all are harvested. -/
def flush (t : MemoryTracer) : List TracingRecord × MemoryTracer :=
  let switched := t.forShards fun shard => shard.clearIdle.switch
  ((List.range t.shardCount.toNat).flatMap fun j => (switched.shards j).harvested,
    switched.forShards TracerShard.clearIdle)

theorem pickShard_lt (t : MemoryTracer) (name : String) : t.pickShard name < t.shardCount.toNat := by
  obtain ⟨j, -, hj⟩ := t.pow2
  unfold pickShard
  rw [mask_toNat hj, hj]
  exact Nat.mod_lt _ (Nat.two_pow_pos j)

end MemoryTracer

end Robot.Report
