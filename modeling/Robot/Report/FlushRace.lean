import Robot.Lib.Machine
import Robot.Report.Tracing

/-!
# `Flush` under load

`addRecord` loads the index of the active bank and only then locks that bank. `Flush`
clears the idle bank of each shard, makes it the active one, and after that harvests the
old ones. A writer that sleeps between its load and its lock can therefore write into a
bank that is no longer active. Whether its record survives depends on where `Flush` is:

* between the clear of a shard's idle bank and the harvest of its old bank, both banks of
  the shard will still be harvested;
* otherwise the idle bank has been harvested and the next thing that happens to it is
  `newBank.clear()`: the record is lost.

`rests` is the second situation, and the account in `step_account` is exact: the records
returned, plus those in a bank that will be harvested, plus the calls still in flight,
equal the calls made minus the aggregations into a resting idle bank. So once everything
has been flushed the count is right iff there was no such aggregation.
-/

namespace Robot.Report

open Robot.Lib Function List

/-- Where the flushing goroutine is: the statement it executes next, and on which shard. -/
inductive FlushPc where
  | idle
  | clear (j : Nat)
  | switch (j : Nat)
  | harvest (j : Nat)
  deriving DecidableEq

/-- A tracer shared by any number of `addRecord` calls and one flushing goroutine.
`pending` are the calls that have loaded a bank index and not locked the bank yet;
`collected` is `allRecords` of the running `Flush`. -/
structure FlushState where
  tracer : MemoryTracer
  pc : FlushPc
  pending : List (Request × Fin 2)
  collected : List TracingRecord
  returned : List (List TracingRecord)

inductive FlushAct where
  /-- a new `addRecord` call loads `shard.active` -/
  | load (r : Request)
  /-- the `i`-th pending call locks its bank and aggregates -/
  | aggregate (i : Nat) (pooled : TracingBucket × TracingBucket)
  /-- the next statement of `Flush` -/
  | flush

def MemoryTracer.setShard (t : MemoryTracer) (j : Nat) (s : TracerShard) : MemoryTracer :=
  { t with shards := update t.shards j s }

/-- The next statement of `Flush`. -/
def flushStep (st : FlushState) : FlushState :=
  let t := st.tracer
  match st.pc with
  | .idle => { st with pc := .clear 0, collected := [] }
  | .clear j => { st with tracer := t.setShard j (t.shards j).clearIdle, pc := .switch j }
  | .switch j =>
    { st with
      tracer := t.setShard j (t.shards j).switch
      pc := if j + 1 < t.shardCount.toNat then .clear (j + 1) else .harvest 0 }
  | .harvest j =>
    let collected := st.collected ++ (t.shards j).harvested
    let tracer := t.setShard j (t.shards j).clearIdle
    if j + 1 < t.shardCount.toNat then
      { st with tracer := tracer, pc := .harvest (j + 1), collected := collected }
    else
      { st with tracer := tracer, pc := .idle, collected := []
                returned := st.returned ++ [collected] }

def raceStep (st : FlushState) : FlushAct → Option FlushState
  | .load r =>
    let shard := st.tracer.shards (st.tracer.pickShard r.name)
    some { st with pending := st.pending ++ [(r, shard.active)] }
  | .aggregate i pooled =>
    match st.pending[i]? with
    | none => none
    | some (r, bankIdx) =>
      let j := st.tracer.pickShard r.name
      some
        { st with
          tracer := st.tracer.setShard j ((st.tracer.shards j).aggregate bankIdx r pooled)
          pending := st.pending.eraseIdx i }
  | .flush => some (flushStep st)

def raceInit (t : MemoryTracer) : FlushState :=
  { tracer := t, pc := .idle, pending := [], collected := [], returned := [] }

/-- The sum of `Count` over the end records. -/
def endCount (records : List TracingRecord) : Int :=
  (records.map fun r => if r.startData then 0 else r.count).sum

/-- The idle bank of shard `j` has been harvested and will be cleared before it is active. -/
def FlushPc.rests : FlushPc → Nat → Bool
  | .idle, _ => true
  | .clear i, j => decide (i ≤ j)
  | .switch i, j => decide (i < j)
  | .harvest i, j => decide (j < i)

/-- The aggregation goes into the idle bank of a shard that rests. -/
def lost (st : FlushState) : FlushAct → Bool
  | .aggregate i _ =>
    match st.pending[i]? with
    | none => false
    | some (r, bankIdx) =>
      let j := st.tracer.pickShard r.name
      decide (bankIdx ≠ (st.tracer.shards j).active) && st.pc.rests j
  | _ => false

/-! ## Counting one bank -/

/-- What a bucket contributes to the end count. -/
def endWeight (key : TracingBucketKey) (bk : TracingBucket) : Int :=
  if key.startData then 0 else bk.count

theorem endCount_append (l₁ l₂ : List TracingRecord) :
    endCount (l₁ ++ l₂) = endCount l₁ + endCount l₂ := by
  unfold endCount
  rw [map_append, sum_append]

/-- `snapshot` drops only empty buckets. -/
theorem endCount_snapshot (bank : TracingBank) :
    endCount (TracingBank.snapshot bank) = bank.weigh endWeight := by
  unfold TracingBank.snapshot Grouped.weigh
  induction bank.order with
  | nil => rfl
  | cons key order ih =>
    rw [map_cons, sum_cons, ← ih]
    cases hb : bank.buckets key with
    | none => simp [hb, endCount]
    | some bk =>
      by_cases h0 : bk.count = 0
      · simp [hb, h0, endWeight]
      · rw [filterMap_cons_some (b := bk.record key) (by simp [hb, h0])]
        unfold endCount endWeight TracingBucket.record
        cases key.startData <;> simp

/-- Every `addRecord` adds one end record. -/
theorem weigh_addRecord (bank : TracingBank) (r : Request) (pooled : TracingBucket × TracingBucket) :
    (TracingBank.addRecord bank r pooled).weigh endWeight = bank.weigh endWeight + 1 := by
  unfold TracingBank.addRecord
  rw [Grouped.weigh_upsert _ _ _ _ _ (by simp [endWeight, Request.startKey]),
    Grouped.weigh_upsert _ _ _ _ _ (by simp [endWeight, TracingBucket.reset])]
  simp [endWeight, Request.startKey, Request.endKey, TracingBucket.updateEnd]

/-! ## Counting one shard -/

namespace TracerShard

/-- The end count of one bank. -/
def weight (s : TracerShard) (b : Fin 2) : Int := (s.banks b).weigh endWeight

theorem other_of_ne {a b : Fin 2} (h : b ≠ a) : b = 1 - a := by
  revert a b
  decide

theorem other_ne (a : Fin 2) : 1 - a ≠ a := by
  revert a
  decide

theorem other_other (a : Fin 2) : 1 - (1 - a) = a := by
  revert a
  decide

theorem weight_aggregate (s : TracerShard) (b b' : Fin 2) (r : Request)
    (pooled : TracingBucket × TracingBucket) :
    (s.aggregate b r pooled).weight b' = s.weight b' + if b' = b then 1 else 0 := by
  show (update s.banks b (TracingBank.addRecord (s.banks b) r pooled) b').weigh endWeight
    = (s.banks b').weigh endWeight + _
  by_cases h : b' = b
  · subst h
    rw [update_self, weigh_addRecord, if_pos rfl]
  · rw [update_of_ne h, if_neg h, Int.add_zero]

theorem weight_clearIdle_active (s : TracerShard) : s.clearIdle.weight s.active = s.weight s.active := by
  show (update s.banks (1 - s.active) Grouped.empty s.active).weigh endWeight = _
  rw [update_of_ne (other_ne s.active).symm]
  rfl

theorem weight_clearIdle_idle (s : TracerShard) : s.clearIdle.weight (1 - s.active) = 0 := by
  show (update s.banks (1 - s.active) Grouped.empty (1 - s.active)).weigh endWeight = 0
  rw [update_self, Grouped.weigh_empty]

/-- What a shard will still give to a `Flush`: its active bank, and its idle bank unless it
rests. -/
def held (s : TracerShard) (rests : Bool) : Int :=
  s.weight s.active + if rests then 0 else s.weight s.idle

theorem held_eq (s : TracerShard) (rests : Bool) :
    s.held rests = s.weight s.active + if rests then 0 else s.weight (1 - s.active) := rfl

end TracerShard

/-! ## Counting all of them -/

/-- A sum over the shards of which one changes. -/
theorem sum_change {f g : Nat → Int} {p j : Nat} (hj : j < p)
    (hoff : ∀ i < p, i ≠ j → f i = g i) :
    ∑ i ∈ Finset.range p, f i = ∑ i ∈ Finset.range p, g i + (f j - g j) := by
  have hmem : j ∈ Finset.range p := Finset.mem_range.mpr hj
  have hrest : ∑ i ∈ (Finset.range p).erase j, f i = ∑ i ∈ (Finset.range p).erase j, g i := by
    refine Finset.sum_congr rfl fun i hi => ?_
    rw [Finset.mem_erase, Finset.mem_range] at hi
    exact hoff i hi.2 hi.1
  rw [← Finset.add_sum_erase _ f hmem, ← Finset.add_sum_erase _ g hmem, hrest]
  omega

/-- The records still to be harvested. -/
def heldAll (st : FlushState) : Int :=
  ∑ j ∈ Finset.range st.tracer.shardCount.toNat, (st.tracer.shards j).held (st.pc.rests j)

/-- Returned, still to come, and still in flight. -/
def account (st : FlushState) : Int :=
  endCount st.returned.flatten + endCount st.collected + heldAll st + st.pending.length

/-- What a step adds to the account: a new call is one more, a lost record one less. -/
def gain (st : FlushState) : FlushAct → Int
  | .load _ => 1
  | .aggregate i pooled => if lost st (.aggregate i pooled) then -1 else 0
  | .flush => 0

/-- The flushing goroutine is at a shard that exists, and has collected nothing while idle. -/
def FlushState.Placed (st : FlushState) : Prop :=
  match st.pc with
  | .idle => st.collected = []
  | .clear j | .switch j | .harvest j => j < st.tracer.shardCount.toNat

variable (t : MemoryTracer)

theorem shardCount_pos : 0 < t.shardCount.toNat := by
  obtain ⟨j, -, hj⟩ := t.pow2
  rw [hj]
  exact Nat.two_pow_pos j

/-- One shard changes, the goroutine moves on: how the sum over the shards changes. -/
theorem heldAll_change {st st' : FlushState} {j : Nat} {s : TracerShard}
    (ht : st'.tracer = st.tracer.setShard j s) (hj : j < st.tracer.shardCount.toNat)
    (hoff : ∀ i < st.tracer.shardCount.toNat, i ≠ j → st'.pc.rests i = st.pc.rests i) :
    heldAll st' = heldAll st
      + (s.held (st'.pc.rests j) - (st.tracer.shards j).held (st.pc.rests j)) := by
  have hcount : st'.tracer.shardCount = st.tracer.shardCount := by rw [ht]; rfl
  have hat : st'.tracer.shards j = s := by rw [ht]; exact update_self ..
  unfold heldAll
  rw [hcount, sum_change hj (g := fun i => (st.tracer.shards i).held (st.pc.rests i)) ?_, hat]
  intro i hi hne
  have hsame : st'.tracer.shards i = st.tracer.shards i := by
    rw [ht]
    exact update_of_ne hne ..
  rw [hsame, hoff i hi hne]

theorem account_aggregate {st : FlushState} {i : Nat} {r : Request} {b : Fin 2}
    (pooled : TracingBucket × TracingBucket) (hp : st.pending[i]? = some (r, b)) :
    account
        { st with
          tracer := st.tracer.setShard (st.tracer.pickShard r.name)
            ((st.tracer.shards (st.tracer.pickShard r.name)).aggregate b r pooled)
          pending := st.pending.eraseIdx i }
      = account st + gain st (.aggregate i pooled) := by
  have hj := st.tracer.pickShard_lt r.name
  have hheld := @heldAll_change st
    { st with
      tracer := st.tracer.setShard (st.tracer.pickShard r.name)
        ((st.tracer.shards (st.tracer.pickShard r.name)).aggregate b r pooled)
      pending := st.pending.eraseIdx i } _ _ rfl hj (fun _ _ _ => rfl)
  have hlen : ((st.pending.eraseIdx i).length : Int) = st.pending.length - 1 := by
    have hi : i < st.pending.length := (List.getElem?_eq_some_iff.mp hp).1
    rw [length_eraseIdx_of_lt hi]
    omega
  have hlost : lost st (.aggregate i pooled)
      = (decide (b ≠ (st.tracer.shards (st.tracer.pickShard r.name)).active)
        && st.pc.rests (st.tracer.pickShard r.name)) := by
    unfold lost
    simp only [hp]
  have hgain : gain st (.aggregate i pooled)
      = if lost st (.aggregate i pooled) then -1 else 0 := rfl
  unfold account
  rw [hheld, hgain, hlost]
  simp only [hlen]
  generalize st.tracer.shards (st.tracer.pickShard r.name) = shard
  -- the bank written is the active one, or the idle one
  have hact : (shard.aggregate b r pooled).active = shard.active := rfl
  simp only [TracerShard.held_eq]
  rw [hact, TracerShard.weight_aggregate, TracerShard.weight_aggregate]
  by_cases hb : b = shard.active
  · subst hb
    simp only [if_neg (TracerShard.other_ne shard.active), if_true, ne_eq, not_true_eq_false,
      decide_false, Bool.false_and, Bool.false_eq_true, if_false, Int.add_zero]
    generalize shard.weight shard.active = x
    omega
  · have hother := TracerShard.other_of_ne hb
    have hne : ¬ shard.active = b := fun h => hb h.symm
    rw [if_neg hne, if_pos hother.symm]
    cases st.pc.rests (st.tracer.pickShard r.name) <;> simp [hb] <;> omega

/-- A statement of `Flush` on shard `j` that hands over `c` records keeps the account if the
shard holds `c` fewer. -/
theorem account_shard {st st' : FlushState} {j : Nat} {s : TracerShard} {c : Int}
    (ht : st'.tracer = st.tracer.setShard j s) (hj : j < st.tracer.shardCount.toNat)
    (hoff : ∀ i < st.tracer.shardCount.toNat, i ≠ j → st'.pc.rests i = st.pc.rests i)
    (hpend : st'.pending = st.pending)
    (hout : endCount st'.returned.flatten + endCount st'.collected
      = endCount st.returned.flatten + endCount st.collected + c)
    (hheld : c + s.held (st'.pc.rests j) = (st.tracer.shards j).held (st.pc.rests j)) :
    account st' = account st := by
  unfold account
  rw [heldAll_change ht hj hoff, hpend]
  omega

theorem held_clearIdle (s : TracerShard) (b : Bool) :
    s.clearIdle.held b = s.held true := by
  simp only [TracerShard.held_eq]
  have hact : s.clearIdle.active = s.active := rfl
  rw [hact, s.weight_clearIdle_active, s.weight_clearIdle_idle]
  cases b <;> simp

theorem held_switch (s : TracerShard) : s.switch.held false = s.held false := by
  simp only [TracerShard.held_eq]
  show s.weight (1 - s.active) + s.weight (1 - (1 - s.active)) = s.weight s.active + _
  rw [TracerShard.other_other]
  exact Int.add_comm _ _

theorem held_harvest (s : TracerShard) : endCount s.harvested + s.held true = s.held false := by
  unfold TracerShard.harvested TracerShard.held
  rw [endCount_snapshot]
  show s.weight (1 - s.active) + (s.weight s.active + 0) = s.weight s.active + _
  rw [Int.add_zero]
  exact Int.add_comm _ _

/-- **The statements of `Flush` move records along and drop none**: what is cleared first was
resting, and what is cleared last has just been collected. -/
theorem account_flush {st : FlushState} (hp : st.Placed) :
    (flushStep st).Placed ∧ account (flushStep st) = account st := by
  unfold FlushState.Placed at hp
  unfold flushStep
  cases hpc : st.pc with
  | idle =>
    rw [hpc] at hp
    refine ⟨shardCount_pos st.tracer, ?_⟩
    have hrest : ∀ j, FlushPc.rests (.clear 0) j = FlushPc.rests .idle j := by
      intro j
      exact decide_eq_true (Nat.zero_le j)
    unfold account heldAll
    simp only [hrest, hpc, hp]
  | clear j =>
    rw [hpc] at hp
    refine ⟨hp, account_shard (c := 0) rfl hp ?_ rfl (Int.add_zero _).symm ?_⟩
    · intro i _ hne
      rw [hpc]
      show decide (j < i) = decide (j ≤ i)
      exact decide_eq_decide.mpr ⟨fun h => by omega, fun h => by omega⟩
    · have hr : st.pc.rests j = true := by rw [hpc]; exact decide_eq_true (Nat.le_refl j)
      rw [hr, held_clearIdle, Int.zero_add]
  | switch j =>
    rw [hpc] at hp
    have hr : st.pc.rests j = false := by rw [hpc]; exact decide_eq_false (Nat.lt_irrefl j)
    by_cases hlast : j + 1 < st.tracer.shardCount.toNat
    · simp only [if_pos hlast]
      refine ⟨hlast, account_shard (c := 0) rfl hp ?_ rfl (Int.add_zero _).symm ?_⟩
      · intro i _ hne
        rw [hpc]
        show decide (j + 1 ≤ i) = decide (j < i)
        rfl
      · show 0 + (st.tracer.shards j).switch.held (decide (j + 1 ≤ j)) = _
        rw [hr, decide_eq_false (by omega), held_switch, Int.zero_add]
    · simp only [if_neg hlast]
      refine ⟨shardCount_pos st.tracer, account_shard (c := 0) rfl hp ?_ rfl (Int.add_zero _).symm ?_⟩
      · intro i hi hne
        rw [hpc]
        show decide (i < 0) = decide (j < i)
        exact decide_eq_decide.mpr ⟨fun h => by omega, fun h => by omega⟩
      · show 0 + (st.tracer.shards j).switch.held (decide (j < 0)) = _
        rw [hr, decide_eq_false (by omega), held_switch, Int.zero_add]
  | harvest j =>
    rw [hpc] at hp
    have hr : st.pc.rests j = false := by rw [hpc]; exact decide_eq_false (Nat.lt_irrefl j)
    by_cases hlast : j + 1 < st.tracer.shardCount.toNat
    · simp only [if_pos hlast]
      refine ⟨hlast, account_shard (c := endCount (st.tracer.shards j).harvested)
        rfl hp ?_ rfl ?_ ?_⟩
      · intro i _ hne
        rw [hpc]
        show decide (i < j + 1) = decide (i < j)
        exact decide_eq_decide.mpr ⟨fun h => by omega, fun h => by omega⟩
      · show endCount st.returned.flatten
          + endCount (st.collected ++ (st.tracer.shards j).harvested) = _
        rw [endCount_append]
        omega
      · rw [hr, held_clearIdle, held_harvest]
    · simp only [if_neg hlast]
      refine ⟨rfl, account_shard (c := endCount (st.tracer.shards j).harvested)
        rfl hp ?_ rfl ?_ ?_⟩
      · intro i hi hne
        rw [hpc]
        show true = decide (i < j)
        exact (decide_eq_true (by omega)).symm
      · show endCount (st.returned ++ [st.collected ++ (st.tracer.shards j).harvested]).flatten
          + endCount [] = _
        rw [flatten_append, flatten_singleton, endCount_append, endCount_append]
        show _ + 0 = _
        omega
      · rw [hr, held_clearIdle, held_harvest]

/-- **One step of the account**, exact in every state. -/
theorem step_account (st : FlushState) (a : FlushAct) (st' : FlushState) (hp : st.Placed)
    (hstep : raceStep st a = some st') : st'.Placed ∧ account st' = account st + gain st a := by
  cases a with
  | load r =>
    simp only [raceStep, Option.some.injEq] at hstep
    subst hstep
    refine ⟨hp, ?_⟩
    unfold account
    show _ + _ + heldAll st + ((st.pending ++ [_]).length : Int) = _ + 1
    rw [length_append, length_singleton]
    push_cast
    omega
  | aggregate i pooled =>
    simp only [raceStep] at hstep
    split at hstep
    next => simp at hstep
    next r b hpend =>
      rw [Option.some.injEq] at hstep
      subst hstep
      exact ⟨hp, account_aggregate pooled hpend⟩
  | flush =>
    simp only [raceStep, Option.some.injEq] at hstep
    subst hstep
    obtain ⟨hp', hacc⟩ := account_flush hp
    exact ⟨hp', by rw [hacc]; exact (Int.add_zero _).symm⟩

/-! ## An uninterrupted `Flush` -/

/-- All statements of one `Flush` call. -/
def flushCall (t : MemoryTracer) : List FlushAct :=
  List.replicate (1 + 2 * t.shardCount.toNat + t.shardCount.toNat) .flush

/-- The first `k` shards have been through a statement. -/
def MemoryTracer.upTo (t : MemoryTracer) (k : Nat) (f : TracerShard → TracerShard) : MemoryTracer :=
  { t with shards := fun j => if j < k then f (t.shards j) else t.shards j }

theorem upTo_shards (k j : Nat) (f : TracerShard → TracerShard) :
    (t.upTo k f).shards j = if j < k then f (t.shards j) else t.shards j := rfl

@[simp] theorem upTo_shardCount (k : Nat) (f : TracerShard → TracerShard) :
    (t.upTo k f).shardCount = t.shardCount := rfl

theorem setShard_shards (k j : Nat) (s : TracerShard) :
    (t.setShard k s).shards j = if j = k then s else t.shards j :=
  update_apply ..

theorem MemoryTracer.ext_shards {t t' : MemoryTracer} (hc : t.shardCount = t'.shardCount)
    (hs : ∀ j, t.shards j = t'.shards j) : t = t' := by
  cases t
  cases t'
  simp only at hc hs
  subst hc
  congr 1
  funext j
  exact hs j

theorem upTo_succ (k : Nat) (f : TracerShard → TracerShard) :
    (t.upTo k f).setShard k (f (t.shards k)) = t.upTo (k + 1) f := by
  refine MemoryTracer.ext_shards rfl fun j => ?_
  rw [setShard_shards, upTo_shards, upTo_shards]
  by_cases hj : j = k
  · rw [if_pos hj, if_pos (by omega), hj]
  · rw [if_neg hj]
    by_cases hlt : j < k
    · rw [if_pos hlt, if_pos (by omega)]
    · rw [if_neg hlt, if_neg (by omega)]

theorem run_flush (n : Nat) : ∀ st : FlushState,
    run raceStep st (List.replicate n .flush) = some (flushStep^[n] st) := by
  induction n with
  | zero => intro st; rfl
  | succ n ih =>
    intro st
    rw [replicate_succ, run_cons]
    exact ⟨flushStep st, rfl, ih _⟩

/-- One turn of the first loop; `pc` is where it goes next. -/
theorem flushStep_turn (st : FlushState) {j : Nat} {pc : FlushPc} (hpc : st.pc = .clear j)
    (hnext : (if j + 1 < st.tracer.shardCount.toNat then .clear (j + 1) else .harvest 0) = pc) :
    flushStep (flushStep st)
      = { st with
          tracer := st.tracer.setShard j (st.tracer.shards j).clearIdle.switch
          pc := pc } := by
  have hfirst : flushStep st
      = { st with tracer := st.tracer.setShard j (st.tracer.shards j).clearIdle, pc := .switch j } := by
    unfold flushStep
    rw [hpc]
  have hself : (st.tracer.setShard j (st.tracer.shards j).clearIdle).shards j
      = (st.tracer.shards j).clearIdle := by rw [setShard_shards, if_pos rfl]
  have htwice : (st.tracer.setShard j (st.tracer.shards j).clearIdle).setShard j
      (st.tracer.shards j).clearIdle.switch
      = st.tracer.setShard j (st.tracer.shards j).clearIdle.switch := by
    refine MemoryTracer.ext_shards rfl fun i => ?_
    rw [setShard_shards, setShard_shards, setShard_shards]
    by_cases hi : i = j
    · rw [if_pos hi, if_pos hi]
    · rw [if_neg hi, if_neg hi, if_neg hi]
  have hsecond : flushStep
      { st with tracer := st.tracer.setShard j (st.tracer.shards j).clearIdle, pc := .switch j }
      = { st with
          tracer := (st.tracer.setShard j (st.tracer.shards j).clearIdle).setShard j
            ((st.tracer.setShard j (st.tracer.shards j).clearIdle).shards j).switch
          pc := if j + 1 < st.tracer.shardCount.toNat then .clear (j + 1) else .harvest 0 } := rfl
  rw [hfirst, hsecond, hself, htwice, hnext]

/-- The first loop, `k` turns in. -/
theorem iterate_switch (st : FlushState) (hpc : st.pc = .clear 0) : ∀ k,
    k < st.tracer.shardCount.toNat →
    flushStep^[2 * k] st
      = { st with tracer := st.tracer.upTo k (·.clearIdle.switch), pc := .clear k } := by
  intro k
  induction k with
  | zero =>
    intro _
    have hsame : st.tracer.upTo 0 (·.clearIdle.switch) = st.tracer := rfl
    rw [hsame, ← hpc]
    rfl
  | succ k ih =>
    intro hk
    have hself : (st.tracer.upTo k (·.clearIdle.switch)).shards k = st.tracer.shards k :=
      if_neg (Nat.lt_irrefl k)
    have hturn := flushStep_turn
      { st with tracer := st.tracer.upTo k (·.clearIdle.switch), pc := .clear k } rfl (if_pos hk)
    rw [show 2 * (k + 1) = 2 * k + 1 + 1 by omega, iterate_succ_apply',
      iterate_succ_apply', ih (by omega), hturn]
    simp only [hself, upTo_succ]

/-- The second loop, `k` turns in. -/
theorem iterate_harvest (st : FlushState) (hpc : st.pc = .harvest 0) : ∀ k,
    k < st.tracer.shardCount.toNat →
    flushStep^[k] st
      = { st with
          tracer := st.tracer.upTo k TracerShard.clearIdle
          pc := .harvest k
          collected := st.collected
            ++ (List.range k).flatMap fun j => (st.tracer.shards j).harvested } := by
  intro k
  induction k with
  | zero =>
    intro _
    have hsame : st.tracer.upTo 0 TracerShard.clearIdle = st.tracer := rfl
    rw [hsame, range_zero, flatMap_nil, append_nil, ← hpc]
    rfl
  | succ k ih =>
    intro hk
    have hself : (st.tracer.upTo k TracerShard.clearIdle).shards k = st.tracer.shards k :=
      if_neg (Nat.lt_irrefl k)
    rw [iterate_succ_apply', ih (by omega)]
    unfold flushStep
    simp only [hself, upTo_succ, upTo_shardCount]
    rw [if_pos hk, range_succ, flatMap_append, flatMap_singleton,
      ← append_assoc]

/-- **A `Flush` that nobody interrupts** is the sequential one. -/
theorem flush_run {st : FlushState} (hpc : st.pc = .idle) :
    run raceStep st (flushCall st.tracer)
      = some
        { st with
          tracer := st.tracer.flush.2
          collected := []
          returned := st.returned ++ [st.tracer.flush.1] } := by
  obtain ⟨p, hp⟩ : ∃ p, st.tracer.shardCount.toNat = p + 1 :=
    ⟨st.tracer.shardCount.toNat - 1, by have := shardCount_pos st.tracer; omega⟩
  have hstart : flushStep st = { st with pc := .clear 0, collected := [] } := by
    unfold flushStep
    rw [hpc]
  have hswitched : flushStep^[2 * p + 1 + 1] { st with pc := .clear 0, collected := [] }
      = { st with
          tracer := st.tracer.upTo (p + 1) (·.clearIdle.switch)
          pc := .harvest 0
          collected := [] } := by
    have hself : (st.tracer.upTo p (·.clearIdle.switch)).shards p = st.tracer.shards p :=
      if_neg (Nat.lt_irrefl p)
    have hlast : ¬ p + 1 < st.tracer.shardCount.toNat := by omega
    have hturn := flushStep_turn
      { st with
        tracer := st.tracer.upTo p (·.clearIdle.switch)
        pc := .clear p
        collected := [] } rfl (if_neg hlast)
    rw [iterate_succ_apply', iterate_succ_apply',
      iterate_switch _ rfl p (by show p < st.tracer.shardCount.toNat; omega), hturn]
    simp only [hself, upTo_succ]
  generalize hsw : st.tracer.upTo (p + 1) (·.clearIdle.switch) = t at hswitched
  have hcount : t.shardCount = st.tracer.shardCount := by rw [← hsw]; rfl
  have hharvested : flushStep^[p + 1]
      { st with tracer := t, pc := .harvest 0, collected := [] }
      = { st with
          tracer := t.upTo (p + 1) TracerShard.clearIdle
          pc := .idle
          collected := []
          returned := st.returned ++ [(List.range (p + 1)).flatMap fun j => (t.shards j).harvested] } := by
    have hself : (t.upTo p TracerShard.clearIdle).shards p = t.shards p := if_neg (Nat.lt_irrefl p)
    rw [iterate_succ_apply',
      iterate_harvest _ rfl p (by show p < t.shardCount.toNat; rw [hcount]; omega)]
    unfold flushStep
    simp only [hself, upTo_succ, upTo_shardCount, nil_append]
    rw [if_neg (by rw [hcount]; omega), range_succ, flatMap_append,
      flatMap_singleton]
  -- the two loops over all shards are the two passes of `flush`
  have hpass : st.tracer.flush
      = ((List.range (p + 1)).flatMap fun j => (t.shards j).harvested,
        t.upTo (p + 1) TracerShard.clearIdle) := by
    unfold MemoryTracer.flush MemoryTracer.forShards
    simp only [hp]
    rw [← hsw]
    rfl
  unfold flushCall
  rw [run_flush, Option.some.injEq, hp,
    show 1 + 2 * (p + 1) + (p + 1) = (p + 1) + (2 * p + 1 + 1) + 1 by omega,
    iterate_succ_apply, iterate_add_apply, hstart, hswitched, hharvested, hpass,
    hpc]

/-- After an uninterrupted `Flush` every bank is empty. -/
theorem held_flushed (j : Nat) (hj : j < t.shardCount.toNat) (b : Bool) : (t.flush.2.shards j).held b = 0 := by
  have hshard : t.flush.2.shards j = (t.shards j).clearIdle.switch.clearIdle := by
    unfold MemoryTracer.flush MemoryTracer.forShards
    simp only [hj, if_true]
  rw [hshard, held_clearIdle]
  show (t.shards j).clearIdle.weight (1 - (t.shards j).active) + 0 = 0
  rw [TracerShard.weight_clearIdle_idle, Int.add_zero]

/-! ## The result -/

/-- A step that starts an `addRecord` call. -/
def FlushAct.starts : FlushAct → Int
  | .load _ => 1
  | _ => 0

/-- The number of `addRecord` calls. -/
def calls (acts : List FlushAct) : Int := (acts.map FlushAct.starts).sum

/-- The contributions of a run are its calls, less its losses. -/
theorem sumAlong_gain : ∀ (acts : List FlushAct) {s t : FlushState},
    run raceStep s acts = some t →
    sumAlong raceStep gain s acts ≤ calls acts ∧
      (sumAlong raceStep gain s acts = calls acts ↔
        Along raceStep (fun s a => lost s a = false) s acts) := by
  intro acts
  induction acts with
  | nil => intro s t _; exact ⟨Int.le_refl _, fun _ => trivial, fun _ => rfl⟩
  | cons a acts ih =>
    intro s t hrun
    obtain ⟨s', hs', hrun'⟩ := run_cons.mp hrun
    obtain ⟨hle, hiff⟩ := ih hrun'
    have hcalls : calls (a :: acts) = a.starts + calls acts := by
      unfold calls
      rw [map_cons, sum_cons]
    have hsum : sumAlong raceStep gain s (a :: acts) = gain s a + sumAlong raceStep gain s' acts := by
      simp only [sumAlong, hs']
    have hgain : gain s a = a.starts - if lost s a then 1 else 0 := by
      cases a with
      | load r => rfl
      | aggregate i pooled =>
        show (if lost s (.aggregate i pooled) then -1 else 0) = 0 - _
        split <;> rfl
      | flush => rfl
    have halong : Along raceStep (fun s a => lost s a = false) s (a :: acts) ↔
        lost s a = false ∧ Along raceStep (fun s a => lost s a = false) s' acts := by
      refine ⟨fun h => ⟨h.1, h.2 s' hs'⟩, fun h => ⟨h.1, fun t' ht' => ?_⟩⟩
      rw [hs', Option.some.injEq] at ht'
      exact ht' ▸ h.2
    rw [hcalls, hsum, hgain, halong, ← hiff]
    cases lost s a with
    | false => exact ⟨by simp; omega, by simp⟩
    | true => exact ⟨by simp; omega, by simp; omega⟩

theorem account_init (n : Int64) : account (raceInit (newMemoryTracerWithShards n)) = 0 := by
  unfold account heldAll
  rw [Finset.sum_eq_zero]
  · rfl
  · intro j _
    rfl

theorem account_iterate (n : Nat) : ∀ {st : FlushState}, st.Placed →
    (flushStep^[n] st).Placed ∧ account (flushStep^[n] st) = account st := by
  induction n with
  | zero => intro st hp; exact ⟨hp, rfl⟩
  | succ n ih =>
    intro st hp
    obtain ⟨hp', hacc⟩ := account_flush hp
    obtain ⟨hp'', hacc'⟩ := ih hp'
    rw [iterate_succ_apply]
    exact ⟨hp'', hacc'.trans hacc⟩

/-- A further `Flush` with no call in flight returns all that is still to come. -/
theorem flush_returns_account {st : FlushState} (hp : st.Placed) (hidle : st.pc = .idle)
    (hdone : st.pending = []) :
    ∃ st', run raceStep st (flushCall st.tracer) = some st' ∧ st'.Placed ∧ st'.pc = .idle ∧
      st'.pending = [] ∧ st'.returned.length = st.returned.length + 1 ∧
      flushCall st'.tracer = flushCall st.tracer ∧ account st' = account st ∧
      endCount st'.returned.flatten = account st := by
  have hrun := flush_run hidle
  have hiter := run_flush (1 + 2 * st.tracer.shardCount.toNat + st.tracer.shardCount.toNat) st
  change run raceStep st (flushCall st.tracer) = _ at hiter
  obtain ⟨hp', hacc⟩ :=
    account_iterate (1 + 2 * st.tracer.shardCount.toNat + st.tracer.shardCount.toNat) hp
  rw [hrun, Option.some.injEq] at hiter
  rw [← hiter] at hp' hacc
  refine ⟨_, hrun, hp', hidle, hdone, ?_, rfl, hacc, ?_⟩
  · show (st.returned ++ [_]).length = _
    rw [length_append, length_singleton]
  · rw [← hacc]
    -- nothing is held any more and nothing is in flight
    have hheld : heldAll
        { st with
          tracer := st.tracer.flush.2
          collected := []
          returned := st.returned ++ [st.tracer.flush.1] } = 0 := by
      refine Finset.sum_eq_zero fun j hj => ?_
      exact held_flushed st.tracer j (Finset.mem_range.mp hj) _
    unfold account
    rw [hheld]
    simp only [hdone]
    show _ = _ + 0 + 0 + 0
    omega

/-- **When `Flush` under load loses nothing.** Any run of `addRecord` calls and `Flush` calls on a
new tracer, up to a point where every call has returned; after one further pair of
`Flush` calls the end records returned so far count exactly the calls if and only if no
call aggregated into the idle bank of a resting shard. -/
theorem flush_counts_calls_iff (n : Int64) (acts : List FlushAct) (st : FlushState)
    (hrun : run raceStep (raceInit (newMemoryTracerWithShards n)) acts = some st)
    (hidle : st.pc = .idle) (hdone : st.pending = []) :
    ∃ st', run raceStep st (flushCall st.tracer ++ flushCall st.tracer) = some st' ∧
      st'.pc = .idle ∧ st'.returned.length = st.returned.length + 2 ∧
      (endCount st'.returned.flatten = calls acts ↔
        Along raceStep (fun s a => lost s a = false)
          (raceInit (newMemoryTracerWithShards n)) acts) := by
  obtain ⟨hplaced, hacc⟩ := run_account step_account acts
    (show (raceInit (newMemoryTracerWithShards n)).Placed from rfl) hrun
  rw [account_init, Int.zero_add] at hacc
  obtain ⟨st₁, hrun₁, hp₁, hidle₁, hdone₁, hlen₁, hsame, hacc₁, -⟩ :=
    flush_returns_account hplaced hidle hdone
  obtain ⟨st₂, hrun₂, -, hidle₂, -, hlen₂, -, -, hcount⟩ :=
    flush_returns_account hp₁ hidle₁ hdone₁
  refine ⟨st₂, run_append.mpr ⟨st₁, hrun₁, hsame ▸ hrun₂⟩, hidle₂, by omega, ?_⟩
  rw [hcount, hacc₁, hacc]
  exact (sumAlong_gain acts hrun).2

/-- A request that took 7 ms. -/
def sampleRequest : Request :=
  { name := "login", startSec := 10, endSec := 10, durMs := 7, code := 0, errMsg := "" }

/-- Two calls around a `Flush`: it switches the banks between the load and the lock of the first,
which then writes into the old bank just before its harvest; the second call uses the new bank. -/
def aroundFlush : List FlushAct :=
  [.load sampleRequest, .flush, .flush, .flush, .aggregate 0 (.zero, .zero), .flush,
    .load sampleRequest, .aggregate 0 (.zero, .zero)]

theorem flush_counts_both_calls :
    ∃ st st', run raceStep (raceInit (newMemoryTracerWithShards 1)) aroundFlush = some st ∧
      run raceStep st (flushCall st.tracer ++ flushCall st.tracer) = some st' ∧
      endCount st'.returned.flatten = 2 := by
  obtain ⟨st', hrun', -, -, hiff⟩ := flush_counts_calls_iff 1 aroundFlush _ rfl rfl rfl
  exact ⟨_, st', rfl, hrun', hiff.mpr (by decide +kernel)⟩

/-- The writer sleeps through a whole `Flush` and then writes into the bank that the next
`Flush` clears: one call, no record. -/
theorem flush_loses_late_writer :
    ∃ st st', run raceStep (raceInit (newMemoryTracerWithShards 1))
        [.load sampleRequest, .flush, .flush, .flush, .flush, .aggregate 0 (.zero, .zero)]
          = some st ∧
      st.pc = .idle ∧ st.pending = [] ∧
      run raceStep st (flushCall st.tracer ++ flushCall st.tracer) = some st' ∧
      endCount st'.returned.flatten ≠ calls
        [.load sampleRequest, .flush, .flush, .flush, .flush, .aggregate 0 (.zero, .zero)] := by
  refine ⟨_, _, rfl, rfl, rfl, rfl, ?_⟩
  decide +kernel

end Robot.Report
