import Robot.Report.Compact

/-!
# What a tracing record says about requests

The specification of the aggregation, independent of how it is computed: `EndStats` is what
the duration, code and error fields of an end record must be for a group of requests, and
`Accounts` says a list of records covers a list of requests, each request in exactly one
end record and in exactly one start record, every record describing its own group.

`Accounts` is closed under concatenation and under any reordering of the records. That is
all the compaction needs to know about agents, shards, banks, flushes and the order in
which chunks arrive.
-/

namespace Robot.Report

open Robot.Lib List

/-- The key a request is counted under. -/
def Request.keyOf (start : Bool) (r : Request) : TracingBucketKey :=
  if start then r.startKey else r.endKey

@[simp] theorem keyOf_startData (start : Bool) (r : Request) :
    (r.keyOf start).startData = start := by
  cases start <;> rfl

/-- The durations that occur in a group. -/
def durations (g : List Request) : Set Int := { d | ∃ r ∈ g, r.durMs = d }

/-- The request has error text `e`: a non-empty message with a code other than success. -/
def Request.hasError (e : String) (r : Request) : Bool :=
  decide (r.errMsg = e) && decide (e ≠ "") && decide (r.code ≠ 0)

/-- The duration, code and error statistics of a group of requests. -/
structure EndStats (g : List Request) (total min max : Int) (code : Tally Int)
    (error : Tally String) : Prop where
  total : total = i64 (g.map Request.durMs).sum
  min : IsLeast (durations g) min
  max : IsGreatest (durations g) max
  code : code.Counts fun c => g.countP fun r => r.code = c
  error : error.Counts fun e => g.countP (Request.hasError e)

/-- The statistics of a record. -/
def TracingRecord.Stats (r : TracingRecord) (g : List Request) : Prop :=
  EndStats g r.totalDurationMs r.minDurationMs r.maxDurationMs r.code r.error

/-- The record describes exactly this group. -/
structure Summarises (rec : TracingRecord) (g : List Request) : Prop where
  ne : g ≠ []
  key : ∀ r ∈ g, r.keyOf rec.startData = rec.key
  count : rec.count = g.length
  stats : rec.startData = false → rec.Stats g

/-- The records cover the requests: once as ends, once as starts. -/
def Accounts (recs : List TracingRecord) (reqs : List Request) : Prop :=
  ∃ groups : List (TracingRecord × List Request),
    groups.map Prod.fst = recs ∧ (∀ p ∈ groups, Summarises p.1 p.2) ∧
    ∀ start : Bool,
      (((groups.filter fun p => p.1.startData = start).map Prod.snd).flatten).Perm reqs

theorem accounts_nil : Accounts [] [] :=
  ⟨[], rfl, by simp, fun _ => .refl _⟩

theorem Accounts.append {recs₁ recs₂ : List TracingRecord} {reqs₁ reqs₂ : List Request}
    (h₁ : Accounts recs₁ reqs₁) (h₂ : Accounts recs₂ reqs₂) :
    Accounts (recs₁ ++ recs₂) (reqs₁ ++ reqs₂) := by
  obtain ⟨g₁, hrec₁, hsum₁, hperm₁⟩ := h₁
  obtain ⟨g₂, hrec₂, hsum₂, hperm₂⟩ := h₂
  refine ⟨g₁ ++ g₂, by rw [map_append, hrec₁, hrec₂], ?_, ?_⟩
  · intro p hp
    rcases mem_append.mp hp with hp | hp
    · exact hsum₁ p hp
    · exact hsum₂ p hp
  · intro start
    rw [filter_append, map_append, flatten_append]
    exact (hperm₁ start).append (hperm₂ start)

theorem Accounts.perm_requests {recs : List TracingRecord} {reqs reqs' : List Request}
    (h : Accounts recs reqs) (hp : reqs.Perm reqs') : Accounts recs reqs' := by
  obtain ⟨g, hrec, hsum, hperm⟩ := h
  exact ⟨g, hrec, hsum, fun start => (hperm start).trans hp⟩

/-- **The order of the records does not matter.** -/
theorem Accounts.perm_records {recs recs' : List TracingRecord} {reqs : List Request}
    (h : Accounts recs reqs) (hp : recs.Perm recs') : Accounts recs' reqs := by
  obtain ⟨g, hrec, hsum, hperm⟩ := h
  -- the groups can be reordered along with their records
  have hcomp : Relation.Comp (· = List.map Prod.fst ·) List.Perm recs' g := by
    rw [eq_map_comp_perm]
    show recs'.Perm (g.map Prod.fst)
    rw [hrec]
    exact hp.symm
  obtain ⟨g', hrec', hg'⟩ := hcomp
  refine ⟨g', hrec'.symm, fun p hp => hsum p (hg'.mem_iff.mp hp), fun start => ?_⟩
  exact (((hg'.filter _).map _).flatten).trans (hperm start)

/-! ## Statistics only depend on the group up to order -/

theorem durations_perm {g g' : List Request} (hp : g.Perm g') : durations g = durations g' := by
  ext d
  exact ⟨fun ⟨r, hr, hd⟩ => ⟨r, hp.mem_iff.mp hr, hd⟩, fun ⟨r, hr, hd⟩ => ⟨r, hp.mem_iff.mpr hr, hd⟩⟩

theorem EndStats.perm {g g' : List Request} {total min max : Int} {code : Tally Int}
    {error : Tally String} (h : EndStats g total min max code error) (hp : g.Perm g') :
    EndStats g' total min max code error := by
  refine ⟨?_, ?_, ?_, ?_, ?_⟩
  · rw [h.total, (hp.map _).sum_eq]
  · rw [← durations_perm hp]; exact h.min
  · rw [← durations_perm hp]; exact h.max
  · have hc := h.code
    simp only [hp.countP_eq] at hc
    exact hc
  · have he := h.error
    simp only [hp.countP_eq] at he
    exact he

theorem durations_append (g h : List Request) :
    durations (g ++ h) = durations g ∪ durations h := by
  ext d
  constructor
  · intro hd
    obtain ⟨r, hr, hrd⟩ := hd
    rcases mem_append.mp hr with hr | hr
    · exact Or.inl ⟨r, hr, hrd⟩
    · exact Or.inr ⟨r, hr, hrd⟩
  · intro hd
    rcases hd with ⟨r, hr, hrd⟩ | ⟨r, hr, hrd⟩
    · exact ⟨r, mem_append_left _ hr, hrd⟩
    · exact ⟨r, mem_append_right _ hr, hrd⟩

theorem durations_singleton (r : Request) : durations [r] = {r.durMs} := by
  ext d
  simp [durations, eq_comm]

/-! ## Accumulators with a sentinel

Both accumulators start a minimum at `-1` and a maximum at `0` before anything was added. -/

/-- The statistics of a group that may still be empty. -/
structure Tracks (g : List Request) (total min max : Int) (code : Tally Int)
    (error : Tally String) : Prop where
  total : total = i64 (g.map Request.durMs).sum
  min : (g = [] ∧ min = -1) ∨ IsLeast (durations g) min
  max : (g = [] ∧ max = 0) ∨ IsGreatest (durations g) max
  code : code.Counts fun c => g.countP fun r => r.code = c
  error : error.Counts fun e => g.countP (Request.hasError e)

theorem tracks_nil : Tracks [] 0 (-1) 0 ∅ ∅ where
  total := rfl
  min := Or.inl ⟨rfl, rfl⟩
  max := Or.inl ⟨rfl, rfl⟩
  code := Tally.counts_empty
  error := Tally.counts_empty

theorem Tracks.endStats {g : List Request} {total min max : Int} {code : Tally Int}
    {error : Tally String} (h : Tracks g total min max code error) (hne : g ≠ []) :
    EndStats g total min max code error where
  total := h.total
  min := h.min.resolve_left fun hnil => hne hnil.1
  max := h.max.resolve_left fun hnil => hne hnil.1
  code := h.code
  error := h.error

/-- The minimum update: the sentinel gives way to anything. -/
theorem least_append {g h : List Request} {a m : Int} (hg : ∀ r ∈ g, 0 ≤ r.durMs)
    (ha : (g = [] ∧ a = -1) ∨ IsLeast (durations g) a) (hm : IsLeast (durations h) m) :
    IsLeast (durations (g ++ h)) (if a < 0 ∨ m < a then m else a) := by
  rcases ha with ⟨hnil, ha⟩ | ha
  · rw [if_pos (Or.inl (by omega)), hnil]
    exact hm
  · -- a least duration is not negative, so only the comparison counts
    obtain ⟨r, hr, hra⟩ := ha.1
    have h0 : 0 ≤ a := hra ▸ hg r hr
    have hmin : (if a < 0 ∨ m < a then m else a) = Min.min a m := by
      split
      · omega
      · omega
    rw [hmin, durations_append]
    exact ha.union hm

/-- The maximum update. -/
theorem greatest_append {g h : List Request} {a m : Int} (hh : ∀ r ∈ h, 0 ≤ r.durMs)
    (ha : (g = [] ∧ a = 0) ∨ IsGreatest (durations g) a) (hm : IsGreatest (durations h) m) :
    IsGreatest (durations (g ++ h)) (if m > a then m else a) := by
  have hmax : (if m > a then m else a) = Max.max a m := by
    split
    · omega
    · omega
  rw [hmax, durations_append]
  rcases ha with ⟨hnil, ha⟩ | ha
  · obtain ⟨r, hr, hrm⟩ := hm.1
    have h0 : 0 ≤ m := hrm ▸ hh r hr
    have hcur : Max.max a m = m := by omega
    rw [hcur, ← durations_append, hnil]
    exact hm
  · exact ha.union hm

end Robot.Report
