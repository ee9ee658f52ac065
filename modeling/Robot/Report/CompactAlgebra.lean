import Robot.Lib.KeySort
import Robot.Report.Figures
import Robot.Report.Traced

/-!
# Compaction is a homomorphism

Agents send their records in any order, and a report can be compacted in several stages. For
records with proper minima (`MinDurationMs >= 0`)

* the order of the records does not matter (`compact_perm`);
* compacting parts first gives the same records in every field but the variance
  (`compact_append`), which loses its fraction at each stage;
* compacting twice is compacting once, in every field (`compact_idem`);
* the result is strictly sorted by second, name and end before start (`compact_before`),
  although the comparator of the sort is not a strict order: on two records of the same second
  and name it only asks whether the first is an end record. It is never asked about two
  records with one key, because there are none (`compact_nodup`).

The records of a key come out as one function of the list of them (`compact_record`), and that
function goes through a sum in a commutative monoid (`Figures`). What is left to say here is
which records meet: the ones of a key in the list that is compacted (`groupOf`), and after a
first stage the one record of that key (`groupOf_compact`).
-/

namespace Robot.Report

open Robot.Lib List

/-! ## The order of the result -/

/-- Earlier second, then smaller name, then end before start. -/
def TracingRecord.Before (r s : TracingRecord) : Prop :=
  r.timestamp < s.timestamp ∨ r.timestamp = s.timestamp ∧
    (r.name < s.name ∨ r.name = s.name ∧ r.startData = false ∧ s.startData = true)

/-- The key in the order of the result. -/
def TracingRecord.sortKey (r : TracingRecord) : ℤ ×ₗ String ×ₗ Bool :=
  toLex (r.timestamp, toLex (r.name, r.startData))

variable {r : TracingRecord} {k : TracingBucketKey}

theorem TracingRecord.sortKey_lt_iff {s : TracingRecord} :
    r.sortKey < s.sortKey ↔ r.Before s := by
  unfold sortKey Before
  rw [Prod.Lex.toLex_lt_toLex, Prod.Lex.toLex_lt_toLex]
  exact or_congr Iff.rfl (and_congr Iff.rfl (or_congr Iff.rfl (and_congr Iff.rfl Bool.lt_iff)))

theorem TracingRecord.sortKey_eq_iff {s : TracingRecord} :
    r.sortKey = s.sortKey ↔ r.key = s.key := by
  unfold sortKey key
  rw [toLex_inj, Prod.mk.injEq, toLex_inj, Prod.mk.injEq, TracingBucketKey.mk.injEq]
  exact and_left_comm

/-- The comparator orders records with different keys. -/
theorem recordLess_eq_false_iff {a b : TracingRecord} (hne : a.sortKey ≠ b.sortKey) :
    recordLess b a = false ↔ a.sortKey < b.sortKey := by
  rw [TracingRecord.sortKey_lt_iff]
  unfold recordLess TracingRecord.Before
  by_cases ht : b.timestamp = a.timestamp
  · rw [if_neg (not_not.mpr ht)]
    by_cases hn : b.name = a.name
    · -- the same second and name: one is the end record and the other the start record
      have hstart : a.startData ≠ b.startData := fun hs => hne <| by
        rw [TracingRecord.sortKey_eq_iff]
        unfold TracingRecord.key
        rw [ht, hn, hs]
      rw [if_neg (not_not.mpr hn), ht, hn]
      cases ha : a.startData with
      | true => simp [ha] at hstart; simp [hstart]
      | false => simp [ha] at hstart; simp [hstart]
    · rw [if_pos hn, decide_eq_false_iff_not, not_lt]
      have hlt : a.name ≤ b.name ↔ a.name < b.name :=
        ⟨fun h => lt_of_le_of_ne h (Ne.symm hn), le_of_lt⟩
      rw [hlt]
      simp [ht, Ne.symm hn]
  · rw [if_pos ht, decide_eq_false_iff_not]
    omega

theorem compact_sorted (records : List (Option TracingRecord)) :
    (compactTracingsBySecond records).Pairwise fun r s => r.sortKey < s.sortKey := by
  have hnd := compact_nodup records
  unfold compactTracingsBySecond at hnd ⊢
  rw [((perm_insertionSort _ _).map TracingRecord.key).nodup_iff] at hnd
  have hless : ∀ a b : TracingRecord, a.sortKey ≠ b.sortKey →
      (recordLess b a = false ↔ a.sortKey < b.sortKey) := fun a b => recordLess_eq_false_iff
  refine insertionSort_pairwise_key hless ?_
  refine pairwise_map.mpr ((pairwise_map.mp hnd).imp fun hkey he => hkey ?_)
  exact TracingRecord.sortKey_eq_iff.mp he

/-- **The result is strictly sorted.** -/
theorem compact_before (records : List (Option TracingRecord)) :
    (compactTracingsBySecond records).Pairwise TracingRecord.Before :=
  (compact_sorted records).imp fun h => TracingRecord.sortKey_lt_iff.mp h

/-! ## Groups -/

/-- The records of one key. -/
def groupOf (l : List TracingRecord) (k : TracingBucketKey) : List TracingRecord :=
  l.filter fun r => r.key = k

theorem mem_groupOf {l : List TracingRecord} :
    r ∈ groupOf l k ↔ r ∈ l ∧ r.key = k := by
  unfold groupOf
  rw [mem_filter, decide_eq_true_iff]

theorem groupOf_ne_nil {l : List TracingRecord} :
    groupOf l k ≠ [] ↔ ∃ r ∈ l, r.key = k := by
  rw [← length_pos_iff, length_pos_iff_exists_mem]
  exact exists_congr fun r => mem_groupOf

theorem groupOf_append (l l' : List TracingRecord) (k : TracingBucketKey) :
    groupOf (l ++ l') k = groupOf l k ++ groupOf l' k := filter_append ..

variable {records : List (Option TracingRecord)}

/-- **A record of the result** is the record of the group of its key. -/
theorem compact_record (hr : r ∈ compactTracingsBySecond records) :
    r = (accOf (groupOf (countedRecords records) r.key)).record r.key := by
  obtain ⟨k, hk, rfl⟩ := mem_map.mp ((compactTracings_perm records).mem_iff.mp hr)
  rw [CompactAcc.record_key]
  have hne := groupOf_ne_nil.mpr ((Grouped.groupAll_mem ..).mp hk)
  have hbucket := Grouped.groupAll_bucket TracingRecord.key CompactAcc.zero CompactAcc.merge
    (countedRecords records) k hne
  unfold compactGroups
  rw [hbucket]
  rfl

/-- The records of the result for one key: one if there was any, with everything added up. -/
theorem groupOf_compact (hne : groupOf (countedRecords records) k ≠ []) :
    groupOf (compactTracingsBySecond records) k
      = [(accOf (groupOf (countedRecords records) k)).record k] := by
  obtain ⟨r, hr, rfl⟩ := mem_compact_keys.mpr (groupOf_ne_nil.mp hne)
  rw [← compact_record hr]
  exact filter_of_nodup_keys (compact_nodup records) hr

theorem groupOf_compact_nil (h : groupOf (countedRecords records) k = []) :
    groupOf (compactTracingsBySecond records) k = [] := by
  by_contra hne
  exact groupOf_ne_nil.mpr (mem_compact_keys.mp (groupOf_ne_nil.mp hne)) h

theorem groupOf_compact_ne_nil :
    groupOf (compactTracingsBySecond records) k ≠ [] ↔ groupOf (countedRecords records) k ≠ [] := by
  rw [groupOf_ne_nil, groupOf_ne_nil]
  exact mem_compact_keys

variable {l l' : List (Option TracingRecord)}

/-- **Two compactions, group by group.** -/
theorem compact_forall₂ {R : TracingRecord → TracingRecord → Prop}
    (hkeys : ∀ k, groupOf (countedRecords l) k ≠ [] ↔ groupOf (countedRecords l') k ≠ [])
    (h : ∀ k, groupOf (countedRecords l) k ≠ [] → groupOf (countedRecords l') k ≠ [] →
      R ((accOf (groupOf (countedRecords l) k)).record k)
        ((accOf (groupOf (countedRecords l') k)).record k)) :
    List.Forall₂ R (compactTracingsBySecond l) (compactTracingsBySecond l') := by
  refine forall₂_of_keys (compact_sorted l) (compact_sorted l') (fun k => ?_) ?_
  · -- a key that is in one result is in the other
    have hmem : ∀ {l l' : List (Option TracingRecord)},
        (∀ k, groupOf (countedRecords l) k ≠ [] → groupOf (countedRecords l') k ≠ []) →
        k ∈ (compactTracingsBySecond l).map TracingRecord.sortKey →
        k ∈ (compactTracingsBySecond l').map TracingRecord.sortKey := by
      intro l l' hkeys hk
      obtain ⟨r, hr, rfl⟩ := mem_map.mp hk
      have hne := hkeys r.key (groupOf_ne_nil.mpr (mem_compact_keys.mp ⟨r, hr, rfl⟩))
      obtain ⟨r', hr', hkey⟩ := mem_compact_keys.mpr (groupOf_ne_nil.mp hne)
      exact mem_map.mpr ⟨r', hr', TracingRecord.sortKey_eq_iff.mpr hkey⟩
    exact ⟨hmem fun k => (hkeys k).mp, hmem fun k => (hkeys k).mpr⟩
  · intro r hr s hs hkey
    have hsame : r.key = s.key := TracingRecord.sortKey_eq_iff.mp hkey
    have hne := groupOf_ne_nil.mpr (mem_compact_keys.mp ⟨r, hr, rfl⟩)
    rw [compact_record hr, compact_record hs, ← hsame]
    exact h r.key hne ((hkeys r.key).mp hne)

/-! ## What the groups add up to -/

/-- `MinDurationMs >= 0` in every record. -/
def ProperMins (records : List (Option TracingRecord)) : Prop :=
  ∀ r, some r ∈ records → 0 ≤ r.minDurationMs

theorem mem_of_countedRecords (hr : r ∈ countedRecords records) : some r ∈ records := by
  obtain ⟨x, hx, hxr⟩ := mem_filterMap.mp hr
  cases x with
  | none => cases hxr
  | some y =>
    simp only at hxr
    split at hxr
    · cases hxr
    · exact Option.some.inj hxr ▸ hx

theorem ProperMins.group (h : ProperMins records)
    (k : TracingBucketKey) : Group k (groupOf (countedRecords records) k) where
  key _ hr := (mem_groupOf.mp hr).2
  count r hr := countedRecords_pos r (mem_groupOf.mp hr).1
  min r hr := h r (mem_of_countedRecords (mem_groupOf.mp hr).1)

/-- Compaction gives proper minima. -/
theorem properMins_compact (records : List (Option TracingRecord)) :
    ProperMins ((compactTracingsBySecond records).map some) := by
  intro _ hr
  obtain ⟨r, hr', he⟩ := mem_map.mp hr
  rw [← Option.some.inj he, compact_record hr']
  exact record_min _ _

theorem ProperMins.append (h : ProperMins l) (h' : ProperMins l') : ProperMins (l ++ l') := by
  intro r hr
  rcases mem_append.mp hr with hr | hr
  · exact h r hr
  · exact h' r hr

/-- Equal figures make records that agree. -/
theorem Group.agree {g g' : List TracingRecord} (h : Group k g)
    (h' : Group k g') (hne : g ≠ []) (hne' : g' ≠ [])
    (hfig : (g.map TracingRecord.figures).sum = (g'.map TracingRecord.figures).sum) :
    ((accOf g).record k).Agree ((accOf g').record k) := by
  refine (record_normal g k).agree (record_normal g' k) ?_ ?_
  · rw [CompactAcc.record_key, CompactAcc.record_key]
  · rw [record_figures h hne, record_figures h' hne', hfig]

/-- Equal figures and equal sums make the same record. -/
theorem Group.same {g g' : List TracingRecord} (h : Group k g)
    (h' : Group k g') (hne : g ≠ []) (hne' : g' ≠ [])
    (hfig : (g.map TracingRecord.figures).sum = (g'.map TracingRecord.figures).sum)
    (hsums : (g.map fun r => r.moments.sums).sum = (g'.map fun r => r.moments.sums).sum) :
    ((accOf g).record k).Same ((accOf g').record k) := by
  have hagree := h.agree h' hne hne' hfig
  refine ⟨hagree, ?_⟩
  cases hk : k.startData with
  | true =>
    have hstart : ∀ a : CompactAcc, (a.record k).startData = true := fun a =>
      (congrArg TracingBucketKey.startData (a.record_key k)).trans hk
    rw [((record_normal g k).start (hstart _)).2.2.2, ((record_normal g' k).start (hstart _)).2.2.2]
  | false =>
    have hcount : (accOf g).count = (accOf g').count := by
      have := hagree.count
      rwa [CompactAcc.record_count, CompactAcc.record_count] at this
    rw [record_variance hk h hne hcount hsums, record_variance hk h' hne' rfl rfl]

/-- **A first stage keeps what the groups add up to.** -/
theorem figures_compact (h : ProperMins records) (k : TracingBucketKey) :
    ((groupOf (compactTracingsBySecond records) k).map TracingRecord.figures).sum
      = ((groupOf (countedRecords records) k).map TracingRecord.figures).sum := by
  by_cases hne : groupOf (countedRecords records) k = []
  · rw [groupOf_compact_nil hne, hne]
  · rw [groupOf_compact hne, ← record_figures (h.group k) hne]
    exact add_zero _

/-- **The order of the records does not matter.** -/
theorem compact_perm (h : ProperMins l') (hperm : l.Perm l') :
    List.Forall₂ TracingRecord.Same (compactTracingsBySecond l) (compactTracingsBySecond l') := by
  have hgroup : ∀ k, (groupOf (countedRecords l) k).Perm (groupOf (countedRecords l') k) :=
    fun k => (hperm.filterMap _).filter _
  have hmins : ProperMins l := fun r hr => h r (hperm.mem_iff.mp hr)
  have hkeys : ∀ k, groupOf (countedRecords l) k ≠ [] ↔ groupOf (countedRecords l') k ≠ [] := by
    intro k
    rw [← length_pos_iff, ← length_pos_iff, (hgroup k).length_eq]
  refine compact_forall₂ hkeys fun k hne hne' => ?_
  refine (hmins.group k).same (h.group k) hne hne' ?_ ?_
  · exact ((hgroup k).map _).sum_eq
  · exact ((hgroup k).map _).sum_eq

/-- **Compacting parts first** changes nothing but the variance. -/
theorem compact_append {a b : List (Option TracingRecord)} (ha : ProperMins a)
    (hb : ProperMins b) :
    List.Forall₂ TracingRecord.Agree
      (compactTracingsBySecond ((compactTracingsBySecond a ++ compactTracingsBySecond b).map some))
      (compactTracingsBySecond (a ++ b)) := by
  have hcounted : countedRecords ((compactTracingsBySecond a ++ compactTracingsBySecond b).map some)
      = compactTracingsBySecond a ++ compactTracingsBySecond b := by
    rw [map_append, countedRecords, filterMap_append]
    exact congrArg₂ (· ++ ·) (countedRecords_compact a) (countedRecords_compact b)
  have hboth : countedRecords (a ++ b) = countedRecords a ++ countedRecords b :=
    filterMap_append ..
  have hmins : ProperMins ((compactTracingsBySecond a ++ compactTracingsBySecond b).map some) := by
    rw [map_append]
    exact (properMins_compact a).append (properMins_compact b)
  refine compact_forall₂ (fun k => ?_) fun k hne hne' => ?_
  · rw [hcounted, hboth, groupOf_append, groupOf_append, ne_eq, ne_eq, append_eq_nil_iff,
      append_eq_nil_iff]
    exact not_congr (and_congr (not_iff_not.mp groupOf_compact_ne_nil)
      (not_iff_not.mp groupOf_compact_ne_nil))
  · refine (hmins.group k).agree ((ha.append hb).group k) hne hne' ?_
    rw [hcounted, hboth, groupOf_append, groupOf_append, map_append, map_append,
      sum_append, sum_append, figures_compact ha, figures_compact hb]

/-- A variance goes through an accumulator of its own unchanged. -/
theorem variance_single (hr : Group k [r]) (hn : r.Normal) (hv : i64 r.variance = r.variance) :
    ((accOf [r]).record k).variance = r.variance := by
  have hs := hr.start mem_cons_self
  cases hk : k.startData with
  | true =>
    rw [(hn.start (hs.trans hk)).2.2.2]
    unfold CompactAcc.record
    rw [if_neg (by simp [hk])]
  | false =>
    have hcount := hr.count r mem_cons_self
    have hne : (r.count : ℚ) ≠ 0 := by exact_mod_cast (by omega : r.count ≠ 0)
    have hm2 := r.moments.m2_eq
    change (r.variance : ℚ) * r.count = _ - _ / (r.count : ℚ) at hm2
    have hacc : (accOf [r]).count = r.count := by
      rw [accOf, foldl_cons, foldl_nil, CompactAcc.merge_count]
      exact Int.zero_add r.count
    rw [record_variance hk hr (cons_ne_nil r []) hacc sum_singleton, ← hm2,
      mul_div_cancel_right₀ _ hne]
    exact toInt64_intCast hv

/-- **Compacting twice is compacting once.** -/
theorem compact_idem (h : ProperMins records) : List.Forall₂ TracingRecord.Same
      (compactTracingsBySecond ((compactTracingsBySecond records).map some))
      (compactTracingsBySecond records) := by
  have hcounted := countedRecords_compact records
  have hmins := properMins_compact records
  refine compact_forall₂ (fun k => ?_) fun k hne hne' => ?_
  · rw [hcounted]
    exact groupOf_compact_ne_nil
  · have hgroup := hmins.group k
    refine ⟨hgroup.agree (h.group k) hne hne' ?_, ?_⟩
    · rw [hcounted]
      exact figures_compact h k
    · rw [hcounted, groupOf_compact hne'] at hgroup ⊢
      exact variance_single hgroup (record_normal _ k) (i64_record_variance _ k)

/-- **Compaction is a homomorphism that no order can be told from**: permuting the records
changes no field; compacting two parts and then the results changes no field but the variance;
doing it again changes nothing; and the result is strictly sorted, with every key once. -/
theorem compact_homomorphism (a b : List (Option TracingRecord)) (h : ProperMins (a ++ b)) :
    let whole := compactTracingsBySecond (a ++ b)
    (∀ p, p.Perm (a ++ b) → List.Forall₂ TracingRecord.Same (compactTracingsBySecond p) whole) ∧
    List.Forall₂ TracingRecord.Agree
      (compactTracingsBySecond ((compactTracingsBySecond a ++ compactTracingsBySecond b).map some))
      whole ∧
    List.Forall₂ TracingRecord.Same (compactTracingsBySecond (whole.map some)) whole ∧
    whole.Pairwise TracingRecord.Before ∧ (whole.map TracingRecord.key).Nodup := by
  have ha : ProperMins a := fun r hr => h r (mem_append_left b hr)
  have hb : ProperMins b := fun r hr => h r (mem_append_right a hr)
  exact ⟨fun p hp => compact_perm h hp, compact_append ha hb, compact_idem h, compact_before _,
    compact_nodup _⟩

/-- One finished request in the first second, as the tracer reports it. -/
def loginRecord (durMs : Int) : TracingRecord :=
  { timestamp := 0, startData := false, name := "login", count := 1, totalDurationMs := durMs
    minDurationMs := durMs, maxDurationMs := durMs, variance := 0
    code := (∅ : Tally Int).add 0 1, error := ∅ }

/-- The variance is left out with reason: `0, 3` and `0` have variance `2`, but `0, 3` alone is
reported with `2` for `9/4`. -/
example :
    (compactTracingsBySecond [some (loginRecord 0), some (loginRecord 3), some (loginRecord 0)]).map
        TracingRecord.variance = [2] ∧
      (compactTracingsBySecond ((compactTracingsBySecond
        [some (loginRecord 0), some (loginRecord 3)] ++ [loginRecord 0]).map some)).map
        TracingRecord.variance = [1] := by
  decide +kernel

/-- What two agents send for one second. -/
def loginsOfTwo : List (Option TracingRecord) × List (Option TracingRecord) :=
  ([some (loginRecord 0), none, some (loginRecord 3)], [some (loginRecord 0)])

theorem properMins_loginsOfTwo : ProperMins (loginsOfTwo.1 ++ loginsOfTwo.2) := by
  intro r hr
  simp only [loginsOfTwo, cons_append, nil_append, mem_cons, Option.some.injEq,
    reduceCtorEq, not_mem_nil, or_false, false_or] at hr
  rcases hr with hr | hr | hr
  all_goals
    rw [hr]
    exact Int.natCast_nonneg _

/-- The same second in the opposite order. -/
theorem loginsOfTwo_reversed :
    List.Forall₂ TracingRecord.Same
      (compactTracingsBySecond (loginsOfTwo.1 ++ loginsOfTwo.2).reverse)
      (compactTracingsBySecond (loginsOfTwo.1 ++ loginsOfTwo.2)) :=
  (compact_homomorphism loginsOfTwo.1 loginsOfTwo.2 properMins_loginsOfTwo).1 _
    (reverse_perm _)

end Robot.Report
