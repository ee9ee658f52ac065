import Robot.Report.Redis

/-!
# `ReadReport` under at-least-once `SCAN`

`scanKeys` keeps every key of every page, and `ReadReport` reads a list once per occurrence
of its key. The merge is additive, so a key that `SCAN` returns twice counts twice.

The argument both ways is one sum. The total `Count` of the compacted tracings is the total
of the records read (`compact_total`), and in that total a write weighs as often as its key
was returned (`weight_read`). Against the total in which every write of the report weighs
once, every term is at least as large, so the two agree only if every term does:
`ReadOnce`.
-/

namespace Robot.Report

open Robot.Lib List

/-! ## What the compaction counts -/

theorem countedRecords_flatMap {α : Type} (f : α → List (Option TracingRecord)) (xs : List α) :
    countedRecords (xs.flatMap f) = xs.flatMap fun x => countedRecords (f x) := by
  induction xs with
  | nil => rfl
  | cons x xs ih =>
    rw [flatMap_cons, flatMap_cons, ← ih]
    exact filterMap_append

/-- The requests the records stand for. -/
def countWeight (records : List (Option TracingRecord)) : Int :=
  ((countedRecords records).map TracingRecord.count).sum

theorem countWeight_nonneg (records : List (Option TracingRecord)) : 0 ≤ countWeight records := by
  refine sum_nonneg fun n hn => ?_
  obtain ⟨r, hr, rfl⟩ := mem_map.mp hn
  exact Int.le_of_lt (countedRecords_pos r hr)

theorem countWeight_pos {records : List (Option TracingRecord)} (h : countedRecords records ≠ []) :
    0 < countWeight records := by
  unfold countWeight
  obtain ⟨r, l, hl⟩ := exists_cons_of_ne_nil h
  have hpos : ∀ r ∈ countedRecords records, 0 < r.count := countedRecords_pos
  rw [hl] at hpos ⊢
  rw [map_cons, sum_cons]
  have hr := hpos r mem_cons_self
  have hrest : 0 ≤ (l.map TracingRecord.count).sum := by
    refine sum_nonneg fun n hn => ?_
    obtain ⟨r', hr', rfl⟩ := mem_map.mp hn
    exact Int.le_of_lt (hpos r' (mem_cons_of_mem _ hr'))
  omega

theorem countWeight_flatMap {α : Type} (f : α → List (Option TracingRecord)) (xs : List α) :
    countWeight (xs.flatMap f) = (xs.map fun x => countWeight (f x)).sum := by
  unfold countWeight
  rw [countedRecords_flatMap]
  induction xs with
  | nil => rfl
  | cons x xs ih =>
    rw [flatMap_cons, map_append, sum_append, ih, map_cons, sum_cons]

/-- **Compaction keeps the total count.** -/
theorem compact_total (records : List (Option TracingRecord)) :
    ((compactTracingsBySecond records).map TracingRecord.count).sum = countWeight records := by
  have hweigh : (compactGroups records).weigh (fun _ a => a.count) = countWeight records := by
    have h := Grouped.weigh_groupAll TracingRecord.key CompactAcc.zero CompactAcc.merge
      (fun _ a => a.count) TracingRecord.count (fun _ => rfl)
      (fun r a => CompactAcc.merge_count r a) (countedRecords records) .empty
    rw [Grouped.weigh_empty, Int.zero_add] at h
    exact h
  rw [((compactTracings_perm records).map _).sum_eq, ← hweigh, map_map]
  refine congrArg List.sum (map_congr_left fun k hk => ?_)
  obtain ⟨a, ha, -⟩ := compactGroups_pos hk
  simp only [Function.comp_apply, ha, Option.getD_some, CompactAcc.record_count, Option.map_some]

/-- Records that are not counted make no difference. -/
theorem compact_congr {l₁ l₂ : List (Option TracingRecord)}
    (h : countedRecords l₁ = countedRecords l₂) :
    compactTracingsBySecond l₁ = compactTracingsBySecond l₂ := by
  unfold compactTracingsBySecond compactGroups
  rw [h]

/-! ## What the lists hold -/

theorem foldl_append_map {α β : Type} (f : α → β) : ∀ (xs : List α) (l : List β),
    xs.foldl (fun l x => l ++ [f x]) l = l ++ xs.map f := by
  intro xs
  induction xs with
  | nil => intro l; simp
  | cons x xs ih => intro l; rw [foldl_cons, ih]; simp

variable (writes : List TracingWrite)

theorem storeWrites_eq : storeWrites writes
      = Grouped.groupAll TracingWrite.key [] (fun w l => l ++ [marshalTracings w.records])
          (writes.filter fun w => w.records ≠ []) .empty := by
  unfold storeWrites Grouped.groupAll
  generalize (Grouped.empty : RedisLists) = db
  induction writes generalizing db with
  | nil => rfl
  | cons w writes ih =>
    rw [foldl_cons]
    unfold writeTracings
    by_cases hw : w.records = []
    · rw [if_pos (by rw [hw]; rfl), filter_cons_of_neg (by simpa using hw)]
      exact ih db
    · rw [if_neg (fun h => hw (length_eq_zero_iff.mp h)), filter_cons_of_pos (by simpa using hw),
        foldl_cons]
      exact ih _

/-- The writes whose chunk is in the list of a key, in order. -/
def writesOf (writes : List TracingWrite) (key : String) : List TracingWrite :=
  writes.filter fun w => w.key = key

theorem storeWrites_lrange (key : String) : (storeWrites writes).lrange key
      = ((writesOf writes key).filter fun w => w.records ≠ []).map fun w => marshalTracings w.records := by
  unfold RedisLists.lrange writesOf
  rw [storeWrites_eq, Grouped.groupAll_buckets, filter_comm]
  cases (writes.filter fun w => w.key = key).filter (fun w => w.records ≠ []) with
  | nil => rfl
  | cons w ws =>
    show List.foldl _ [] (w :: ws) = _
    rw [foldl_append_map, nil_append]

theorem mem_storeWrites {writes : List TracingWrite} {w : TracingWrite} (hw : w ∈ writes)
    (hne : w.records ≠ []) : w.key ∈ (storeWrites writes).order := by
  rw [storeWrites_eq, Grouped.groupAll_mem]
  exact ⟨w, mem_filter.mpr ⟨hw, by simpa using hne⟩, rfl⟩

theorem flatMap_filter_nil {α β : Type} (p : α → Bool) (f : α → List β) (xs : List α)
    (h : ∀ x ∈ xs, p x = false → f x = []) : (xs.filter p).flatMap f = xs.flatMap f := by
  induction xs with
  | nil => rfl
  | cons x xs ih =>
    have ih := ih fun x' hx' => h x' (mem_cons_of_mem _ hx')
    cases hp : p x with
    | true => rw [filter_cons_of_pos hp, flatMap_cons, flatMap_cons, ih]
    | false =>
      rw [filter_cons_of_neg (by simp [hp]), flatMap_cons, h x mem_cons_self hp, ih]
      rfl

/-- One reading of a key gives the records of all its writes. -/
theorem readChunks_key (client : RedisClient) (key : String)
    (hl : client.lrange key = .ok ((storeWrites writes).lrange key)) :
    readChunks client unmarshalTracings key = (writesOf writes key).flatMap TracingWrite.records := by
  unfold readChunks
  rw [hl, storeWrites_lrange]
  show List.flatMap _ _ = _
  rw [flatMap_map]
  simp only [unmarshalTracings_marshal]
  exact flatMap_filter_nil _ _ _ fun w _ hw => by simpa using hw

/-! ## Reading once -/

/-- A chunk with something to count is read as often as it should be: once if it is of the
report, never if it is of another one. -/
def ReadOnce (reportID : String) (keys : List String) (w : TracingWrite) : Prop :=
  countedRecords w.records ≠ [] → keys.count w.key = if w.reportID = reportID then 1 else 0

/-- The stored chunks of a report. -/
def storedFor (reportID : String) (writes : List TracingWrite) : List TracingWrite :=
  writes.filter fun w => w.reportID = reportID ∧ w.records ≠ []

/-- The records `ReadReport` merges. -/
def recordsRead (writes : List TracingWrite) (keys : List String) : List (Option TracingRecord) :=
  keys.flatMap fun k => (writesOf writes k).flatMap TracingWrite.records

/-- In what is read, a write weighs as often as its key is returned. -/
theorem weight_read (keys : List String) : countWeight (recordsRead writes keys)
      = (writes.map fun w => (keys.count w.key : Int) * countWeight w.records).sum := by
  unfold recordsRead
  rw [countWeight_flatMap]
  simp only [countWeight_flatMap]
  exact sum_groups TracingWrite.key (fun w => countWeight w.records) writes keys

/-- Read once each, the writes of the report weigh one each. -/
theorem weight_stored (reportID : String) (writes : List TracingWrite) :
    ((storedFor reportID writes).map fun w => countWeight w.records).sum
      = (writes.map fun w => (if w.reportID = reportID then 1 else 0) * countWeight w.records).sum := by
  unfold storedFor
  induction writes with
  | nil => rfl
  | cons w writes ih =>
    rw [map_cons, sum_cons, ← ih]
    by_cases hw : w.reportID = reportID
    · by_cases hne : w.records = []
      · rw [filter_cons_of_neg (by simp [hne]), hne, if_pos hw]
        show _ = 1 * 0 + _
        omega
      · rw [filter_cons_of_pos (by simp [hw, hne]), map_cons, sum_cons, if_pos hw,
          Int.one_mul]
    · rw [filter_cons_of_neg (by simp [hw]), if_neg hw, Int.zero_mul, Int.zero_add]

/-- Sums of terms that are pairwise ordered agree only if the terms do. -/
theorem terms_eq_of_sum_eq {α : Type} {f g : α → Int} {xs : List α} (hle : ∀ x ∈ xs, f x ≤ g x)
    (hsum : (xs.map g).sum = (xs.map f).sum) : ∀ x ∈ xs, g x = f x := by
  intro x hx
  by_contra hne
  have hlt : f x < g x := lt_of_le_of_ne (hle x hx) fun h => hne h.symm
  have := sum_lt_sum f g hle ⟨x, hx, hlt⟩
  omega

theorem readOnce_of_weight {reportID : String} {keys : List String} {w : TracingWrite}
    (h : (keys.count w.key : Int) * countWeight w.records
      = (if w.reportID = reportID then 1 else 0) * countWeight w.records) :
    ReadOnce reportID keys w := by
  intro hc
  have hpos := countWeight_pos hc
  have hmul := Int.eq_of_mul_eq_mul_right (by omega) h
  split
  next hr => rw [if_pos hr] at hmul; omega
  next hr => rw [if_neg hr] at hmul; omega

section Exact

variable {reportID : String} {writes : List TracingWrite} {keys : List String}

/-- If every chunk is read as often as it should be, what is counted is the report's chunks,
once each, in the order of the keys. -/
theorem readOnce_sufficient (hcover : ∀ w ∈ storedFor reportID writes, w.key ∈ keys)
    (honce : ∀ w ∈ writes, ReadOnce reportID keys w) :
    ∃ order : List (List (Option TracingRecord)),
      order.Perm ((storedFor reportID writes).map TracingWrite.records) ∧
      countedRecords (recordsRead writes keys) = countedRecords order.flatten := by
  -- the report's chunks, key by key
  refine ⟨(keys.dedup.flatMap fun k => writesOf (storedFor reportID writes) k).map
    TracingWrite.records, ?_, ?_⟩
  · refine List.Perm.map _ ?_
    exact flatten_filter_perm TracingWrite.key _ _ (nodup_dedup keys)
      fun w hw => mem_dedup.mpr (hcover w hw)
  · unfold recordsRead
    rw [← flatMap_def, countedRecords_flatMap, countedRecords_flatMap, flatMap_assoc]
    simp only [countedRecords_flatMap]
    -- a key that is returned twice holds nothing to count
    rw [flatMap_dedup]
    · refine flatMap_congr fun k hk => ?_
      have hstored : writesOf (storedFor reportID writes) k
          = (writesOf writes k).filter fun w => w.reportID = reportID ∧ w.records ≠ [] :=
        filter_comm ..
      rw [hstored]
      refine (flatMap_filter_nil _ _ _ fun w hw hno => ?_).symm
      by_contra hc
      obtain ⟨hmem, hkey⟩ := mem_filter.mp hw
      have hcount := honce w hmem hc
      have hpos : 0 < keys.count w.key := by
        rw [decide_eq_true_iff.mp hkey]
        exact count_pos_iff.mpr (mem_dedup.mp hk)
      -- a chunk with something to count under a returned key is of the report
      have hrep : w.reportID = reportID := by
        by_contra hr
        rw [if_neg hr] at hcount
        omega
      have hrec : w.records ≠ [] := fun hnil => hc (by rw [hnil]; rfl)
      simp [hrep, hrec] at hno
    · intro k hk
      refine flatMap_eq_nil_iff.mpr fun w hw => ?_
      by_contra hc
      obtain ⟨hmem, hkey⟩ := mem_filter.mp hw
      have hcount := honce w hmem hc
      rw [decide_eq_true_iff.mp hkey] at hcount
      split at hcount
      · omega
      · omega

/-- If the totals agree, every chunk was read as often as it should be. -/
theorem readOnce_necessary (hcover : ∀ w ∈ storedFor reportID writes, w.key ∈ keys)
    {order : List (List (Option TracingRecord))}
    (horder : order.Perm ((storedFor reportID writes).map TracingWrite.records))
    (hsame : compactTracingsBySecond (recordsRead writes keys) = compactTracingsBySecond order.flatten) :
    ∀ w ∈ writes, ReadOnce reportID keys w := by
  have htotal : countWeight (recordsRead writes keys) = countWeight order.flatten := by
    rw [← compact_total, ← compact_total, hsame]
  have hstored : countWeight order.flatten
      = ((storedFor reportID writes).map fun w => countWeight w.records).sum := by
    have hflat : order.flatten = order.flatMap fun l => l := flatMap_id'.symm
    rw [hflat, countWeight_flatMap, (horder.map _).sum_eq, map_map]
    rfl
  rw [weight_read, hstored, weight_stored] at htotal
  intro w hw
  refine readOnce_of_weight (terms_eq_of_sum_eq (fun w hw => ?_) htotal w hw)
  -- a chunk of the report is read at least once
  have hnn := countWeight_nonneg w.records
  split
  next hrep =>
    by_cases hne : w.records = []
    · rw [hne]
      show (1 : Int) * 0 ≤ _ * 0
      omega
    · have hmem : w ∈ storedFor reportID writes :=
        mem_filter.mpr ⟨hw, by simp [hrep, hne]⟩
      have hpos : 0 < keys.count w.key := count_pos_iff.mpr (hcover w hmem)
      exact Int.mul_le_mul_of_nonneg_right (by omega) hnn
  next =>
    rw [Int.zero_mul]
    exact Int.mul_nonneg (by omega) hnn

end Exact

/-! ## `ReadReport` -/

/-- The server during one `ReadReport`: the metadata is there, `SCAN` keeps its contract, and
`LRANGE` returns what was written. -/
structure Serves (glob : String → String → Prop) (client : RedisClient)
    (writes : List TracingWrite) (reportID : String) (keys : List String) : Prop where
  found : ∃ m, client.get ("report:meta:" ++ reportID) = .ok (.reportMeta m)
  scan : ScanContract glob (storeWrites writes) (tracingPattern reportID)
    (client.scan (tracingPattern reportID)) keys
  lists : ∀ k ∈ keys, client.lrange k = .ok ((storeWrites writes).lrange k)
  metrics : ∃ ks, scanKeys (client.scan (metricsPattern reportID)) = .ok ks

/-- The pattern of a report with a plain ID matches the keys of the report. -/
theorem tracingPattern_matches {glob : String → String → Prop} (hglob : MatchesLiteralStar glob)
    {reportID : String} (hplain : PlainText reportID) (agentID : String) :
    glob (tracingPattern reportID) (tracingKey reportID agentID) := by
  have hpat : tracingPattern reportID = ("report:tracing:" ++ reportID ++ ":") ++ "*" := by
    show "report:tracing:" ++ reportID ++ (":" ++ "*") = _
    exact String.append_assoc.symm
  have hlit : PlainText ("report:tracing:" ++ reportID ++ ":") := by
    intro c hc
    simp only [String.toList_append, mem_append] at hc
    have hhead : PlainText "report:tracing:" := by simp [PlainText]
    have hcolon : PlainText ":" := by simp [PlainText]
    rcases hc with (hc | hc) | hc
    · exact hhead c hc
    · exact hplain c hc
    · exact hcolon c hc
  rw [hpat, hglob _ _ hlit]
  unfold tracingKey
  rw [String.toList_append (s := "report:tracing:" ++ reportID ++ ":")]
  exact prefix_append _ _

/-- What `ReadReport` returns from a server that answers. -/
theorem Serves.readReport {glob : String → String → Prop} {client : RedisClient}
    {writes : List TracingWrite} {reportID : String} {keys : List String}
    (h : Serves glob client writes reportID keys) :
    ∃ data, readReport (some client) reportID = .ok data ∧
      data.tracings = compactTracingsBySecond (recordsRead writes keys) := by
  obtain ⟨m, hm⟩ := h.found
  obtain ⟨ks, hks⟩ := h.metrics
  have hread : keys.flatMap (readChunks client unmarshalTracings) = recordsRead writes keys :=
    flatMap_congr fun k hk => readChunks_key writes client k (h.lists k hk)
  refine ⟨{ reportMeta := m
            tracings := compactTracingsBySecond (recordsRead writes keys)
            metrics := ks.flatMap (readChunks client unmarshalMetrics) }, ?_, rfl⟩
  simp only [Report.readReport, hm, h.scan.returns, hks, ← hread]
  rfl

/-- **`ReadReport` counts every stored chunk of the report exactly once** if and only if
`SCAN` returned every key with something to count once. -/
theorem readReport_exact_iff (glob : String → String → Prop) (hglob : MatchesLiteralStar glob)
    (client : RedisClient) (writes : List TracingWrite) (reportID : String)
    (hplain : PlainText reportID) (keys : List String)
    (hserves : Serves glob client writes reportID keys) :
    ∃ data, readReport (some client) reportID = .ok data ∧
      ((∃ order : List (List (Option TracingRecord)),
          order.Perm ((storedFor reportID writes).map TracingWrite.records) ∧
          data.tracings = compactTracingsBySecond order.flatten) ↔
        ∀ w ∈ writes, ReadOnce reportID keys w) := by
  obtain ⟨data, hdata, htracings⟩ := hserves.readReport
  have hcover : ∀ w ∈ storedFor reportID writes, w.key ∈ keys := by
    intro w hw
    obtain ⟨hmem, hstored⟩ := mem_filter.mp hw
    obtain ⟨hrep, hne⟩ := decide_eq_true_iff.mp hstored
    refine hserves.scan.complete _ (mem_storeWrites hmem hne) ?_
    have hmatch := tracingPattern_matches hglob hplain w.agentID
    rw [← hrep] at hmatch ⊢
    exact hmatch
  refine ⟨data, hdata, ?_⟩
  rw [htracings]
  constructor
  · intro h
    obtain ⟨order, horder, hsame⟩ := h
    exact readOnce_necessary hcover horder hsame
  · intro h
    obtain ⟨order, horder, hcounted⟩ := readOnce_sufficient hcover h
    exact ⟨order, horder, compact_congr hcounted⟩

/-- Matching for patterns that end in their only star. -/
def prefixGlob (pattern key : String) : Prop := pattern.toList.dropLast <+: key.toList

theorem prefixGlob_literalStar : MatchesLiteralStar prefixGlob := by
  intro lit s _
  unfold prefixGlob
  have hstar : "*".toList = ['*'] := rfl
  rw [String.toList_append, hstar, dropLast_concat]

/-- A record that stands for one request. -/
def sampleRecord : TracingRecord :=
  { timestamp := 10, startData := false, name := "login", count := 1, totalDurationMs := 7
    minDurationMs := 7, maxDurationMs := 7, variance := 0, code := ∅, error := ∅ }

/-- One agent wrote one chunk. -/
def sampleWrites : List TracingWrite :=
  [{ reportID := "r1", agentID := "a", records := [some sampleRecord] }]

/-- Agent `a` wrote two chunks, agent `b` wrote one between them. -/
def agentWrites : List TracingWrite :=
  [{ reportID := "r1", agentID := "a"
     records := [some sampleRecord, some { sampleRecord with timestamp := 11 }] },
   { reportID := "r1", agentID := "b", records := [some sampleRecord, none] },
   { reportID := "r1", agentID := "a", records := [some { sampleRecord with name := "logout" }] }]

/-- A server with the lists of these writes that answers the cursor loop for the tracings with
these pages. -/
def sampleServer (writes : List TracingWrite) (pages : List ScanReply) : RedisClient :=
  { get := fun _ => .ok (.reportMeta
      { reportID := "r1", title := "", startTime := 0, endTime := 0, agentIDs := [], createdAt := 0
        expiresAt := none, rawDataSize := 0, reportSize := 0 })
    scan := fun pattern => if pattern = tracingPattern "r1" then pages else [.ok ([], 0)]
    lrange := fun key => .ok ((storeWrites writes).lrange key) }

theorem sampleServer_serves (writes : List TracingWrite) (pages : List ScanReply)
    (keys : List String) (hpages : scanKeys pages = .ok keys)
    (hkeys : ∀ k, k ∈ keys ↔ k ∈ (storeWrites writes).order)
    (hmatch : ∀ k ∈ keys, "report:tracing:r1:".toList <+: k.toList) :
    Serves prefixGlob (sampleServer writes pages) writes "r1" keys where
  found := ⟨_, rfl⟩
  scan :=
    { returns := by
        have hscan : (sampleServer writes pages).scan (tracingPattern "r1") = pages := by
          simp [sampleServer]
        rw [hscan]
        exact hpages
      sound := fun k hk => ⟨(hkeys k).mp hk, hmatch k hk⟩
      complete := fun k hk _ => (hkeys k).mpr hk }
  lists := fun _ _ => rfl
  metrics := by
    have hne : metricsPattern "r1" ≠ tracingPattern "r1" := by decide +kernel
    have hscan : (sampleServer writes pages).scan (metricsPattern "r1") = [.ok ([], 0)] := by
      simp [sampleServer, hne]
    exact ⟨[], by rw [hscan]; rfl⟩

/-- Two pages with a key each: the report is the three chunks. -/
theorem readReport_key_once :
    ∃ data, readReport (some (sampleServer agentWrites
        [.ok (["report:tracing:r1:b"], 7), .ok (["report:tracing:r1:a"], 0)])) "r1" = .ok data ∧
      ∃ order : List (List (Option TracingRecord)),
        order.Perm ((storedFor "r1" agentWrites).map TracingWrite.records) ∧
        data.tracings = compactTracingsBySecond order.flatten := by
  have horder : (storeWrites agentWrites).order = ["report:tracing:r1:a", "report:tracing:r1:b"] := by
    decide +kernel
  obtain ⟨data, hdata, hiff⟩ := readReport_exact_iff prefixGlob prefixGlob_literalStar
    (sampleServer agentWrites [.ok (["report:tracing:r1:b"], 7), .ok (["report:tracing:r1:a"], 0)])
    agentWrites "r1" (by simp [PlainText]) ["report:tracing:r1:b", "report:tracing:r1:a"]
    (sampleServer_serves _ _ _ rfl (by simp [horder, or_comm]) (by decide +kernel))
  have honce : ∀ w ∈ agentWrites,
      ["report:tracing:r1:b", "report:tracing:r1:a"].count w.key = if w.reportID = "r1" then 1 else 0 := by
    decide +kernel
  exact ⟨data, hdata, hiff.mpr fun w hw _ => honce w hw⟩

/-- The same key on two pages, which `SCAN` may do: one request is reported as two, and the
result is the compaction of no arrangement of the one chunk. -/
theorem readReport_key_twice :
    Serves prefixGlob
        (sampleServer sampleWrites [.ok (["report:tracing:r1:a"], 7), .ok (["report:tracing:r1:a"], 0)])
        sampleWrites "r1" ["report:tracing:r1:a", "report:tracing:r1:a"] ∧
      ∃ data,
        readReport (some (sampleServer sampleWrites
          [.ok (["report:tracing:r1:a"], 7), .ok (["report:tracing:r1:a"], 0)])) "r1" = .ok data ∧
        data.tracings.map TracingRecord.count = [2] ∧
        ¬ ∃ order : List (List (Option TracingRecord)),
          order.Perm ((storedFor "r1" sampleWrites).map TracingWrite.records) ∧
          data.tracings = compactTracingsBySecond order.flatten := by
  have horder : (storeWrites sampleWrites).order = ["report:tracing:r1:a"] := by decide +kernel
  have hserves := sampleServer_serves sampleWrites
    [.ok (["report:tracing:r1:a"], 7), .ok (["report:tracing:r1:a"], 0)]
    ["report:tracing:r1:a", "report:tracing:r1:a"] rfl (by simp [horder]) (by decide +kernel)
  obtain ⟨data, hdata, htracings⟩ := hserves.readReport
  refine ⟨hserves, data, hdata, ?_, ?_⟩
  · rw [htracings]
    decide +kernel
  · intro h
    obtain ⟨order, horder, hsame⟩ := h
    have hone : (storedFor "r1" sampleWrites).map TracingWrite.records = [[some sampleRecord]] := rfl
    rw [hone, perm_singleton] at horder
    rw [htracings, horder] at hsame
    exact absurd (congrArg (List.map TracingRecord.count) hsame) (by decide +kernel)

end Robot.Report
