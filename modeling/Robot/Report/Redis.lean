import Robot.Report.Compact

/-!
# Reports in Redis

`report/impl/redis_writer.go` and `report/impl/redis_reader.go`. Agents append chunks of
records to one list per report and agent; the master finds the lists of a report with a
cursor loop over `SCAN` and merges all chunks.

A stored text is what `encoding/json` makes of a value, kept here as the object with its
fields (`omitempty` drops zero values, a nil pointer is `null`); `unmarshal_marshal` is the
round trip. The server is a record of replies (`RedisClient`), so that every error path of
the reader is there; what a well-behaved `SCAN` may answer is said separately in
`ScanContract`, because Redis only promises at-least-once.
-/

namespace Robot.Report

open Robot.Lib

/-! ## JSON -/

/-- The JSON object of a `TracingRecord`; an absent field is `none`. -/
structure RecordJson where
  timestamp : Int
  startRecord : Option Bool
  name : String
  count : Int
  durationMs : Option Int
  minDurationMs : Option Int
  maxDurationMs : Option Int
  variance : Option Int
  code : Option (Tally Int)
  error : Option (Tally String)
  deriving DecidableEq

/-- `omitempty` on an integer. -/
def omitZero (x : Int) : Option Int := if x = 0 then none else some x

/-- `omitempty` on a map. -/
def omitEmptyMap {κ : Type} (m : Tally κ) : Option (Tally κ) :=
  if m.entries.isEmpty then none else some m

def TracingRecord.marshal (r : TracingRecord) : RecordJson :=
  { timestamp := r.timestamp
    startRecord := if r.startData then some true else none
    name := r.name
    count := r.count
    durationMs := omitZero r.totalDurationMs
    minDurationMs := omitZero r.minDurationMs
    maxDurationMs := omitZero r.maxDurationMs
    variance := omitZero r.variance
    code := omitEmptyMap r.code
    error := omitEmptyMap r.error }

def RecordJson.unmarshal (j : RecordJson) : TracingRecord :=
  { timestamp := j.timestamp
    startData := j.startRecord.getD false
    name := j.name
    count := j.count
    totalDurationMs := j.durationMs.getD 0
    minDurationMs := j.minDurationMs.getD 0
    maxDurationMs := j.maxDurationMs.getD 0
    variance := j.variance.getD 0
    code := j.code.getD ∅
    error := j.error.getD ∅ }

theorem omitZero_getD (x : Int) : (omitZero x).getD 0 = x := by
  unfold omitZero
  split
  next h => exact h.symm
  · rfl

theorem omitEmptyMap_getD {κ : Type} (m : Tally κ) : (omitEmptyMap m).getD ∅ = m := by
  unfold omitEmptyMap
  split
  next h => exact (AList.ext (List.isEmpty_iff.mp h)).symm
  · rfl

/-- What `omitempty` drops is what `Unmarshal` fills in. -/
theorem unmarshal_marshal (r : TracingRecord) : r.marshal.unmarshal = r := by
  unfold TracingRecord.marshal RecordJson.unmarshal
  simp only [omitZero_getD, omitEmptyMap_getD]
  cases r with
  | mk timestamp startData name count total min max variance code error =>
    cases startData with
    | false => rfl
    | true => rfl

structure MetricsPoint where
  timestamp : Int
  value : ℚ

structure MetricsSeries where
  name : String
  labels : List (String × String)
  points : List MetricsPoint

/-- `ReportMeta`, times in seconds. -/
structure ReportMeta where
  reportID : String
  title : String
  startTime : Int
  endTime : Int
  agentIDs : List String
  createdAt : Int
  expiresAt : Option Int
  rawDataSize : Int
  reportSize : Int

/-- A stored text, by what it parses to. -/
inductive JsonText where
  | reportMeta (m : ReportMeta)
  | records (l : List (Option RecordJson))
  | series (l : List (Option MetricsSeries))
  | malformed (err : String)

/-- `json.Marshal(records)`. -/
def marshalTracings (records : List (Option TracingRecord)) : JsonText :=
  .records (records.map (·.map TracingRecord.marshal))

def unmarshalMeta : JsonText → Except String ReportMeta
  | .reportMeta m => .ok m
  | .malformed err => .error err
  | _ => .error "json: cannot unmarshal array into Go value of type report.ReportMeta"

/-- Into `[]*TracingRecord`. Of a metrics series only the name fits. -/
def unmarshalTracings : JsonText → Except String (List (Option TracingRecord))
  | .records l => .ok (l.map (·.map RecordJson.unmarshal))
  | .series l => .ok (l.map (·.map fun s => RecordJson.unmarshal
      { timestamp := 0, startRecord := none, name := s.name, count := 0, durationMs := none
        minDurationMs := none, maxDurationMs := none, variance := none, code := none
        error := none }))
  | .reportMeta _ => .error "json: cannot unmarshal object into Go value of type []*report.TracingRecord"
  | .malformed err => .error err

/-- Into `[]*MetricsSeries`. Of a tracing record only the name fits. -/
def unmarshalMetrics : JsonText → Except String (List (Option MetricsSeries))
  | .series l => .ok l
  | .records l => .ok (l.map (·.map fun r => { name := r.name, labels := [], points := [] }))
  | .reportMeta _ => .error "json: cannot unmarshal object into Go value of type []*report.MetricsSeries"
  | .malformed err => .error err

theorem unmarshalTracings_marshal (records : List (Option TracingRecord)) :
    unmarshalTracings (marshalTracings records) = .ok records := by
  unfold marshalTracings unmarshalTracings
  simp only [List.map_map]
  congr 1
  refine (List.map_congr_left fun r _ => ?_).trans (List.map_id _)
  cases r with
  | none => rfl
  | some r => exact congrArg some (unmarshal_marshal r)

/-! ## Writing -/

/-- The lists of the database: the existing keys and their items. -/
abbrev RedisLists : Type := Grouped String (List JsonText)

/-- `RPUSH`. -/
def RedisLists.rpush (db : RedisLists) (key : String) (item : JsonText) : RedisLists :=
  db.upsert key [] (· ++ [item])

/-- `LRANGE key 0 -1`; a missing key is an empty list. -/
def RedisLists.lrange (db : RedisLists) (key : String) : List JsonText := (db.buckets key).getD []

/-- `report:tracing:{reportID}:{agentID}`. -/
def tracingKey (reportID agentID : String) : String :=
  "report:tracing:" ++ reportID ++ ":" ++ agentID

/-- One call of `WriteTracings`, of the writer of `agentID`. -/
structure TracingWrite where
  reportID : String
  agentID : String
  records : List (Option TracingRecord)

def TracingWrite.key (w : TracingWrite) : String := tracingKey w.reportID w.agentID

/-- `WriteTracings`: nothing is stored for an empty slice. -/
def writeTracings (db : RedisLists) (w : TracingWrite) : RedisLists :=
  if w.records.length = 0 then db else db.rpush w.key (marshalTracings w.records)

/-- The lists after some calls, in the order they reached the server. -/
def storeWrites (writes : List TracingWrite) : RedisLists :=
  writes.foldl writeTracings Grouped.empty

/-! ## Reading -/

/-- A reply to `SCAN`: a page of keys and the next cursor. -/
abbrev ScanReply : Type := Except String (List String × UInt64)

/-- What the server answers during one `ReadReport`. The replies of the cursor loop for one
pattern are listed in the order they are asked for. -/
structure RedisClient where
  get : String → Except String JsonText
  scan : String → List ScanReply
  lrange : String → Except String (List JsonText)

/-- `scanKeys`. A loop that runs out of replies is ended by the context's deadline. -/
def scanKeys : List ScanReply → Except String (List String)
  | [] => .error "context deadline exceeded"
  | .error err :: _ => .error err
  | .ok (keys, cursor) :: replies =>
    if cursor = 0 then .ok keys
    else (scanKeys replies).map (keys ++ ·)

/-- The items of all chunks of one key; what cannot be read or parsed is passed over. -/
def readChunks {α : Type} (client : RedisClient) (unmarshal : JsonText → Except String (List α))
    (key : String) : List α :=
  match client.lrange key with
  | .error _ => []
  | .ok chunks => chunks.flatMap fun chunk =>
    match unmarshal chunk with
    | .error _ => []
    | .ok items => items

structure ReportData where
  reportMeta : ReportMeta
  tracings : List TracingRecord
  metrics : List (Option MetricsSeries)

/-- `fmt.Errorf("…: %w", err)`. -/
def wrapErr {α : Type} (text : String) : Except String α → Except String α
  | .ok a => .ok a
  | .error err => .error (text ++ ": " ++ err)

def tracingPattern (reportID : String) : String := "report:tracing:" ++ reportID ++ ":*"

def metricsPattern (reportID : String) : String := "report:metrics:" ++ reportID ++ ":*"

/-- `ReadReport`. -/
def readReport (client : Option RedisClient) (reportID : String) : Except String ReportData :=
  match client with
  | none => .error "redis client is nil"
  | some client => do
    let metaStr ← wrapErr "read meta" (client.get ("report:meta:" ++ reportID))
    let reportMeta ← wrapErr "unmarshal meta" (unmarshalMeta metaStr)
    let tracingKeys ← wrapErr "scan tracing keys" (scanKeys (client.scan (tracingPattern reportID)))
    let tracings := tracingKeys.flatMap (readChunks client unmarshalTracings)
    let metricsKeys ← wrapErr "scan metrics keys" (scanKeys (client.scan (metricsPattern reportID)))
    let metrics := metricsKeys.flatMap (readChunks client unmarshalMetrics)
    return { reportMeta := reportMeta
             tracings := compactTracingsBySecond tracings
             metrics := metrics }

/-! ## What `SCAN` promises -/

/-- A text without the characters a Redis pattern gives a meaning to. -/
def PlainText (s : String) : Prop := ∀ c ∈ s.toList, c ∉ ['*', '?', '[', '\\']

instance (s : String) : Decidable (PlainText s) :=
  inferInstanceAs (Decidable (∀ c ∈ s.toList, c ∉ ['*', '?', '[', '\\']))

/-- What is used of the server's pattern matching: a plain text and a final star. -/
def MatchesLiteralStar (glob : String → String → Prop) : Prop :=
  ∀ lit s : String, PlainText lit → (glob (lit ++ "*") s ↔ lit.toList <+: s.toList)

/-- The keys a cursor loop ends with: existing keys that match, and each of those at least
once. Pages, cursors, order and repetitions are up to the server. -/
structure ScanContract (glob : String → String → Prop) (db : RedisLists) (pattern : String)
    (replies : List ScanReply) (keys : List String) : Prop where
  returns : scanKeys replies = .ok keys
  sound : ∀ k ∈ keys, k ∈ db.order ∧ glob pattern k
  complete : ∀ k ∈ db.order, glob pattern k → k ∈ keys

end Robot.Report
