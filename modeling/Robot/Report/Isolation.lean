import Robot.Lib.Glob
import Robot.Report.Redis

/-!
# Reports side by side

All reports share one Redis database. What belongs to a report is found by its id: a few keys and
entries hold it whole, and the lists and sets of its agents and steps are found by a pattern that
ends in `:*`. The id goes into keys and patterns as it is, so two things can go wrong between a
report `a` and another report `b`: an id that continues `a` after a colon has keys that the pattern
of `a` matches, and an id with pattern characters matches other ids.

`KeyKind` is the fixed part of each key. No fixed part begins another one, so a key belongs to one
kind (`KeyKind.eq_of_prefixes`), and the question is only about ids:
`Apart a b` says that nothing that begins with `b` and a colon matches `a` followed by `:*`. It
decides both halves, what `ReadReport` returns and what `deleteReport` removes
(`reports_isolated_iff`), and for ids without pattern characters it says that neither id continues
the other after a colon (`apart_iff_of_plain`).
-/

namespace Robot.Report

open Robot.Lib Function List

/-! ## The database -/

inductive RedisValue where
  | text (t : JsonText)
  | list (l : List JsonText)
  | set (members : List String)
  | zset (scores : List (String × Int))
  | hash (fields : List (String × JsonText))

abbrev RedisDb : Type := String → Option RedisValue

/-- A command on one key; an error leaves the value as it is. -/
def RedisDb.modify (db : RedisDb) (key : String) (f : Option RedisValue → Option RedisValue) :
    RedisDb :=
  update db key (f (db key))

/-- `ZADD`. -/
def zadd (member : String) (score : Int) : Option RedisValue → Option RedisValue
  | none => some (.zset [(member, score)])
  | some (.zset l) => some (.zset ((member, score) :: l.filter fun e => e.1 ≠ member))
  | v => v

/-- `HSET`. -/
def hset (field : String) (t : JsonText) : Option RedisValue → Option RedisValue
  | none => some (.hash [(field, t)])
  | some (.hash l) => some (.hash ((field, t) :: l.filter fun e => e.1 ≠ field))
  | v => v

/-- `ZREM`; an empty set is no key. -/
def zrem (member : String) : Option RedisValue → Option RedisValue
  | some (.zset l) =>
    if (l.filter fun e => e.1 ≠ member).isEmpty then none
    else some (.zset (l.filter fun e => e.1 ≠ member))
  | v => v

/-- `HDEL`. -/
def hdel (field : String) : Option RedisValue → Option RedisValue
  | some (.hash l) =>
    if (l.filter fun e => e.1 ≠ field).isEmpty then none
    else some (.hash (l.filter fun e => e.1 ≠ field))
  | v => v

/-- `DEL`. -/
def RedisDb.del (db : RedisDb) (keys : List String) : RedisDb :=
  fun key => if key ∈ keys then none else db key

variable {a b id k key : String} {β : Type}

theorem RedisDb.modify_of_ne (db : RedisDb) (h : k ≠ key)
    (f : Option RedisValue → Option RedisValue) : db.modify key f k = db k :=
  update_of_ne h _ _

/-- A command that may fail. -/
def RedisDb.attempt (db : RedisDb) (ok : Bool) (key : String)
    (f : Option RedisValue → Option RedisValue) : RedisDb :=
  if ok then db.modify key f else db

theorem RedisDb.attempt_of_ne (db : RedisDb) (ok : Bool) (h : k ≠ key)
    (f : Option RedisValue → Option RedisValue) : db.attempt ok key f k = db k := by
  cases ok with
  | true => exact db.modify_of_ne h f
  | false => rfl

/-- What the command does to an entry it does not touch. -/
theorem RedisDb.attempt_kept (db : RedisDb) (ok : Bool) (key : String)
    {f : Option RedisValue → Option RedisValue} {g : Option RedisValue → β}
    (h : ∀ v, g (f v) = g v) : g (db.attempt ok key f key) = g (db key) := by
  cases ok with
  | true =>
    show g (update db key _ key) = _
    rw [update_self, h]
  | false => rfl

/-! ## What belongs to a report -/

/-- `report:metrics:{reportID}:{agentID}`. -/
def metricsKey (reportID agentID : String) : String :=
  "report:metrics:" ++ reportID ++ ":" ++ agentID

/-- `report:meta:{reportID}`. -/
def metaKey (reportID : String) : String := "report:meta:" ++ reportID

/-- `task:barrier:{reportID}:{caseIndex}`. -/
def barrierKey (reportID : String) (caseIndex : Int) : String :=
  "task:barrier:" ++ reportID ++ ":" ++ toString caseIndex

def barrierPattern (reportID : String) : String := "task:barrier:" ++ reportID ++ ":*"

/-- The places of a report. -/
inductive ReportSlot where
  | reportMeta
  | tracings (agentID : String)
  | metrics (agentID : String)
  | barrier (caseIndex : Int)
  | index
  | history

def slotKey (reportID : String) : ReportSlot → String
  | .reportMeta => metaKey reportID
  | .tracings agentID => tracingKey reportID agentID
  | .metrics agentID => metricsKey reportID agentID
  | .barrier caseIndex => barrierKey reportID caseIndex
  | .index => "report:index"
  | .history => "task:history"

def zscore (reportID : String) : Option RedisValue → Option RedisValue
  | some (.zset l) => (l.lookup reportID).map fun score => .zset [(reportID, score)]
  | _ => none

def hget (reportID : String) : Option RedisValue → Option RedisValue
  | some (.hash l) => (l.lookup reportID).map fun data => .hash [(reportID, data)]
  | _ => none

/-- What a report has in one of its places: the value of the key, or its own entry there. -/
def slotContent (db : RedisDb) (reportID : String) : ReportSlot → Option RedisValue
  | .index => zscore reportID (db "report:index")
  | .history => hget reportID (db "task:history")
  | slot => db (slotKey reportID slot)

/-! ## Deleting -/

/-- What the server answers during one `deleteReport`: the keys each cursor loop ended with, and
which commands succeeded (their errors are not looked at). -/
structure DeleteReplies where
  scan : String → List String
  del : Bool
  zrem : Bool
  hdel : Bool

/-- The keys that `deleteReport` passes to `DEL`. -/
def keysToDelete (id : String) (scan : String → List String) : List String :=
  metaKey id :: (scan (tracingPattern id) ++ scan (metricsPattern id) ++ scan (barrierPattern id))

/-- The Redis half of `deleteReport`. -/
def deleteReport (db : RedisDb) (id : String) (replies : DeleteReplies) : RedisDb :=
  ((if replies.del then db.del (keysToDelete id replies.scan) else db).attempt replies.zrem
    "report:index" (zrem id)).attempt replies.hdel "task:history" (hdel id)

/-- `SCAN MATCH` over the whole database selects the keys that match, in some order; an error may
cut the loop of `scanRedisKeys` short. -/
def Selects (db : RedisDb) (pattern : String) (keys : List String) : Prop :=
  ∃ all : List String, keys <+: all ∧
    ∀ k, k ∈ all ↔ (db k).isSome = true ∧ glob pattern.toList k.toList = true

/-- These patterns are what the reader's promises are stated over. -/
theorem glob_literalStar :
    MatchesLiteralStar fun pattern key => glob pattern.toList key.toList = true := by
  intro lit s hlit
  dsimp only
  rw [String.toList_append, glob_append lit.toList hlit]
  exact ⟨fun ⟨s', hs, _⟩ => ⟨s', hs.symm⟩, fun ⟨s', hs⟩ => ⟨s', hs.symm, glob_star s'⟩⟩

/-! ## Kinds of keys -/

/-- The fixed part of a key. -/
inductive KeyKind where
  | reportMeta
  | tracing
  | metrics
  | barrier
  | index
  | history
deriving DecidableEq

def KeyKind.text : KeyKind → List Char
  | .reportMeta => "report:meta:".toList
  | .tracing => "report:tracing:".toList
  | .metrics => "report:metrics:".toList
  | .barrier => "task:barrier:".toList
  | .index => "report:index".toList
  | .history => "task:history".toList

/-- No fixed part begins another one. -/
theorem KeyKind.eq_of_le {f g : KeyKind} (h : f.text <+: g.text) : f = g := by
  revert h
  cases f <;> cases g <;> decide

/-- **A key has one kind.** -/
theorem KeyKind.eq_of_prefixes {f g : KeyKind} {k : List Char} (hf : f.text <+: k)
    (hg : g.text <+: k) : f = g := by
  rcases prefix_or_prefix_of_prefix hf hg with h | h
  · exact KeyKind.eq_of_le h
  · exact (KeyKind.eq_of_le h).symm

def ReportSlot.kind : ReportSlot → KeyKind
  | .reportMeta => .reportMeta
  | .tracings _ => .tracing
  | .metrics _ => .metrics
  | .barrier _ => .barrier
  | .index => .index
  | .history => .history

/-- What follows the fixed part. -/
def ReportSlot.rest (reportID : String) : ReportSlot → List Char
  | .reportMeta => reportID.toList
  | .tracings agentID | .metrics agentID => reportID.toList ++ ':' :: agentID.toList
  | .barrier caseIndex => reportID.toList ++ ':' :: (toString caseIndex).toList
  | .index | .history => []

theorem toList_joined (fixed id rest : String) :
    (fixed ++ id ++ ":" ++ rest).toList = fixed.toList ++ (id.toList ++ ':' :: rest.toList) := by
  rw [String.toList_append, String.toList_append, String.toList_append, append_assoc,
    append_assoc]
  rfl

theorem slotKey_toList (reportID : String) (slot : ReportSlot) :
    (slotKey reportID slot).toList = slot.kind.text ++ slot.rest reportID := by
  cases slot with
  | reportMeta => exact String.toList_append
  | tracings agentID | metrics agentID => exact toList_joined _ _ _
  | barrier caseIndex => exact toList_joined _ _ _
  | index | history => exact (append_nil _).symm

/-- The patterns of the three kinds that are found by one. -/
def KeyKind.pattern (kind : KeyKind) (id : String) : List Char := kind.text ++ (id.toList ++ [':', '*'])

theorem toList_pattern (fixed id : String) :
    (fixed ++ id ++ ":*").toList = fixed.toList ++ (id.toList ++ [':', '*']) := by
  rw [String.toList_append, String.toList_append, append_assoc]
  rfl

theorem tracingPattern_toList (id : String) :
    (tracingPattern id).toList = KeyKind.tracing.pattern id := toList_pattern _ id

theorem metricsPattern_toList (id : String) :
    (metricsPattern id).toList = KeyKind.metrics.pattern id := toList_pattern _ id

theorem barrierPattern_toList (id : String) :
    (barrierPattern id).toList = KeyKind.barrier.pattern id := toList_pattern _ id

theorem KeyKind.plain (kind : KeyKind) : ∀ c ∈ kind.text, PlainChar c := by
  have hall : (kind.text.all fun c => decide (PlainChar c)) = true := by
    cases kind <;> decide
  exact fun c hc => of_decide_eq_true (all_eq_true.mp hall c hc)

/-- What the pattern of a kind matches is of that kind, and its rest matches. -/
theorem KeyKind.glob_pattern {kind : KeyKind} {k : List Char}
    (h : glob (kind.pattern id) k = true) :
    ∃ rest, k = kind.text ++ rest ∧ glob (id.toList ++ [':', '*']) rest = true :=
  (glob_append kind.text kind.plain _ k).mp h

/-! ## Isolation -/

/-- Nothing that begins with `b` and a colon matches the id `a` followed by `:*`. -/
def Apart (a b : String) : Prop :=
  ∀ rest : String, glob (a.toList ++ [':', '*']) (b.toList ++ ':' :: rest.toList) = false

/-- No place of `b` is found by a pattern of `a`. -/
theorem Apart.not_glob (h : Apart a b) (kind : KeyKind) (slot : ReportSlot)
    (hkind : kind = .tracing ∨ kind = .metrics ∨ kind = .barrier) :
    glob (kind.pattern a) (slotKey b slot).toList = false := by
  refine Bool.eq_false_iff.mpr fun hglob => ?_
  obtain ⟨rest, hrest, hmatch⟩ := KeyKind.glob_pattern hglob
  rw [slotKey_toList] at hrest
  have hbegins : kind.text <+: slot.kind.text ++ slot.rest b := by
    rw [hrest]
    exact prefix_append _ _
  have hsame : slot.kind = kind := KeyKind.eq_of_prefixes (prefix_append _ _) hbegins
  rw [hsame] at hrest
  have hrest' : slot.rest b = rest := append_cancel_left hrest
  subst hrest'
  cases slot with
  | tracings agentID | metrics agentID => exact absurd hmatch (Bool.eq_false_iff.mp (h _))
  | barrier caseIndex => exact absurd hmatch (Bool.eq_false_iff.mp (h _))
  | reportMeta | index | history =>
    rw [← hsame] at hkind
    rcases hkind with hk | hk | hk <;> cases hk

/-- `deleteReport` of `a` leaves what `b` has, whatever the server answers. -/
def DeleteIsolated (a b : String) : Prop :=
  ∀ (db : RedisDb) (replies : DeleteReplies), (∀ pattern, Selects db pattern (replies.scan pattern)) →
    ∀ slot, slotContent (deleteReport db a replies) b slot = slotContent db b slot

/-- Entries of other members stay. -/
theorem lookup_filter_ne (h : a ≠ b) (l : List (String × β)) :
    (l.filter fun e => e.1 ≠ a).lookup b = l.lookup b := by
  induction l with
  | nil => rfl
  | cons e l ih =>
    obtain ⟨k, v⟩ := e
    by_cases hk : k = a
    · have hbk : (b == k) = false := beq_eq_false_iff_ne.mpr fun hb => h (hk ▸ hb.symm)
      rw [filter_cons_of_neg (by simpa using hk), ih, lookup_cons, hbk]
    · rw [filter_cons_of_pos (by simpa using hk), lookup_cons, lookup_cons, ih]

/-- Where only the entry of `a` was, `b` has none. -/
theorem lookup_of_filter_isEmpty (h : a ≠ b) {l : List (String × β)}
    (hempty : (l.filter fun e => e.1 ≠ a).isEmpty = true) : l.lookup b = none := by
  rw [← lookup_filter_ne h l, isEmpty_iff.mp hempty]
  rfl

theorem zscore_zrem (h : a ≠ b) (v : Option RedisValue) :
    zscore b (zrem a v) = zscore b v := by
  match v with
  | some (.zset l) =>
    dsimp only [zrem]
    split_ifs with hempty
    · show none = (l.lookup b).map _
      rw [lookup_of_filter_isEmpty h hempty]
      rfl
    · show (List.lookup b _).map _ = (l.lookup b).map _
      rw [lookup_filter_ne h]
  | none | some (.text _) | some (.list _) | some (.set _) | some (.hash _) => rfl

theorem hget_hdel (h : a ≠ b) (v : Option RedisValue) :
    hget b (hdel a v) = hget b v := by
  match v with
  | some (.hash l) =>
    dsimp only [hdel]
    split_ifs with hempty
    · show none = (l.lookup b).map _
      rw [lookup_of_filter_isEmpty h hempty]
      rfl
    · show (List.lookup b _).map _ = (l.lookup b).map _
      rw [lookup_filter_ne h]
  | none | some (.text _) | some (.list _) | some (.set _) | some (.zset _) => rfl

/-- Places of different kinds have different keys. -/
theorem slotKey_ne {s t : ReportSlot} (h : s.kind ≠ t.kind) :
    slotKey a s ≠ slotKey b t := by
  intro he
  refine h (KeyKind.eq_of_prefixes (k := (slotKey a s).toList) ?_ ?_)
  · rw [slotKey_toList]
    exact prefix_append _ _
  · rw [he, slotKey_toList]
    exact prefix_append _ _

theorem not_mem_keysToDelete (hab : a ≠ b) (h : Apart a b) {db : RedisDb}
    {scan : String → List String} (hscan : ∀ pattern, Selects db pattern (scan pattern))
    (slot : ReportSlot) : slotKey b slot ∉ keysToDelete a scan := by
  -- what a pattern of `a` finds is not a place of `b`
  have hunseen : ∀ (kind : KeyKind) (pattern : String),
      (kind = .tracing ∨ kind = .metrics ∨ kind = .barrier) → pattern.toList = kind.pattern a →
      slotKey b slot ∉ scan pattern := by
    intro kind pattern hkind hpattern hmem
    obtain ⟨all, hle, hall⟩ := hscan pattern
    have hglob := ((hall _).mp (hle.subset hmem)).2
    rw [hpattern, h.not_glob kind slot hkind] at hglob
    cases hglob
  intro hmem
  rcases mem_cons.mp hmem with hmeta | hmem
  · -- the meta key of `b` is another one, and no other place has a meta key
    by_cases hslot : slot = .reportMeta
    · rw [hslot] at hmeta
      have hlist := congrArg String.toList hmeta
      have ha := slotKey_toList a .reportMeta
      rw [slotKey_toList] at hlist
      exact hab (String.toList_inj.mp (append_cancel_left (hlist.trans ha)).symm)
    · refine slotKey_ne (t := .reportMeta) (fun hkind => hslot ?_) hmeta
      cases slot <;> first | rfl | cases hkind
  · rcases mem_append.mp hmem with hmem | hmem
    · rcases mem_append.mp hmem with hmem | hmem
      · exact hunseen .tracing _ (.inl rfl) (tracingPattern_toList a) hmem
      · exact hunseen .metrics _ (.inr (.inl rfl)) (metricsPattern_toList a) hmem
    · exact hunseen .barrier _ (.inr (.inr rfl)) (barrierPattern_toList a) hmem

theorem Apart.deleteIsolated (hab : a ≠ b) (h : Apart a b) : DeleteIsolated a b := by
  intro db replies hscan slot
  have hdel : ∀ slot, (if replies.del then db.del (keysToDelete a replies.scan) else db)
      (slotKey b slot) = db (slotKey b slot) := by
    intro slot
    split_ifs
    · exact if_neg (not_mem_keysToDelete hab h hscan slot)
    · rfl
  -- `ZREM` and `HDEL` touch their own keys, and there the entry of `a`
  have hindex : ∀ s : ReportSlot, s.kind ≠ .index → slotKey b s ≠ "report:index" :=
    fun s hs => slotKey_ne (b := b) (t := .index) hs
  have hhistory : ∀ s : ReportSlot, s.kind ≠ .history → slotKey b s ≠ "task:history" :=
    fun s hs => slotKey_ne (b := b) (t := .history) hs
  have hkeys : ∀ s : ReportSlot, s.kind ≠ .index → s.kind ≠ .history →
      deleteReport db a replies (slotKey b s) = db (slotKey b s) := by
    intro s hi hh
    unfold deleteReport
    rw [RedisDb.attempt_of_ne _ _ (hhistory s hh), RedisDb.attempt_of_ne _ _ (hindex s hi), hdel s]
  cases slot with
  | reportMeta => exact hkeys .reportMeta nofun nofun
  | tracings agentID => exact hkeys (.tracings agentID) nofun nofun
  | metrics agentID => exact hkeys (.metrics agentID) nofun nofun
  | barrier caseIndex => exact hkeys (.barrier caseIndex) nofun nofun
  | index =>
    show zscore b (deleteReport db a replies "report:index") = zscore b (db "report:index")
    have hne : "report:index" ≠ "task:history" := hhistory .index nofun
    unfold deleteReport
    rw [RedisDb.attempt_of_ne _ _ hne, RedisDb.attempt_kept _ _ _ (zscore_zrem hab)]
    exact congrArg (zscore b) (hdel .index)
  | history =>
    show hget b (deleteReport db a replies "task:history") = hget b (db "task:history")
    have hne : "task:history" ≠ "report:index" := hindex .history nofun
    unfold deleteReport
    rw [RedisDb.attempt_kept _ _ _ (hget_hdel hab), RedisDb.attempt_of_ne _ _ hne]
    exact congrArg (hget b) (hdel .history)

/-- A database with one list. -/
def oneList (key : String) (items : List JsonText) : RedisDb :=
  fun k => if k = key then some (.list items) else none

/-- `SCAN` over a database of one key. -/
def scanOne (key pattern : String) : List String :=
  if glob pattern.toList key.toList then [key] else []

theorem mem_scanOne (key : String) (items : List JsonText) (pattern k : String) :
    k ∈ scanOne key pattern ↔
      (oneList key items k).isSome = true ∧ glob pattern.toList k.toList = true := by
  unfold scanOne oneList
  by_cases hk : k = key
  · subst hk
    by_cases hglob : glob pattern.toList k.toList = true
    · simp [hglob]
    · simp [hglob]
  · split_ifs <;> simp [hk]

theorem glob_slotKey {kind : KeyKind} {s : ReportSlot} (hkind : s.kind = kind)
    (h : glob (a.toList ++ [':', '*']) (s.rest b) = true) :
    glob (kind.pattern a) (slotKey b s).toList = true := by
  rw [slotKey_toList, hkind]
  exact (glob_append _ kind.plain _ _).mpr ⟨_, rfl, h⟩

/-- A key that matches is deleted. -/
theorem apart_of_deleteIsolated (h : DeleteIsolated a b) : Apart a b := by
  intro agentID
  refine Bool.eq_false_iff.mpr fun hglob => ?_
  have hmatch : glob (tracingPattern a).toList (tracingKey b agentID).toList = true := by
    rw [tracingPattern_toList]
    exact glob_slotKey (s := .tracings agentID) rfl hglob
  have hindex : tracingKey b agentID ≠ "report:index" :=
    slotKey_ne (b := b) (s := .tracings agentID) (t := .index) nofun
  have hhistory : tracingKey b agentID ≠ "task:history" :=
    slotKey_ne (b := b) (s := .tracings agentID) (t := .history) nofun
  have hkept := h (oneList (tracingKey b agentID) [])
    ⟨scanOne (tracingKey b agentID), true, true, true⟩
    (fun pattern => ⟨_, prefix_refl _, mem_scanOne _ [] pattern⟩) (.tracings agentID)
  change deleteReport _ _ _ (tracingKey b agentID) = oneList _ _ (tracingKey b agentID) at hkept
  generalize tracingKey b agentID = key at hmatch hindex hhistory hkept
  have hdeleted : key ∈ keysToDelete a (scanOne key) := by
    refine mem_cons_of_mem _ (mem_append_left _ (mem_append_left _ ?_))
    exact (mem_scanOne key [] _ _).mpr ⟨by simp [oneList], hmatch⟩
  unfold deleteReport at hkept
  rw [RedisDb.attempt_of_ne _ _ hhistory, RedisDb.attempt_of_ne _ _ hindex, if_pos rfl] at hkept
  simp [RedisDb.del, hdeleted, oneList] at hkept

/-! ## Reading -/

/-- What `ReadReport` of `a` returns does not depend on what the lists of `b` hold. -/
def ReadIsolated (a b : String) : Prop :=
  ∀ (db : RedisDb) (client : RedisClient),
    (∀ pattern keys, scanKeys (client.scan pattern) = .ok keys →
      ∀ k, k ∈ keys ↔ (db k).isSome = true ∧ glob pattern.toList k.toList = true) →
    ∀ lists : String → Except String (List JsonText),
      (∀ k, (∀ slot, k ≠ slotKey b slot) → lists k = client.lrange k) →
      readReport (some { client with lrange := lists }) a = readReport (some client) a

/-- `ReadReport` looks at the lists of the keys that were scanned. -/
theorem readReport_congr {client : RedisClient} {lists : String → Except String (List JsonText)}
    (h : ∀ pattern keys, pattern = tracingPattern id ∨ pattern = metricsPattern id →
      scanKeys (client.scan pattern) = .ok keys → ∀ k ∈ keys, lists k = client.lrange k) :
    readReport (some { client with lrange := lists }) id = readReport (some client) id := by
  have hchunks : ∀ {α : Type} (u : JsonText → Except String (List α)) (keys : List String),
      (∀ k ∈ keys, lists k = client.lrange k) →
      keys.flatMap (readChunks { client with lrange := lists } u) = keys.flatMap (readChunks client u) := by
    intro α u keys hkeys
    refine flatMap_congr fun k hk => ?_
    unfold readChunks
    dsimp only
    rw [hkeys k hk]
  unfold readReport
  dsimp only
  refine bind_congr fun metaStr => bind_congr fun reportMeta => ?_
  cases htracing : scanKeys (client.scan (tracingPattern id)) with
  | error err => rfl
  | ok tracingKeys =>
    cases hmetrics : scanKeys (client.scan (metricsPattern id)) with
    | error err => rfl
    | ok metricsKeys =>
      show Except.ok _ = Except.ok _
      rw [hchunks _ _ (h _ _ (.inl rfl) htracing), hchunks _ _ (h _ _ (.inr rfl) hmetrics)]

theorem Apart.readIsolated (h : Apart a b) : ReadIsolated a b := by
  intro db client hscan lists hlists
  refine readReport_congr fun pattern keys hpattern hkeys k hk => hlists k fun slot hslot => ?_
  have hglob := ((hscan pattern keys hkeys k).mp hk).2
  rw [hslot] at hglob
  rcases hpattern with rfl | rfl
  · rw [tracingPattern_toList, h.not_glob .tracing slot (.inl rfl)] at hglob
    cases hglob
  · rw [metricsPattern_toList, h.not_glob .metrics slot (.inr (.inl rfl))] at hglob
    cases hglob

/-- The meta data of a report, for a reader that only looks at the id. -/
def sampleMeta (id : String) : ReportMeta :=
  { reportID := id, title := id, startTime := 0, endTime := 0, agentIDs := [], createdAt := 0
    expiresAt := none, rawDataSize := 0, reportSize := 0 }

/-- A server with the meta data of `id` and one list of metrics. -/
def oneListClient (id key : String) (items : List JsonText) : RedisClient where
  get _ := .ok (.reportMeta (sampleMeta id))
  scan pattern := [.ok (scanOne key pattern, 0)]
  lrange k := .ok (if k = key then items else [])

theorem readReport_oneListClient (items : List (Option MetricsSeries))
    (h : glob (metricsPattern id).toList key.toList = true) :
    ∃ data, readReport (some (oneListClient id key [.series items])) id = .ok data ∧
      data.metrics = items := by
  refine ⟨_, rfl, ?_⟩
  show (scanOne key (metricsPattern id)).flatMap _ = items
  unfold scanOne
  rw [if_pos h, flatMap_singleton]
  unfold readChunks oneListClient
  simp [unmarshalMetrics]

/-- A list that matches is read. -/
theorem apart_of_readIsolated (h : ReadIsolated a b) : Apart a b := by
  intro agentID
  refine Bool.eq_false_iff.mpr fun hglob => ?_
  have hmatch : glob (metricsPattern a).toList (metricsKey b agentID).toList = true := by
    rw [metricsPattern_toList]
    exact glob_slotKey (s := .metrics agentID) rfl hglob
  obtain ⟨data, hdata, hmetrics⟩ := readReport_oneListClient [some ⟨b, [], []⟩] hmatch
  obtain ⟨data', hdata', hmetrics'⟩ := readReport_oneListClient [] hmatch
  -- the two servers differ in what the list of `b` holds
  have hsame := h (oneList (metricsKey b agentID) [])
    (oneListClient a (metricsKey b agentID) [.series [some ⟨b, [], []⟩]])
    (fun pattern keys hkeys k => by
      cases hkeys
      exact mem_scanOne (metricsKey b agentID) [] pattern k)
    (oneListClient a (metricsKey b agentID) [.series []]).lrange
    (fun k hk => by
      have hne : k ≠ metricsKey b agentID := hk (.metrics agentID)
      simp only [oneListClient, if_neg hne])
  have heq : data' = data := by
    refine Except.ok.inj (hdata'.symm.trans (Eq.trans ?_ hdata))
    exact hsame
  rw [heq, hmetrics] at hmetrics'
  cases hmetrics'

/-! ## Both halves -/

/-- **Reports are isolated from one another**, in reading and in deleting, if and only if nothing
that begins with the second id and a colon matches the first id followed by `:*`. -/
theorem reports_isolated_iff {a b : String} (hab : a ≠ b) :
    (ReadIsolated a b ↔ Apart a b) ∧ (DeleteIsolated a b ↔ Apart a b) :=
  ⟨⟨apart_of_readIsolated, Apart.readIsolated⟩, ⟨apart_of_deleteIsolated, Apart.deleteIsolated hab⟩⟩

/-- For an id without pattern characters: neither id continues the other after a colon. -/
theorem apart_iff_of_plain (hab : a ≠ b) (ha : PlainText a) :
    Apart a b ↔ ¬ a.toList ++ [':'] <+: b.toList ∧ ¬ b.toList ++ [':'] <+: a.toList := by
  have hplain : PlainText (a ++ ":") := by
    intro c hc
    rw [String.toList_append] at hc
    rcases mem_append.mp hc with hc | hc
    · exact ha c hc
    · rw [mem_singleton.mp hc]
      decide
  have hglob : ∀ s : List Char, glob (a.toList ++ [':', '*']) s = true ↔ a.toList ++ [':'] <+: s := by
    intro s
    have h := glob_literalStar (a ++ ":") (String.ofList s) hplain
    dsimp only at h
    rw [String.toList_append, String.toList_append, String.toList_ofList (l := s), append_assoc] at h
    exact h
  have hcolon : ∀ rest : List Char, b.toList ++ ':' :: rest = (b.toList ++ [':']) ++ rest := by simp
  have hne : a.toList ++ [':'] ≠ b.toList ++ [':'] := fun he =>
    hab (String.toList_inj.mp (append_cancel_right he))
  constructor
  · intro h
    refine ⟨fun hle => ?_, fun hle => ?_⟩
    · have hfalse := h ""
      rw [(hglob _).mpr (hle.trans (prefix_append _ _))] at hfalse
      cases hfalse
    · -- complete `b` and the colon to `a` and a colon
      obtain ⟨t, ht⟩ := hle
      have hfalse := h (String.ofList (t ++ [':']))
      rw [String.toList_ofList, hcolon, ← append_assoc, ht,
        (hglob _).mpr (prefix_refl _)] at hfalse
      cases hfalse
  · intro ⟨hab', hba'⟩ rest
    refine Bool.eq_false_iff.mpr fun hmatch => ?_
    rw [hglob, hcolon] at hmatch
    rcases prefix_or_prefix_of_prefix hmatch (prefix_append _ _) with hle | hle
    · rcases prefix_concat_iff.mp hle with he | hle
      · exact hne he
      · exact hab' hle
    · rcases prefix_concat_iff.mp hle with he | hle
      · exact hne he.symm
      · exact hba' hle

theorem consecutive_runs_isolated : ReadIsolated "run-1" "run-12" ∧ DeleteIsolated "run-1" "run-12" := by
  have hne : "run-1" ≠ "run-12" := by decide
  have hapart : Apart "run-1" "run-12" :=
    (apart_iff_of_plain hne (by simp [PlainText])).mpr ⟨by decide, by decide⟩
  exact ⟨(reports_isolated_iff hne).1.mpr hapart, (reports_isolated_iff hne).2.mpr hapart⟩

/-- The id `r` and the id `r:1`. -/
theorem continued_id_not_isolated : ¬ ReadIsolated "r" "r:1" ∧ ¬ DeleteIsolated "r" "r:1" := by
  have hapart : ¬ Apart "r" "r:1" := fun h => absurd (h "agent") (by decide)
  exact ⟨fun h => hapart (apart_of_readIsolated h), fun h => hapart (apart_of_deleteIsolated h)⟩

end Robot.Report
