import Robot.Lib.Scanner
import Robot.Case.Params

/-!
# The case file

`case/parse_case.go`, and the control lines of `case/control.go`. A case file is read line by line:
what follows a `#` is a comment, the rest is trimmed and cut into arguments, a last argument `&`
puts the line into the background, and what is left is a control instruction (`@name`) or a stress
line. `splitCaseLine` cuts at white space outside of quotes; there is no escaping, and a quote opens
and closes wherever it stands.

The loop of `ParseCaseFileContent` is a `foldlM` over what the scanner delivers, with the lines parsed
so far and the account prefix that background lines have fixed. Conversions of numbers are
`strconv`'s, and are a parameter.

What the loop makes of the lines it sees is one entry for each line with arguments, in order
(`parseLines_entries`). Whether it sees all lines is the scanner's business, and `scanner.Err()` is not
asked: the file is cut silently if and only if a line that is too long, or one after it, has
arguments, and no line before it is rejected (`never_truncated_iff`).
-/

namespace Robot.Case

open Robot.Lib List

/-! ## Arguments -/

def singleQuote : Char := '\x27'

def doubleQuote : Char := '\x22'

/-- The variables of the loop of `splitCaseLine`. -/
structure SplitState where
  args : List String
  current : List Char
  quote : Option Char
  hasCurrent : Bool
deriving DecidableEq, Repr

namespace SplitState

def start : SplitState := ⟨[], [], none, false⟩

def flush (st : SplitState) : SplitState :=
  if st.hasCurrent then
    { st with args := st.args ++ [String.ofList st.current], current := [], hasCurrent := false }
  else st

/-- The body of the loop. -/
def next (st : SplitState) (character : Char) : SplitState :=
  match st.quote with
  | some quote =>
    if character = quote then { st with quote := none }
    else { st with current := st.current ++ [character] }
  | none =>
    if character = singleQuote ∨ character = doubleQuote then
      { st with quote := some character, hasCurrent := true }
    else if isSpace character then st.flush
    else { st with current := st.current ++ [character], hasCurrent := true }

/-- A character that stands for itself outside of quotes. -/
structure Plain (c : Char) : Prop where
  single : c ≠ singleQuote
  double : c ≠ doubleQuote
  space : isSpace c = false

theorem next_plain {c : Char} (h : Plain c) (args : List String) (current : List Char)
    (hasCurrent : Bool) :
    next ⟨args, current, none, hasCurrent⟩ c = ⟨args, current ++ [c], none, true⟩ := by
  unfold next
  dsimp only
  rw [if_neg (not_or.mpr ⟨h.single, h.double⟩), h.space]
  rfl

/-- A word outside of quotes. -/
theorem foldl_plain : ∀ {word : List Char}, word ≠ [] → (∀ c ∈ word, Plain c) →
    ∀ (args : List String) (current : List Char) (hasCurrent : Bool),
      word.foldl next ⟨args, current, none, hasCurrent⟩ = ⟨args, current ++ word, none, true⟩ := by
  intro word
  induction word with
  | nil => intro h; exact absurd rfl h
  | cons c cs ih =>
    intro _ hplain args current hasCurrent
    rw [foldl_cons, next_plain (hplain c mem_cons_self)]
    by_cases hcs : cs = []
    · subst hcs
      rfl
    · rw [ih hcs (fun d hd => hplain d (mem_cons_of_mem _ hd)), append_assoc]
      rfl

end SplitState

/-- `%q` of a quote. -/
def quotedRune (c : Char) : String :=
  if c = singleQuote then "\x27\\\x27\x27" else String.ofList [singleQuote, c, singleQuote]

def splitCaseLine (line : List Char) : Except String (List String) :=
  let st := line.foldl SplitState.next .start
  match st.quote with
  | some quote => .error ("unterminated quote " ++ quotedRune quote)
  | none => .ok st.flush.args

/-- `raw[:strings.Index(raw, "#")]`. -/
def stripComment (raw : List Char) : List Char := raw.takeWhile fun c => decide (c ≠ '#')

/-- The arguments of a line, and whether `&` followed them. An empty line has none. No other text
than `&` has `&` as its lower case. -/
def lineArgs (raw : List Char) : Except String (List String × Bool) :=
  let line := trimSpace (stripComment raw)
  if line = [] then .ok ([], false)
  else
    match splitCaseLine line with
    | .error e => .error e
    | .ok args => .ok (if args.getLast? = some "&" then (args.dropLast, true) else (args, false))

/-- A line that is one plain word. -/
theorem lineArgs_word {word : List Char} (hne : word ≠ [])
    (hplain : ∀ c ∈ word, SplitState.Plain c ∧ c ≠ '#' ∧ c ≠ '&') :
    lineArgs word = .ok ([String.ofList word], false) := by
  have hstrip : stripComment word = word :=
    takeWhile_eq_self_iff.mpr fun c hc => decide_eq_true (hplain c hc).2.1
  have htrim : trimSpace word = word := by
    obtain ⟨c, cs, rfl⟩ := exists_cons_of_ne_nil hne
    rw [trimSpace_cons (hplain c mem_cons_self).1.space]
    refine congrArg (c :: ·) ?_
    induction cs using List.reverseRecOn with
    | nil => rfl
    | append_singleton l x _ =>
      have hx : x ∈ c :: (l ++ [x]) := by simp
      exact rdropWhile_concat_neg _ _ _ (by rw [(hplain x hx).1.space]; nofun)
  have hsplit : splitCaseLine word = .ok [String.ofList word] := by
    unfold splitCaseLine SplitState.start
    rw [SplitState.foldl_plain hne fun c hc => (hplain c hc).1]
    rfl
  have hlast : [String.ofList word].getLast? ≠ some "&" := by
    intro he
    have hword : word = ['&'] := by
      have hsame : String.ofList word = "&" := Option.some.inj he
      rw [← String.toList_ofList (l := word), hsame]
      rfl
    exact (hplain '&' (by rw [hword]; exact mem_cons_self)).2.2 rfl
  unfold lineArgs
  rw [hstrip, htrim, if_neg hne, hsplit]
  dsimp only
  rw [if_neg hlast]

/-! ## Control instructions -/

def isControlLine (firstArg : String) : Bool := firstArg.toList.head? = some '@'

/-- `strings.TrimPrefix(firstArg, "@")`. -/
def controlName (firstArg : String) : String :=
  if isControlLine firstArg then String.ofList firstArg.toList.tail else firstArg

/-- The flag of a line: `true` in any case, or `1`. -/
def parseErrorBreak (arg : String) : Bool :=
  decide (arg.toList.map Char.toLower = "true".toList ∨ arg = "1")

def parseControlLine : List String → Except String ControlParams
  | first :: errorBreak :: rest =>
    if controlName first = "" then .error "control instruction name is empty"
    else .ok
      { name := controlName first
        caseIndex := 0
        errorBreak := parseErrorBreak errorBreak
        background := false
        args := rest }
  | _ => .error "control instruction needs at least 2 args: @Name ErrorBreak [args...]"

/-! ## Stress lines -/

/-- The conversions of `strconv`, with their errors. -/
structure Strconv where
  parseInt : String → Except String Int64
  parseFloat : String → Except String ℚ

def parseLine (strconv : Strconv) : List String → Except String Params
  | caseName :: errorBreak :: openIDPrefix :: idStart :: idEnd :: targetQPS :: userBatchCount ::
      runTime :: extraArgs => do
    let idStart ← (strconv.parseInt idStart).mapError ("idStart parse error: " ++ ·)
    let idEnd ← (strconv.parseInt idEnd).mapError ("idEnd parse error: " ++ ·)
    let targetQPS ← (strconv.parseFloat targetQPS).mapError ("targetQPS parse error: " ++ ·)
    let userBatchCount ← (strconv.parseInt userBatchCount).mapError ("userBatchCount parse error: " ++ ·)
    let runTime ← (strconv.parseInt runTime).mapError ("runTime parse error: " ++ ·)
    return {
      caseName := caseName
      caseIndex := 0
      errorBreak := parseErrorBreak errorBreak
      openIDPrefix := openIDPrefix
      openIDStart := idStart
      openIDEnd := idEnd
      targetQPS := targetQPS
      userBatchCount := userBatchCount
      runTime := runTime
      extraArgs := extraArgs }
  | _ => .error "Args Error: need at least 8 args (CaseName ErrorBreak IDPrefix IDStart IDEnd TargetQPS UserBatchCount RunTime)"

/-! ## The file -/

/-- `Params{}`. -/
def zeroParams : Params where
  caseName := ""
  caseIndex := 0
  errorBreak := false
  openIDPrefix := ""
  openIDStart := 0
  openIDEnd := 0
  userBatchCount := 0
  runTime := 0
  extraArgs := []

/-- `ControlParams{}`. -/
def zeroControl : ControlParams where
  name := ""
  caseIndex := 0
  errorBreak := false
  background := false
  args := []

/-- The variables of the loop of `ParseCaseFileContent`. -/
structure CaseFileState where
  lines : List CaseFileLine
  openIdPrefixCheck : String

/-- `line %d: %w`. -/
def atLine (n : ℕ) (err : String) : String := "line " ++ toString n ++ ": " ++ err

def controlEntry (index : ℕ) (background : Bool) (cp : ControlParams) : CaseFileLine where
  isControl := true
  backgroundRunning := background
  stress := zeroParams
  control := { cp with caseIndex := index, background := background }

def stressEntry (index : ℕ) (background : Bool) (params : Params) : CaseFileLine where
  isControl := false
  backgroundRunning := background
  stress := { params with caseIndex := index }
  control := zeroControl

/-- A line with arguments. -/
def parseArgs (strconv : Strconv) (st : CaseFileState) (args : List String) (background : Bool) :
    Except String CaseFileState :=
  if isControlLine (args.headD "") then
    match parseControlLine args with
    | .error e => .error (atLine st.lines.length e)
    | .ok cp => .ok { st with lines := st.lines ++ [controlEntry st.lines.length background cp] }
  else
    match parseLine strconv args with
    | .error e => .error (atLine st.lines.length e)
    | .ok params =>
      if st.openIdPrefixCheck ≠ "" ∧ params.openIDPrefix ≠ st.openIdPrefixCheck then
        .error (atLine st.lines.length ("OpenIDPrefix " ++ params.openIDPrefix ++
          " does not match previous lines\x27 prefix " ++ st.openIdPrefixCheck))
      else .ok
        { lines := st.lines ++ [stressEntry st.lines.length background params]
          openIdPrefixCheck := if background then params.openIDPrefix else "" }

/-- The body of the loop. -/
def parseRaw (strconv : Strconv) (st : CaseFileState) (raw : List Char) :
    Except String CaseFileState :=
  match lineArgs raw with
  | .error e => .error (atLine st.lines.length ("parse arguments: " ++ e))
  | .ok ([], _) => .ok st
  | .ok (arg :: args, background) => parseArgs strconv st (arg :: args) background

/-- The loop, over the lines that it gets. -/
def parseLines (strconv : Strconv) (raws : List (List Char)) : Except String CaseFileState :=
  raws.foldlM (parseRaw strconv) ⟨[], ""⟩

def parseCaseFileContent (strconv : Strconv) (content : String) : Except String (List CaseFileLine) :=
  match parseLines strconv (scannedLines content.toList) with
  | .error e => .error e
  | .ok st => .ok st.lines

/-! ## One entry for each line with arguments -/

/-- Something is left of the line besides a comment and a trailing `&`, be it readable or not. -/
def hasArgs (raw : List Char) : Bool :=
  match lineArgs raw with
  | .ok ([], _) => false
  | _ => true

/-- The index of the record that the line uses. -/
def CaseFileLine.caseIndex (line : CaseFileLine) : ℕ :=
  if line.isControl then line.control.caseIndex else line.stress.caseIndex

/-- The entry holds what its arguments say, as a control instruction or as a stress line. -/
def CaseFileLine.ReadsAs (strconv : Strconv) (line : CaseFileLine) (args : List String) : Prop :=
  if isControlLine (args.headD "") then
    ∃ cp, parseControlLine args = .ok cp ∧ line = controlEntry line.caseIndex line.backgroundRunning cp
  else
    ∃ params, parseLine strconv args = .ok params ∧
      line = stressEntry line.caseIndex line.backgroundRunning params

/-- The entry at place `i` is that of the line `raw`. -/
structure EntryOf (strconv : Strconv) (raw : List Char) (i : ℕ) (line : CaseFileLine) : Prop where
  index : line.caseIndex = i
  read : ∃ args, args ≠ [] ∧ lineArgs raw = .ok (args, line.backgroundRunning) ∧
    line.ReadsAs strconv args

/-- The entries are those of the lines with arguments, in order, from place `n` on. -/
def EntriesFrom (strconv : Strconv) (n : ℕ) (raws : List (List Char)) (lines : List CaseFileLine) :
    Prop :=
  List.Forall₂ (fun raw line => EntryOf strconv raw.1 raw.2 line) ((raws.filter hasArgs).zipIdx n) lines

variable {raw : List Char} {background : Bool} {strconv : Strconv} {st : CaseFileState}

theorem hasArgs_of_nil (h : lineArgs raw = .ok ([], background)) : hasArgs raw = false := by
  unfold hasArgs
  rw [h]

theorem hasArgs_of_cons {arg : String} {args : List String}
    (h : lineArgs raw = .ok (arg :: args, background)) : hasArgs raw = true := by
  unfold hasArgs
  rw [h]

/-- A line with arguments becomes an entry, or is rejected. -/
theorem parseArgs_entry {st' : CaseFileState} {args : List String}
     (h : parseArgs strconv st args background = .ok st') :
    ∃ line : CaseFileLine, st'.lines = st.lines ++ [line] ∧ line.caseIndex = st.lines.length ∧
      line.backgroundRunning = background ∧ line.ReadsAs strconv args := by
  unfold parseArgs at h
  unfold CaseFileLine.ReadsAs
  split at h
  · next hcontrol =>
    split at h
    · cases h
    · next cp hcp =>
      cases h
      refine ⟨_, rfl, rfl, rfl, ?_⟩
      rw [if_pos hcontrol]
      exact ⟨cp, hcp, rfl⟩
  · next hstress =>
    split at h
    · cases h
    · next params hparams =>
      split at h
      · cases h
      · cases h
        refine ⟨_, rfl, rfl, rfl, ?_⟩
        rw [if_neg hstress]
        exact ⟨params, hparams, rfl⟩

/-- **One line**: it is skipped, or becomes the next entry. -/
theorem parseRaw_entry {st' : CaseFileState} (h : parseRaw strconv st raw = .ok st') :
    hasArgs raw = false ∧ st' = st ∨ hasArgs raw = true ∧ ∃ line, st'.lines = st.lines ++ [line] ∧
        EntryOf strconv raw st.lines.length line := by
  unfold parseRaw at h
  split at h
  · cases h
  · next hargs =>
    cases h
    exact .inl ⟨hasArgs_of_nil hargs, rfl⟩
  · next arg args background hargs =>
    obtain ⟨line, hlines, hindex, hbackground, hreads⟩ := parseArgs_entry h
    refine .inr ⟨hasArgs_of_cons hargs, line, hlines, hindex, arg :: args, nofun, ?_, hreads⟩
    rw [hbackground]
    exact hargs

/-- As many entries as lines with arguments. -/
theorem EntriesFrom.length {n : ℕ} {raws : List (List Char)}
    {lines : List CaseFileLine} (h : EntriesFrom strconv n raws lines) :
    lines.length = (raws.filter hasArgs).length := by
  rw [← List.Forall₂.length_eq h, length_zipIdx]

theorem EntriesFrom.step {done : List (List Char)} {st' : CaseFileState}
    (hdone : EntriesFrom strconv 0 done st.lines) (h : parseRaw strconv st raw = .ok st') :
    EntriesFrom strconv 0 (done ++ [raw]) st'.lines := by
  have hlength := hdone.length
  unfold EntriesFrom at hdone ⊢
  rw [filter_append]
  rcases parseRaw_entry h with ⟨hnone, rfl⟩ | ⟨hsome, line, hlines, hentry⟩
  · rw [filter_cons_of_neg (by rw [hnone]; nofun), filter_nil, append_nil]
    exact hdone
  · rw [filter_cons_of_pos hsome, filter_nil, zipIdx_append, hlines]
    rw [hlength] at hentry
    exact List.rel_append hdone (.cons (by rwa [Nat.zero_add]) .nil)

/-- **The loop** over the lines it gets. -/
theorem parseLines_entries {raws : List (List Char)}
    (h : parseLines strconv raws = .ok st) : EntriesFrom strconv 0 raws st.lines := by
  have hstart : EntriesFrom strconv 0 [] [] := .nil
  exact foldlM_inv (P := fun done st => EntriesFrom strconv 0 done st.lines) hstart EntriesFrom.step h

/-! ## The whole file -/

/-- The lines of the content, whether the scanner delivers them or not. -/
def contentLines (content : String) : List (List Char) := (textLines content.toList).map dropCR

/-- A result without an error has an entry for each line with arguments, in order. -/
def NeverTruncated (strconv : Strconv) (content : String) : Prop :=
  ∀ lines, parseCaseFileContent strconv content = .ok lines →
    EntriesFrom strconv 0 (contentLines content) lines

/-- **A case file is never cut silently** if and only if a line of 64 KiB or more and the lines after it
have no arguments, or a line before it is rejected. -/
theorem never_truncated_iff (strconv : Strconv) (content : String) :
    NeverTruncated strconv content ↔
      (∀ raw ∈ unscannedLines content.toList, hasArgs raw = false) ∨
        ∃ e, parseLines strconv (scannedLines content.toList) = .error e := by
  have hall : contentLines content =
      scannedLines content.toList ++ unscannedLines content.toList :=
    (scanned_append_unscanned _).symm
  unfold NeverTruncated parseCaseFileContent
  rw [hall]
  cases hparse : parseLines strconv (scannedLines content.toList) with
  | error e => exact ⟨fun _ => .inr ⟨e, rfl⟩, fun _ => nofun⟩
  | ok st =>
    have hseen := parseLines_entries hparse
    constructor
    · intro h
      refine .inl fun raw hraw => ?_
      -- there are no more entries than lines seen, so no other line asks for one
      have hlength := (h st.lines rfl).length
      rw [filter_append, length_append, hseen.length] at hlength
      have hnone : (unscannedLines content.toList).filter hasArgs = [] :=
        length_eq_zero_iff.mp (by omega)
      exact Bool.eq_false_iff.mpr (filter_eq_nil_iff.mp hnone raw hraw)
    · intro h lines hlines
      cases hlines
      rcases h with h | ⟨e, he⟩
      · have hnone : (unscannedLines content.toList).filter hasArgs = [] :=
          filter_eq_nil_iff.mpr fun raw hraw => Bool.eq_false_iff.mp (h raw hraw)
        unfold EntriesFrom
        rw [filter_append, hnone, append_nil]
        exact hseen
      · cases he

/-- A single plain word that is too long is lost. -/
theorem long_word_lost {word : List Char} (strconv : Strconv) (hne : word ≠ [])
    (hplain : ∀ c ∈ word, SplitState.Plain c ∧ c ≠ '#' ∧ c ≠ '&')
    (hlong : fitsScanner word = false) : ¬ NeverTruncated strconv (String.ofList word) := by
  intro h
  have hline : '\n' ∉ word := fun hn => absurd (hplain _ hn).1.space (by decide)
  have hparse : parseCaseFileContent strconv (String.ofList word) = .ok [] := by
    unfold parseCaseFileContent
    rw [String.toList_ofList, scannedLines_single hne hline, hlong]
    rfl
  have hwhole : contentLines (String.ofList word) = [word] := by
    have hend : word.getLast? ≠ some '\r' := fun he =>
      absurd (hplain _ (mem_of_getLast? he)).1.space (by decide)
    unfold contentLines
    rw [String.toList_ofList, textLines_single hne hline, map_singleton, dropCR, if_neg hend]
  have hentries := (h [] hparse).length
  rw [hwhole, filter_cons_of_pos (hasArgs_of_cons (lineArgs_word hne hplain))] at hentries
  cases hentries

theorem utf8Len_replicate (n : ℕ) : String.utf8Len (List.replicate n 'a') = n := by
  induction n with
  | zero => rfl
  | succ n ih =>
    rw [replicate_succ, String.utf8Len_cons, ih]
    rfl

/-- Conversions that take nothing for a number. -/
def noNumbers : Strconv where
  parseInt _ := .error "invalid syntax"
  parseFloat _ := .error "invalid syntax"

/-- A file of one line, of 64 KiB. -/
theorem long_line_truncates :
    ¬ NeverTruncated noNumbers (String.ofList (List.replicate 65536 'a')) := by
  refine long_word_lost noNumbers (by rw [Ne, replicate_eq_nil_iff]; decide) ?_ ?_
  · intro c hc
    rw [eq_of_mem_replicate hc]
    exact ⟨⟨by decide, by decide, by decide⟩, by decide, by decide⟩
  · unfold fitsScanner
    rw [utf8Len_replicate]
    rfl

end Robot.Case
