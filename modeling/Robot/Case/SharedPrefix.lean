import Robot.Case.ParseCase

/-!
# One account prefix for concurrent lines

A background line runs until the next foreground stress line is over, so the stress lines in between
run at the same time and should use one account prefix. `ParseCaseFileContent` carries the prefix that
the last background line has fixed, and `""` while there is none. A quoted argument can be empty, and
then the two are the same: a background line with an empty prefix asks for nothing.

Both the rule and the check only look at neighbours, control lines left out, so they are chains over
the stress lines (`sharesPrefix_iff_chain`, `Checked`). They differ where a background line
has an empty prefix and the next stress line has not (`shares_prefix_iff`).
-/

namespace Robot.Case

open Robot.Lib List

/-! ## The rule -/

/-- The stress lines up to and including the first foreground one. -/
def concurrentWith : List CaseFileLine → List CaseFileLine
  | [] => []
  | line :: lines =>
    if line.isControl then concurrentWith lines
    else if line.backgroundRunning then line :: concurrentWith lines
    else [line]

/-- The stress lines that run together with a background line have its prefix. -/
def SharesPrefix (lines : List CaseFileLine) : Prop :=
  ∀ before line after, lines = before ++ line :: after → line.isControl = false →
    line.backgroundRunning = true →
      ∀ other ∈ concurrentWith after, other.stress.openIDPrefix = line.stress.openIDPrefix

/-- The prefix of a stress line, and whether it is in the background. -/
def stressOf (line : CaseFileLine) : Option (String × Bool) :=
  if line.isControl then none else some (line.stress.openIDPrefix, line.backgroundRunning)

/-- A stress line and the next one. -/
def Keeps (a b : String × Bool) : Prop := a.2 = true → b.1 = a.1

variable {lines : List CaseFileLine}

theorem sharesPrefix_cons {line : CaseFileLine} :
    SharesPrefix (line :: lines) ↔ (line.isControl = false → line.backgroundRunning = true →
        ∀ other ∈ concurrentWith lines, other.stress.openIDPrefix = line.stress.openIDPrefix) ∧
      SharesPrefix lines := by
  constructor
  · intro h
    exact ⟨h [] line lines rfl, fun before l after he => h (line :: before) l after (by rw [he]; rfl)⟩
  · intro ⟨hline, hlines⟩ before l after he
    cases before with
    | nil =>
      cases he
      exact hline
    | cons b before => exact hlines before l after (List.cons.inj he).2

theorem filterMap_stressOf (line : CaseFileLine) (lines : List CaseFileLine) :
    (line :: lines).filterMap stressOf = if line.isControl then lines.filterMap stressOf
      else (line.stress.openIDPrefix, line.backgroundRunning) :: lines.filterMap stressOf := by
  rw [filterMap_cons, stressOf]
  split <;> simp_all

/-- A line and all that run with it. -/
theorem chain_cons_iff {x : String × Bool} : IsChain Keeps (x :: lines.filterMap stressOf) ↔
      (x.2 = true → ∀ other ∈ concurrentWith lines, other.stress.openIDPrefix = x.1) ∧
        IsChain Keeps (lines.filterMap stressOf) := by
  induction lines generalizing x with
  | nil => simp [concurrentWith]
  | cons line lines ih =>
    rw [filterMap_stressOf, concurrentWith]
    by_cases hcontrol : line.isControl = true
    · rw [if_pos hcontrol, if_pos hcontrol]
      exact ih
    · rw [if_neg hcontrol, if_neg hcontrol, isChain_cons_cons]
      refine and_congr_left fun hchain => ?_
      have hrest := (ih.mp hchain).1
      unfold Keeps
      split
      next hbackground =>
        -- the later lines have the prefix of this one already
        refine ⟨fun h hx other ho => ?_, fun h hx => h hx line mem_cons_self⟩
        rcases mem_cons.mp ho with rfl | ho
        · exact h hx
        · rw [hrest hbackground other ho]
          exact h hx
      next =>
        simp only [mem_singleton, forall_eq]

theorem sharesPrefix_iff_chain : SharesPrefix lines ↔ IsChain Keeps (lines.filterMap stressOf) := by
  induction lines with
  | nil => exact ⟨fun _ => .nil, fun _ before _ _ he => absurd he (by simp)⟩
  | cons line lines ih =>
    rw [sharesPrefix_cons, ih, filterMap_stressOf]
    cases line.isControl with
    | true => exact ⟨And.right, fun h => ⟨nofun, h⟩⟩
    | false =>
      show _ ↔ IsChain Keeps (_ :: _)
      rw [chain_cons_iff]
      exact and_congr_left fun _ => ⟨fun h => h rfl, fun h _ => h⟩

/-! ## The check -/

/-- The same of a line of the file: the third argument is the prefix. -/
def rawStress (raw : List Char) : Option (String × Bool) :=
  match lineArgs raw with
  | .ok (caseName :: _ :: openIDPrefix :: _, background) =>
    if isControlLine caseName then none else some (openIDPrefix, background)
  | _ => none

/-- What the check lets pass. -/
def Passes (a b : String × Bool) : Prop := a.2 = true → a.1 = "" ∨ b.1 = a.1

/-- `OpenIdPrefixCheck`, after these stress lines. -/
def prefixCheck (stress : List (String × Bool)) : String :=
  match stress.getLast? with
  | some (openIDPrefix, true) => openIDPrefix
  | _ => ""

theorem prefixCheck_concat (stress : List (String × Bool)) (x : String × Bool) :
    prefixCheck (stress ++ [x]) = if x.2 then x.1 else "" := by
  unfold prefixCheck
  rw [getLast?_concat]
  obtain ⟨p, background⟩ := x
  cases background <;> rfl

variable {strconv : Strconv} {raw : List Char} {st st' : CaseFileState}

theorem parseLine_prefix {args : List String} {params : Params} (h : parseLine strconv args = .ok params) :
    ∃ caseName errorBreak rest, args = caseName :: errorBreak :: params.openIDPrefix :: rest := by
  unfold parseLine at h
  split at h
  · simp only [bind, Except.bind, pure, Except.pure] at h
    repeat' split at h
    all_goals cases h
    exact ⟨_, _, _, rfl⟩
  · cases h

/-- **One line.** -/
theorem parseRaw_stress (h : parseRaw strconv st raw = .ok st') :
    (rawStress raw = none ∧ st'.lines.filterMap stressOf = st.lines.filterMap stressOf ∧
      st'.openIdPrefixCheck = st.openIdPrefixCheck) ∨
    ∃ x, rawStress raw = some x ∧ st'.lines.filterMap stressOf = st.lines.filterMap stressOf ++ [x] ∧
      (st.openIdPrefixCheck = "" ∨ x.1 = st.openIdPrefixCheck) ∧
      st'.openIdPrefixCheck = if x.2 then x.1 else "" := by
  unfold parseRaw at h
  unfold rawStress
  split at h
  · cases h
  · next hargs =>
    cases h
    rw [hargs]
    exact .inl ⟨rfl, rfl, rfl⟩
  · next arg args background hargs =>
    rw [hargs]
    unfold parseArgs at h
    split at h
    · next hcontrol =>
      split at h
      · cases h
      · cases h
        refine .inl ⟨?_, by simp [filterMap_append, stressOf, controlEntry], rfl⟩
        split
        next he => cases he; exact if_pos hcontrol
        next => rfl
    · next hstress =>
      split at h
      · cases h
      · next params hparams =>
        obtain ⟨caseName, errorBreak, rest, hcons⟩ := parseLine_prefix hparams
        cases hcons
        split at h
        · cases h
        · next hcheck =>
          cases h
          refine .inr ⟨(params.openIDPrefix, background), if_neg hstress, ?_, ?_, rfl⟩
          · simp [filterMap_append, stressOf, stressEntry]
          · by_cases hempty : st.openIdPrefixCheck = ""
            · exact .inl hempty
            · exact .inr (not_not.mp fun hne => hcheck ⟨hempty, hne⟩)

/-- What the loop keeps: the stress lines are those of the file, and the check has let them pass. -/
structure Checked (done : List (List Char)) (st : CaseFileState) : Prop where
  stress : st.lines.filterMap stressOf = done.filterMap rawStress
  check : st.openIdPrefixCheck = prefixCheck (done.filterMap rawStress)
  passes : IsChain Passes (done.filterMap rawStress)

theorem Checked.step {done : List (List Char)} (hdone : Checked done st)
    (h : parseRaw strconv st raw = .ok st') : Checked (done ++ [raw]) st' := by
  obtain ⟨hstress, hcheck, hpasses⟩ := hdone
  rcases parseRaw_stress h with ⟨hnone, hsame, hkept⟩ | ⟨x, hsome, hmore, hpass, hnext⟩
  · have hfile : (done ++ [raw]).filterMap rawStress = done.filterMap rawStress := by
      rw [filterMap_append, filterMap_cons_none hnone, filterMap_nil, append_nil]
    exact ⟨by rw [hfile, hsame, hstress], by rw [hfile, hkept, hcheck], by rwa [hfile]⟩
  · have hfile : (done ++ [raw]).filterMap rawStress = done.filterMap rawStress ++ [x] := by
      rw [filterMap_append, filterMap_cons_some hsome, filterMap_nil]
    refine ⟨by rw [hfile, hmore, hstress], by rw [hfile, hnext, prefixCheck_concat], ?_⟩
    rw [hfile, isChain_append]
    refine ⟨hpasses, .singleton _, fun a ha b hb hbackground => ?_⟩
    cases hb
    have hlast : st.openIdPrefixCheck = a.1 := by
      rw [hcheck, prefixCheck, ha]
      obtain ⟨p, background⟩ := a
      cases hbackground
      rfl
    rwa [hlast] at hpass

/-! ## The whole file -/

/-- No background line with an empty prefix is followed by a stress line with another one. -/
def EmptyPrefixesKept (content : String) : Prop :=
  IsChain (fun a b : String × Bool => a.2 = true → a.1 = "" → b.1 = "")
    ((scannedLines content.toList).filterMap rawStress)

/-- **Concurrent stress lines share a prefix** if and only if the lines after a background line with an
empty prefix have an empty one too. -/
theorem shares_prefix_iff (strconv : Strconv) {content : String} {lines : List CaseFileLine}
    (h : parseCaseFileContent strconv content = .ok lines) :
    SharesPrefix lines ↔ EmptyPrefixesKept content := by
  unfold parseCaseFileContent at h
  split at h
  · cases h
  · next st hst =>
    cases h
    have hstart : Checked [] ⟨[], ""⟩ := ⟨rfl, rfl, .nil⟩
    obtain ⟨hstress, -, hpasses⟩ := foldlM_inv hstart Checked.step hst
    rw [sharesPrefix_iff_chain, hstress]
    unfold EmptyPrefixesKept
    constructor
    · exact IsChain.imp fun a b hkeeps hbackground hempty => (hkeeps hbackground).trans hempty
    · intro hempty
      rw [isChain_iff_forall_rel_of_append_cons_cons] at hpasses hempty ⊢
      intro a b before after he hbackground
      rcases hpasses he hbackground with h | h
      · rw [h, hempty he hbackground h]
      · exact h

/-- Conversions that take everything for a `1`. -/
def allOnes : Strconv where
  parseInt _ := .ok 1
  parseFloat _ := .ok 1

/-- What they make of a line with this prefix. -/
def onesParams (openIDPrefix : String) : Params :=
  { zeroParams with
    caseName := "c", errorBreak := true, openIDPrefix := openIDPrefix, openIDStart := 1
    openIDEnd := 1, targetQPS := 1, userBatchCount := 1, runTime := 1 }

def emptyPrefixLine : String := "c true \x22\x22 1 1 1 1 1 &"

/-- The foreground line that follows has an empty prefix too, and the one after it is free. -/
theorem empty_prefix_shared :
    SharesPrefix [stressEntry 0 true (onesParams ""), stressEntry 1 false (onesParams ""),
      stressEntry 2 false (onesParams "x")] := by
  have hparse : parseCaseFileContent allOnes
      (emptyPrefixLine ++ "\nc true \x22\x22 1 1 1 1 1\nc true x 1 1 1 1 1") =
        .ok [stressEntry 0 true (onesParams ""), stressEntry 1 false (onesParams ""),
          stressEntry 2 false (onesParams "x")] := rfl
  refine (shares_prefix_iff allOnes hparse).mpr ?_
  exact .cons_cons (fun _ _ => rfl) (.cons_cons (fun h => Bool.noConfusion h) (.singleton _))

theorem empty_prefix_not_shared :
    parseCaseFileContent allOnes (emptyPrefixLine ++ "\nc true x 1 1 1 1 1") =
        .ok [stressEntry 0 true (onesParams ""), stressEntry 1 false (onesParams "x")] ∧
      ¬ SharesPrefix [stressEntry 0 true (onesParams ""), stressEntry 1 false (onesParams "x")] := by
  refine ⟨rfl, fun h => ?_⟩
  have hother := h [] _ _ rfl rfl rfl _ mem_cons_self
  exact absurd hother (by decide)

end Robot.Case
