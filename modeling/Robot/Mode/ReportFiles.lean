import Robot.Lib.Path

/-!
# The files of a report

The HTML file of a report is `filepath.Join(m.cfg.ReportDir, id+".html")`, in three places:
`handleViewReport` reads it, `aggregateAndGenerate` stats and writes it, `deleteReport` removes it.
The id comes from the request: the `report_id` of a submission is any text, and a path value is an
unescaped segment of the URL, so it may contain slashes too. Only `deleteReport` compares the
absolute path with the absolute directory before it touches the file.

The functions here return the accesses that a call makes, given how the calls out of it ended.
`filepath.Join` and `filepath.Abs` are the lexical functions of the standard library over
`Lib/Path`; the process has a working directory, which the system uses for relative paths whether
or not `os.Getwd` can tell it.

Reading the id as a path of its own, some steps up and then names, says it all
(`report_files_inside_iff`): the file is inside the directory if and only if the components of the
directory that the id climbs out of are the ones it goes back into. The check of `deleteReport` is
enough for it in any case (`deleteReport_inside`).
-/

namespace Robot.Mode

open Robot.Lib Robot.Lib.CleanPath List

/-! ## `filepath` -/

/-- `filepath.IsAbs`. -/
def isAbs (s : List Char) : Bool := s.head? = some '/'

/-- `filepath.Clean`. -/
def clean (s : List Char) : List Char := (start.walk s).render (isAbs s)

/-- `filepath.Join` of two elements: empty ones in front are left out. -/
def join (a b : List Char) : List Char :=
  if a ≠ [] then clean (a ++ '/' :: b) else if b ≠ [] then clean b else []

/-- The process's working directory. -/
structure WorkingDir where
  path : List Char
  isAbs : isAbs path = true
  /-- `os.Getwd` succeeds. -/
  known : Bool

/-- `filepath.Abs`; without a working directory it fails on relative paths. -/
def WorkingDir.abs (wd : WorkingDir) (s : List Char) : Option (List Char) :=
  if Mode.isAbs s then some (clean s)
  else if wd.known then some (join wd.path s) else none

/-- Where the system finds a path. -/
def WorkingDir.locate (wd : WorkingDir) (s : List Char) : CleanPath :=
  if Mode.isAbs s then start.walk s else start.walk (wd.path ++ '/' :: s)

/-- By the names from the root on. -/
def WorkingDir.resolve (wd : WorkingDir) (s : List Char) : List (List Char) := (wd.locate s).names

/-! ## The handlers -/

inductive FileOp where
  | read
  | stat
  | write
  | remove
deriving DecidableEq

structure FileAccess where
  op : FileOp
  path : List Char
deriving DecidableEq

/-- The path of a report's file. -/
def htmlPath (reportDir id : String) : List Char :=
  join reportDir.toList (id.toList ++ ".html".toList)

/-- How `aggregateAndGenerate` ends: at `ReadReport`, in the template, at the write, or well. -/
inductive GenerateOutcome where
  | readFailed
  | htmlFailed
  | writeFailed
  | generated
deriving DecidableEq

def aggregateAndGenerate (reportDir id : String) : GenerateOutcome → List FileAccess
  | .readFailed => []
  | .htmlFailed => [⟨.stat, htmlPath reportDir id⟩]
  | .writeFailed => [⟨.stat, htmlPath reportDir id⟩, ⟨.write, htmlPath reportDir id⟩]
  | .generated => [⟨.stat, htmlPath reportDir id⟩, ⟨.write, htmlPath reportDir id⟩,
      ⟨.stat, htmlPath reportDir id⟩]

/-- `found`: the first read succeeds. -/
def handleViewReport (reportDir id : String) (found : Bool) (outcome : GenerateOutcome) :
    List FileAccess :=
  ⟨.read, htmlPath reportDir id⟩ ::
    if found then []
    else aggregateAndGenerate reportDir id outcome ++
      if outcome = .generated then [⟨.read, htmlPath reportDir id⟩] else []

def deleteReport (wd : WorkingDir) (reportDir id : String) : List FileAccess :=
  if reportDir ≠ "" then
    match wd.abs (htmlPath reportDir id), wd.abs reportDir.toList with
    | some absFile, some absBase =>
      if absBase ++ ['/'] <+: absFile then [⟨.remove, absFile⟩] else []
    | _, _ => []
  else []

def handleDeleteReport (wd : WorkingDir) (reportDir id : String) : List FileAccess :=
  if id = "" then [] else deleteReport wd reportDir id

/-- A request with a report id. A submission generates the report when its task has ended; an empty
id is replaced there by a generated one. -/
inductive ReportRequest where
  | submit (outcome : GenerateOutcome)
  | view (found : Bool) (outcome : GenerateOutcome)
  | generate (outcome : GenerateOutcome)
  | delete

def accesses (wd : WorkingDir) (reportDir id : String) : ReportRequest → List FileAccess
  | .submit outcome => if id = "" then [] else aggregateAndGenerate reportDir id outcome
  | .view found outcome => handleViewReport reportDir id found outcome
  | .generate outcome => aggregateAndGenerate reportDir id outcome
  | .delete => handleDeleteReport wd reportDir id

/-- Whatever is asked for the report, every file touched is inside the report directory. -/
def FilesInside (wd : WorkingDir) (reportDir id : String) : Prop :=
  ∀ request, ∀ access ∈ accesses wd reportDir id request,
    Inside (wd.resolve reportDir.toList) (wd.resolve access.path)

/-! ## Where the file is -/

theorem isAbs_append {a : List Char} (h : a ≠ []) (b : List Char) : isAbs (a ++ b) = isAbs a := by
  cases a with
  | nil => exact absurd rfl h
  | cons c a => rfl

theorem isAbs_render_true (p : CleanPath) : isAbs (p.render true) = true := by
  unfold CleanPath.render
  rw [if_pos rfl]
  rfl

/-- The text from somewhere on begins with a component, and no component begins with a slash. -/
theorem isAbs_render_false (p : CleanPath) : isAbs (p.render false) = false := by
  unfold CleanPath.render
  rw [if_neg (by decide)]
  split_ifs with h
  · rfl
  · obtain ⟨c, rest, hc⟩ := exists_cons_of_ne_nil h
    have hmem : c ∈ p.components := hc ▸ mem_cons_self
    obtain ⟨tail, htail⟩ : ∃ tail, ['/'].intercalate p.components = c ++ tail := by
      rw [hc]
      cases rest with
      | nil => exact ⟨[], by simp⟩
      | cons d rest => exact ⟨_, intercalate_cons_cons.trans (append_assoc ..)⟩
    rw [htail, isAbs_append (p.component_ne_nil hmem)]
    refine decide_eq_false fun hhead => ?_
    exact p.slash_not_mem_components c hmem (mem_of_head? hhead)

variable (wd : WorkingDir)

theorem resolve_render_true (p : CleanPath) : wd.resolve (p.render true) = p.names := by
  unfold WorkingDir.resolve WorkingDir.locate
  rw [if_pos (isAbs_render_true p), walk_render_rooted]

theorem locate_render_false (p : CleanPath) : wd.locate (p.render false) = (start.walk wd.path).below p := by
  unfold WorkingDir.locate
  rw [isAbs_render_false p, if_neg (by decide), walk_append, walk_eq, walk_render]

/-- The file's name, from somewhere on. -/
def relativeFile (id : String) : CleanPath := start.walk (id.toList ++ ".html".toList)

theorem isAbs_fileName (id : String) : isAbs (id.toList ++ ".html".toList) = isAbs id.toList := by
  by_cases h : id.toList = []
  · rw [h]
    decide
  · exact isAbs_append h _

/-- **The file of a report** is where its name leads from the report directory. Only without a
directory a name can begin at the root. -/
theorem resolve_htmlPath (reportDir id : String) : wd.resolve (htmlPath reportDir id) =
      if reportDir = "" ∧ isAbs id.toList = true then (relativeFile id).names
      else ((wd.locate reportDir.toList).below (relativeFile id)).names := by
  by_cases hdir : reportDir = ""
  · have hempty : reportDir.toList = [] := by
      rw [hdir]
      rfl
    have hpath : htmlPath reportDir id = (relativeFile id).render (isAbs id.toList) := by
      unfold htmlPath join
      rw [hempty, if_neg (by decide), if_pos (append_ne_nil_of_right_ne_nil _ (by decide))]
      unfold clean
      rw [isAbs_fileName]
      rfl
    have hbase : wd.locate reportDir.toList = start.walk wd.path := by
      rw [hempty]
      unfold WorkingDir.locate
      rw [if_neg (by decide), walk_append]
      exact push_of_not (s := []) _ (by decide) (by decide)
    rw [hpath, hbase]
    cases habs : isAbs id.toList with
    | true => rw [if_pos ⟨hdir, rfl⟩, resolve_render_true]
    | false =>
      rw [if_neg (by simp)]
      exact congrArg CleanPath.names (locate_render_false wd _)
  · have hne : reportDir.toList ≠ [] := fun h => hdir (String.toList_eq_nil_iff.mp h)
    have hpath : htmlPath reportDir id =
        ((start.walk reportDir.toList).below (relativeFile id)).render (isAbs reportDir.toList) := by
      unfold htmlPath join
      rw [if_pos hne]
      unfold clean
      rw [isAbs_append hne, walk_append, walk_eq (start.walk reportDir.toList)]
      rfl
    rw [if_neg fun h => hdir h.1, hpath]
    cases habs : isAbs reportDir.toList with
    | true =>
      rw [resolve_render_true]
      unfold WorkingDir.locate
      rw [if_pos habs]
    | false =>
      show (wd.locate _).names = _
      rw [locate_render_false]
      unfold WorkingDir.locate
      rw [habs, if_neg (by decide), walk_append, walk_eq (start.walk wd.path)]
      unfold relativeFile
      rw [← walk_eq, ← below_walk, walk_eq]

/-! ## The check of `deleteReport` -/

theorem abs_eq {wd : WorkingDir} {s t : List Char} (h : wd.abs s = some t) :
    t = (wd.locate s).render true := by
  have hne : wd.path ≠ [] := fun hnil => by
    have := wd.isAbs
    rw [hnil] at this
    cases this
  unfold WorkingDir.abs at h
  unfold WorkingDir.locate
  split_ifs at h ⊢ with habs hknown
  · rw [← Option.some.inj h]
    unfold clean
    rw [habs]
  · rw [← Option.some.inj h]
    unfold join clean
    rw [if_pos hne, isAbs_append hne, wd.isAbs]

/-- **What `deleteReport` removes** is inside the report directory, whatever the id is. -/
theorem deleteReport_inside (reportDir id : String) : ∀ access ∈ deleteReport wd reportDir id,
      Inside (wd.resolve reportDir.toList) (wd.resolve access.path) := by
  intro access haccess
  unfold deleteReport at haccess
  split at haccess
  · split at haccess
    next absFile absBase hfile hbase =>
      split at haccess
      next hstarts =>
        rw [mem_singleton.mp haccess]
        dsimp only
        rw [abs_eq hfile, abs_eq hbase] at hstarts
        rw [abs_eq hfile, resolve_render_true]
        exact inside_of_render hstarts
      · cases haccess
    · cases haccess
  · cases haccess

/-! ## The other accesses -/

/-- Without `deleteReport`, only the file of the report is touched. -/
theorem path_of_aggregate {reportDir id : String} {outcome : GenerateOutcome} {access : FileAccess}
    (h : access ∈ aggregateAndGenerate reportDir id outcome) : access.path = htmlPath reportDir id := by
  cases outcome <;> simp only [aggregateAndGenerate, mem_cons, not_mem_nil, or_false] at h
  · rw [h]
  · rcases h with h | h <;> rw [h]
  · rcases h with h | h | h <;> rw [h]

theorem path_of_view {reportDir id : String} {found : Bool} {outcome : GenerateOutcome}
    {access : FileAccess} (h : access ∈ handleViewReport reportDir id found outcome) :
    access.path = htmlPath reportDir id := by
  unfold handleViewReport at h
  rcases mem_cons.mp h with h | h
  · rw [h]
  · split_ifs at h with hfound hok
    · cases h
    · rcases mem_append.mp h with h | h
      · exact path_of_aggregate h
      · rw [mem_singleton.mp h]
    · exact path_of_aggregate ((append_nil _).subst h)

/-- How far the file name leads out of a directory of `depth` components. -/
def climbs (reportDir id : String) (depth : ℕ) : ℕ :=
  if reportDir = "" ∧ isAbs id.toList = true then depth else (relativeFile id).up

/-- The components of the report directory that the id climbs out of are those it goes back into. -/
def ReturnsInside (wd : WorkingDir) (reportDir id : String) : Prop :=
  Inside ((wd.resolve reportDir.toList).drop ((wd.resolve reportDir.toList).length -
    climbs reportDir id (wd.resolve reportDir.toList).length)) (relativeFile id).names

theorem htmlPath_inside_iff (reportDir id : String) :
    Inside (wd.resolve reportDir.toList) (wd.resolve (htmlPath reportDir id)) ↔
      ReturnsInside wd reportDir id := by
  unfold ReturnsInside climbs
  rw [resolve_htmlPath]
  split_ifs with h
  · rw [Nat.sub_self, drop_zero]
  · exact inside_below_iff _ _

/-- **The files of a report stay inside the report directory** if and only if the id, read as a
path, goes back into every component of the directory that it climbs out of. -/
theorem report_files_inside_iff (wd : WorkingDir) (reportDir id : String) :
    FilesInside wd reportDir id ↔ ReturnsInside wd reportDir id := by
  rw [← htmlPath_inside_iff]
  constructor
  · intro h
    exact h (.view true .generated) ⟨.read, htmlPath reportDir id⟩ mem_cons_self
  · intro h request access haccess
    cases request with
    | submit outcome =>
      dsimp only [accesses] at haccess
      split_ifs at haccess
      · cases haccess
      · rw [path_of_aggregate haccess]
        exact h
    | view found outcome =>
      rw [path_of_view haccess]
      exact h
    | generate outcome =>
      rw [path_of_aggregate haccess]
      exact h
    | delete =>
      dsimp only [accesses, handleDeleteReport] at haccess
      split_ifs at haccess
      · cases haccess
      · exact deleteReport_inside wd reportDir id access haccess

def serviceDir : WorkingDir := ⟨"/srv/robot".toList, by decide, true⟩

theorem view_reads_outside : ¬ FilesInside serviceDir "./report" "../secret" := by
  intro h
  have hread := h (.view true .generated) ⟨.read, htmlPath "./report" "../secret"⟩ mem_cons_self
  revert hread
  decide +kernel

end Robot.Mode
