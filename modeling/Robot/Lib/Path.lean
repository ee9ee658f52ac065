import Mathlib

/-!
# Lexical paths

Unix paths as texts, cleaned without looking at any file system: a text is cut at its slashes, and
its components are walked one by one. An empty component and `.` are no step, `..` undoes the last
name, and goes above the start when there is none.

What a walk ends at is kept as a number of steps up and a list of names (`CleanPath`), so that `..`
stands in front by construction. The names do not depend on the steps up, so the same walk reads
rooted texts, whose steps above the root are dropped in the end. A walk does not depend on where it
starts: walking from `p` is walking from nowhere and putting the result below `p` (`walk_eq`), which
is the one fact that the rest is about. `render` is the text again; walking it repeats the walk
(`walk_render`), and a text that continues the text of a rooted path after a slash is the text of
something inside that path (`inside_of_render`).
-/

namespace Robot.Lib

open List

/-- A component that is a name. -/
def IsName (s : List Char) : Prop := s ≠ [] ∧ s ≠ ['.'] ∧ s ≠ ['.', '.'] ∧ '/' ∉ s

instance IsName.decidable (s : List Char) : Decidable (IsName s) :=
  inferInstanceAs (Decidable (s ≠ [] ∧ s ≠ ['.'] ∧ s ≠ ['.', '.'] ∧ '/' ∉ s))

/-- A cleaned path: `up` steps up and then down along `names`. -/
@[ext] structure CleanPath where
  up : ℕ
  names : List (List Char)
  isName : ∀ n ∈ names, IsName n

namespace CleanPath

/-- Where a walk begins. -/
def start : CleanPath := ⟨0, [], nofun⟩

/-- One step up. -/
def parent (p : CleanPath) : CleanPath where
  up := if p.names = [] then p.up + 1 else p.up
  names := p.names.dropLast
  isName n hn := p.isName n (mem_of_mem_dropLast hn)

/-- One step down. -/
def child (p : CleanPath) (n : List Char) (h : IsName n) : CleanPath where
  up := p.up
  names := p.names ++ [n]
  isName m hm := by
    rcases mem_append.mp hm with hm | hm
    · exact p.isName m hm
    · rw [mem_singleton.mp hm]
      exact h

/-- The step of one component. -/
def push (p : CleanPath) (s : List Char) : CleanPath :=
  if h : IsName s then p.child s h else if s = ['.', '.'] then p.parent else p

/-- The steps of a text. -/
def walk (p : CleanPath) (s : List Char) : CleanPath := (s.splitOn '/').foldl push p

/-- `r`, from `p` on. -/
def below (p r : CleanPath) : CleanPath where
  up := p.up + (r.up - p.names.length)
  names := p.names.take (p.names.length - r.up) ++ r.names
  isName n hn := by
    rcases mem_append.mp hn with hn | hn
    · exact p.isName n (mem_of_mem_take hn)
    · exact r.isName n hn

variable (p : CleanPath)

theorem push_name {n : List Char} (h : IsName n) : p.push n = p.child n h := dif_pos h

theorem push_dotdot : p.push ['.', '.'] = p.parent := by
  unfold push
  rw [dif_neg (by decide), if_pos rfl]

/-- Every other component is no step. -/
theorem push_of_not {s : List Char} (h : ¬ IsName s) (hs : s ≠ ['.', '.']) : p.push s = p := by
  unfold push
  rw [dif_neg h, if_neg hs]

/-! ## Walking from elsewhere -/

theorem below_start : p.below start = p := by
  refine CleanPath.ext ?_ ?_
  · show p.up + (0 - p.names.length) = p.up
    rw [Nat.zero_sub, Nat.add_zero]
  · show p.names.take (p.names.length - 0) ++ [] = p.names
    rw [Nat.sub_zero, take_length, append_nil]

theorem below_child (p r : CleanPath) {n : List Char} (h : IsName n) :
    (p.below r).child n h = p.below (r.child n h) :=
  CleanPath.ext rfl (append_assoc _ _ _)

/-- A step up from `r` below `p`: inside `r`, or on in `p` when `r` has no names left. -/
theorem below_parent (p r : CleanPath) : (p.below r).parent = p.below r.parent := by
  by_cases hr : r.names = []
  · have hup : r.parent.up = r.up + 1 := if_pos hr
    have hnames : (p.below r).names = p.names.take (p.names.length - r.up) := by
      show _ ++ r.names = _
      rw [hr, append_nil]
    refine CleanPath.ext ?_ ?_
    · show (if (p.below r).names = [] then (p.below r).up + 1 else (p.below r).up) =
        p.up + (r.parent.up - p.names.length)
      have hnil : (p.below r).names = [] ↔ p.names.length ≤ r.up := by
        rw [hnames, ← length_eq_zero_iff, length_take]
        omega
      have hbelow : (p.below r).up = p.up + (r.up - p.names.length) := rfl
      rw [hup]
      split_ifs with h
      · rw [hnil] at h
        omega
      · rw [hnil] at h
        omega
    · show (p.below r).names.dropLast = p.names.take (p.names.length - r.parent.up) ++ r.names.dropLast
      rw [hnames, hup, hr, dropLast_nil, append_nil, dropLast_eq_take, take_take,
        length_take]
      congr 1
      omega
  · have hup : r.parent.up = r.up := if_neg hr
    have hne : p.names.take (p.names.length - r.up) ++ r.names ≠ [] := fun h =>
      hr (append_eq_nil_iff.mp h).2
    refine CleanPath.ext ?_ ?_
    · show (if _ = [] then _ else _) = p.up + (r.parent.up - p.names.length)
      rw [hup]
      exact if_neg hne
    · show (p.names.take (p.names.length - r.up) ++ r.names).dropLast =
        p.names.take (p.names.length - r.parent.up) ++ r.names.dropLast
      rw [hup, dropLast_append_of_ne_nil hr]

theorem below_push (p r : CleanPath) (s : List Char) : (p.below r).push s = p.below (r.push s) := by
  by_cases hname : IsName s
  · rw [push_name _ hname, push_name _ hname, below_child]
  · by_cases hdots : s = ['.', '.']
    · rw [hdots, push_dotdot, push_dotdot, below_parent]
    · rw [push_of_not _ hname hdots, push_of_not _ hname hdots]

theorem below_foldl : ∀ (l : List (List Char)) (r : CleanPath),
    l.foldl push (p.below r) = p.below (l.foldl push r) := by
  intro l
  induction l with
  | nil => intro r; rfl
  | cons s l ih =>
    intro r
    rw [foldl_cons, foldl_cons, below_push, ih]

theorem below_walk (p r : CleanPath) (s : List Char) : (p.below r).walk s = p.below (r.walk s) :=
  below_foldl p _ r

/-- **A walk from `p`** is a walk from nowhere, put below `p`. -/
theorem walk_eq (s : List Char) : p.walk s = p.below (start.walk s) := by
  rw [← below_walk, below_start]

/-- A slash separates two walks. -/
theorem walk_append (s t : List Char) : p.walk (s ++ '/' :: t) = (p.walk s).walk t := by
  unfold walk
  rw [splitOn_append_cons_self, foldl_append]

/-! ## Texts -/

/-- The components of the text. -/
def components (p : CleanPath) : List (List Char) := List.replicate p.up ['.', '.'] ++ p.names

/-- The text; steps above the root are none. -/
def render (rooted : Bool) (p : CleanPath) : List Char :=
  if rooted then '/' :: ['/'].intercalate p.names
  else if p.components = [] then ['.'] else ['/'].intercalate p.components

theorem foldl_push_names : ∀ (l : List (List Char)), (∀ n ∈ l, IsName n) →
    (l.foldl push p).up = p.up ∧ (l.foldl push p).names = p.names ++ l := by
  intro l
  induction l generalizing p with
  | nil => intro _; exact ⟨rfl, (append_nil _).symm⟩
  | cons n l ih =>
    intro h
    have hn := h n mem_cons_self
    obtain ⟨hup, hnames⟩ := ih (p.child n hn) fun m hm => h m (mem_cons_of_mem n hm)
    rw [foldl_cons, push_name p hn]
    refine ⟨hup, hnames.trans ?_⟩
    exact append_assoc _ [n] l

theorem foldl_push_dotdot : ∀ (k : ℕ),
    (List.replicate k ['.', '.']).foldl push start = ⟨k, [], nofun⟩ := by
  intro k
  induction k with
  | zero => rfl
  | succ k ih =>
    rw [replicate_succ', foldl_append, ih]
    exact push_dotdot _

theorem foldl_push_components : p.components.foldl push start = p := by
  unfold components
  rw [foldl_append, foldl_push_dotdot]
  obtain ⟨hup, hnames⟩ := foldl_push_names ⟨p.up, [], nofun⟩ p.names p.isName
  exact CleanPath.ext hup (hnames.trans (nil_append _))

theorem component_ne_nil {s : List Char} (hs : s ∈ p.components) : s ≠ [] := by
  rcases mem_append.mp hs with hs | hs
  · rw [eq_of_mem_replicate hs]
    decide
  · exact (p.isName s hs).1

theorem slash_not_mem_components : ∀ s ∈ p.components, '/' ∉ s := by
  intro s hs
  rcases mem_append.mp hs with hs | hs
  · rw [eq_of_mem_replicate hs]
    decide
  · exact (p.isName s hs).2.2.2

theorem splitOn_rooted {p : CleanPath} (h : p.names ≠ []) :
    (p.render true).splitOn '/' = [] :: p.names := by
  show ([] ++ '/' :: ['/'].intercalate p.names).splitOn '/' = _
  rw [splitOn_append_cons_self, splitOn_intercalate '/' (fun n hn => (p.isName n hn).2.2.2) h]
  rfl

theorem splitOn_root {p : CleanPath} (h : p.names = []) : (p.render true).splitOn '/' = [[], []] := by
  unfold render
  rw [if_pos rfl, h]
  rfl

/-- **Walking a text repeats the walk**: of a path from somewhere, all of it. -/
theorem walk_render : start.walk (p.render false) = p := by
  unfold walk render
  rw [if_neg (by decide)]
  split_ifs with h
  · have hstart := p.foldl_push_components
    rw [h] at hstart
    exact hstart
  · rw [splitOn_intercalate '/' p.slash_not_mem_components h, foldl_push_components]

/-- Of a rooted path, the names. -/
theorem walk_render_rooted : (start.walk (p.render true)).names = p.names := by
  by_cases h : p.names = []
  · unfold walk
    rw [splitOn_root h, h]
    rfl
  · unfold walk
    rw [splitOn_rooted h, foldl_cons, push_of_not _ (by decide) (by decide)]
    exact (foldl_push_names start p.names p.isName).2

/-! ## Inside -/

/-- The names of a rooted path, strictly inside those of another. -/
def Inside (base names : List (List Char)) : Prop := base <+: names ∧ base ≠ names

instance Inside.decidable (base names : List (List Char)) : Decidable (Inside base names) :=
  inferInstanceAs (Decidable (base <+: names ∧ base ≠ names))

/-- Below `p` is inside `p` if and only if the names that were left are named again, and more. -/
theorem inside_below_iff (p r : CleanPath) :
    Inside p.names (p.below r).names ↔ Inside (p.names.drop (p.names.length - r.up)) r.names := by
  unfold Inside
  show p.names <+: p.names.take _ ++ r.names ∧ p.names ≠ p.names.take _ ++ r.names ↔ _
  have hsplit := take_append_drop (p.names.length - r.up) p.names
  generalize hk : p.names.length - r.up = k at hsplit ⊢
  constructor
  · intro ⟨hle, hne⟩
    nth_rewrite 1 [← hsplit] at hle
    refine ⟨(prefix_append_right_inj _).mp hle, fun he => hne ?_⟩
    rw [← he, hsplit]
  · intro ⟨hle, hne⟩
    constructor
    · nth_rewrite 1 [← hsplit]
      exact (prefix_append_right_inj _).mpr hle
    · intro he
      nth_rewrite 1 [← hsplit] at he
      exact hne (append_cancel_left he)

/-- **A text that goes on after a slash** is the text of something inside. -/
theorem inside_of_render {base p : CleanPath} (h : base.render true ++ ['/'] <+: p.render true) :
    Inside base.names p.names := by
  obtain ⟨rest, hrest⟩ := h
  rw [append_assoc] at hrest
  have hcut : (p.render true).splitOn '/' = (base.render true).splitOn '/' ++ rest.splitOn '/' := by
    rw [← hrest]
    exact splitOn_append_cons_self ..
  have hmore : rest.splitOn '/' ≠ [] := splitOn_ne_nil _ _
  by_cases hbase : base.names = []
  · -- after the root there would have to be a second slash
    rw [splitOn_root hbase] at hcut
    by_cases hp : p.names = []
    · rw [splitOn_root hp] at hcut
      exact absurd (List.cons.inj (List.cons.inj hcut).2).2.symm hmore
    · rw [splitOn_rooted hp] at hcut
      have hempty := p.isName [] ((List.cons.inj hcut).2 ▸ mem_cons_self)
      exact absurd rfl hempty.1
  · rw [splitOn_rooted hbase] at hcut
    by_cases hp : p.names = []
    · rw [splitOn_root hp] at hcut
      have hone : [[]] = base.names ++ rest.splitOn '/' := (List.cons.inj hcut).2
      have hlen := congrArg List.length hone
      have hlong := length_pos_iff.mpr hbase
      have hrest' := length_pos_iff.mpr hmore
      rw [length_append, length_singleton] at hlen
      omega
    · rw [splitOn_rooted hp] at hcut
      have hnames : p.names = base.names ++ rest.splitOn '/' := (List.cons.inj hcut).2
      refine ⟨⟨_, hnames.symm⟩, fun he => hmore ?_⟩
      rw [← he] at hnames
      exact self_eq_append_right.mp hnames

end CleanPath

end Robot.Lib
