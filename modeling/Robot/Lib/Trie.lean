import Mathlib

/-!
# Tries

A tree whose nodes may hold a value and have children by keys, as commands are kept by the words of
their paths. `alter` changes the node at a path and makes missing nodes on the way; `descend` follows a
list of words as long as there are nodes, and gives back the words it did not use.

What matters of a trie is what it shows at each path (`see`): no node, or a node with or without a
value. The rules say what an update shows afterwards, and `descend_spec` that the walk ends at the
longest prefix with a node, so nothing else looks inside.
-/

namespace Robot.Lib

open List

/-- The first child of a key counts. -/
inductive Trie (κ α : Type) where
  | node (value : Option α) (children : List (κ × Trie κ α))

namespace Trie

variable {κ α τ : Type}

def empty : Trie κ α := .node none []

def value : Trie κ α → Option α
  | .node v _ => v

def children : Trie κ α → List (κ × Trie κ α)
  | .node _ cs => cs

def setValue (a : α) (t : Trie κ α) : Trie κ α := .node (some a) t.children

variable [DecidableEq κ]

def child (t : Trie κ α) (k : κ) : Option (Trie κ α) := (t.children.find? (·.1 = k)).map Prod.snd

def setChild (t : Trie κ α) (k : κ) (c : Trie κ α) : Trie κ α := .node t.value ((k, c) :: t.children)

/-- Change the node at a path. -/
def alter (f : Trie κ α → Trie κ α) : List κ → Trie κ α → Trie κ α
  | [], t => f t
  | k :: path, t => t.setChild k (alter f path ((t.child k).getD empty))

/-- Follow the words down. -/
def descend (key : τ → κ) : List τ → Trie κ α → List τ × Trie κ α
  | [], t => ([], t)
  | w :: words, t =>
    match t.child (key w) with
    | none => (w :: words, t)
    | some c => descend key words c

/-! ## What a trie shows -/

/-- The node at a path: none, or its value. -/
def see : List κ → Trie κ α → Option (Option α)
  | [], t => some t.value
  | k :: path, t => (t.child k).bind (see path)

theorem child_setChild (t c : Trie κ α) (k l : κ) :
    (t.setChild k c).child l = if k = l then some c else t.child l := by
  unfold setChild child children
  by_cases h : k = l
  · rw [find?_cons_of_pos (by simpa using h), if_pos h]
    rfl
  · rw [find?_cons_of_neg (by simpa using h), if_neg h]

variable {f : Trie κ α → Trie κ α} {t : Trie κ α} {p q : List κ}

/-- A missing child looks like an empty one, but for the child itself. -/
theorem see_getD_child {k l : κ} {path : List κ} :
    see (l :: path) ((t.child k).getD empty) = see (k :: l :: path) t := by
  show _ = (t.child k).bind _
  cases t.child k <;> rfl

/-- At the path and below, the changed node shows. -/
theorem see_alter_append (f : Trie κ α → Trie κ α) (r : List κ) :
    ∀ (p : List κ) (t : Trie κ α), ∃ u, see (p ++ r) (alter f p t) = see r (f u) ∧
      ∀ k path, see (k :: path) u = see (p ++ k :: path) t := by
  intro p
  induction p with
  | nil => intro t; exact ⟨t, rfl, fun _ _ => rfl⟩
  | cons l p ih =>
    intro t
    obtain ⟨u, hu, hbelow⟩ := ih ((t.child l).getD empty)
    refine ⟨u, ?_, fun k path => ?_⟩
    · show ((t.setChild l _).child l).bind _ = _
      rw [child_setChild, if_pos rfl]
      exact hu
    · rw [hbelow]
      cases p with
      | nil => exact see_getD_child
      | cons _ _ => exact see_getD_child

/-- Elsewhere nothing changes, but the nodes on the way are made. -/
theorem see_alter (hnot : ¬ p <+: q) :
    see q (alter f p t) = if q <+: p then some (see q t).join else see q t := by
  induction p generalizing q t with
  | nil => exact absurd nil_prefix hnot
  | cons k p ih =>
    cases q with
    | nil => rw [if_pos nil_prefix]; rfl
    | cons l q =>
      show ((t.setChild k _).child l).bind _ = _
      rw [child_setChild]
      by_cases hkl : k = l
      · subst hkl
        rw [if_pos rfl, Option.bind_some, ih fun h => hnot (cons_prefix_cons.mpr ⟨rfl, h⟩)]
        have hpq : k :: q <+: k :: p ↔ q <+: p := by rw [cons_prefix_cons]; exact and_iff_right rfl
        simp only [hpq]
        cases q with
        | nil =>
          rw [if_pos nil_prefix, if_pos nil_prefix]
          show _ = some ((t.child k).bind (see [])).join
          cases t.child k <;> rfl
        | cons m q => rw [see_getD_child]
      · rw [if_neg hkl, if_neg fun h => hkl (cons_prefix_cons.mp h).1.symm]
        rfl

/-! ## Registration -/

/-- Set the value at a path. -/
def register (path : List κ) (a : α) (t : Trie κ α) : Trie κ α := t.alter (setValue a) path

theorem see_register (a : α) : see q (register p a t) =
    if q = p then some (some a) else if q <+: p then some (see q t).join else see q t := by
  by_cases hpre : p <+: q
  · obtain ⟨r, rfl⟩ := hpre
    obtain ⟨u, hu, hbelow⟩ := see_alter_append (setValue a) r p t
    rw [register, hu]
    cases r with
    | nil => rw [append_nil, if_pos rfl]; rfl
    | cons k r =>
      have hlong : ¬ p ++ k :: r <+: p := fun h => by simpa using h.length_le
      have hne : p ++ k :: r ≠ p := fun h => by simp at h
      rw [if_neg hne, if_neg hlong, ← hbelow]
      rfl
  · have hne : q ≠ p := fun h => hpre (h ▸ prefix_refl _)
    rw [register, see_alter hpre, if_neg hne]

/-- One update: a value for a path, or an empty node in the place of what is there. -/
def update (t : Trie κ α) (e : List κ × Option α) : Trie κ α :=
  match e.2 with
  | some a => t.register e.1 a
  | none => t.alter (fun _ => empty) e.1

/-- The value that the last update of a path left there. -/
def lastFor (edits : List (List κ × Option α)) (q : List κ) : Option α :=
  ((edits.reverse.find? (·.1 = q)).map Prod.snd).join

theorem lastFor_eq_none {edits : List (List κ × Option α)} (h : ∀ e ∈ edits, e.1 ≠ q) :
    lastFor edits q = none := by
  unfold lastFor
  rw [find?_eq_none.mpr fun e he heq => h e (mem_reverse.mp he) (of_decide_eq_true heq)]
  rfl

/-- The trie of some updates, in order. -/
def build (edits : List (List κ × Option α)) : Trie κ α := edits.foldl update empty

/-- The places of empty nodes are leaves. -/
def EmptyLeaves (edits : List (List κ × Option α)) : Prop :=
  ∀ e ∈ edits, e.2 = none → ∀ e' ∈ edits, e.1 <+: e'.1 → e'.1 = e.1

theorem see_update {e : List κ × Option α} (hleaf : e.2 = none → e.1 <+: q → q ≠ e.1 → see q t = none) :
    see q (update t e) =
      if q = e.1 then some e.2 else if q <+: e.1 then some (see q t).join else see q t := by
  obtain ⟨p, a | a⟩ := e
  · by_cases hpre : p <+: q
    · have hold := hleaf rfl hpre
      obtain ⟨r, rfl⟩ := hpre
      obtain ⟨u, hu, -⟩ := see_alter_append (fun _ => empty) r p t
      show see (p ++ r) (alter _ p t) = _
      rw [hu]
      cases r with
      | nil => rw [append_nil, if_pos rfl]; rfl
      | cons k r =>
        have hlong : ¬ p ++ k :: r <+: p := fun h => by simpa using h.length_le
        have hne : p ++ k :: r ≠ p := fun h => by simp at h
        rw [if_neg hne, if_neg hlong, hold hne]
        rfl
    · have hne : q ≠ p := fun h => hpre (h ▸ prefix_refl _)
      show see q (alter _ p t) = _
      rw [see_alter hpre, if_neg hne]
  · exact see_register a

/-- **After updates**, there are nodes at the prefixes of the paths, with the last value of each. -/
theorem see_build {edits : List (List κ × Option α)} (hleaf : EmptyLeaves edits) (q : List κ) :
    see q (build edits) =
      if q = [] ∨ ∃ e ∈ edits, q <+: e.1 then some (lastFor edits q) else none := by
  induction edits using reverseRecOn with
  | nil =>
    cases q with
    | nil => rfl
    | cons k q => rw [if_neg (by simp)]; rfl
  | append_singleton edits e ih =>
    have ih := ih fun d hd hnone d' hd' => hleaf d (mem_append_left _ hd) hnone d' (mem_append_left _ hd')
    have hlast : lastFor (edits ++ [e]) q = if q = e.1 then e.2 else lastFor edits q := by
      unfold lastFor
      rw [reverse_append, reverse_singleton, singleton_append, find?_cons]
      by_cases h : q = e.1
      · simp [h]
      · simp [h, Ne.symm h]
    have hbuild : build (edits ++ [e]) = (build edits).update e := by
      unfold build
      rw [foldl_append, foldl_cons, foldl_nil]
    have hbelow : e.2 = none → e.1 <+: q → q ≠ e.1 → see q (build edits) = none := by
      intro hnone hpre hne
      rw [ih, if_neg]
      intro hthere
      rcases hthere with rfl | ⟨d, hd, hqd⟩
      · exact hne (prefix_nil.mp hpre).symm
      · -- an earlier path below the place of an empty node
        have hsame := hleaf e (mem_append_right _ mem_cons_self) hnone d (mem_append_left _ hd)
          (hpre.trans hqd)
        exact hne (hqd.eq_of_length_le (hsame ▸ hpre.length_le) |>.trans hsame)
    rw [hbuild, see_update hbelow, ih, hlast]
    by_cases hpre : q <+: e.1
    · have hthere : q = [] ∨ ∃ s ∈ edits ++ [e], q <+: s.1 :=
        .inr ⟨e, mem_append_right _ mem_cons_self, hpre⟩
      rw [if_pos hthere, if_pos hpre]
      by_cases hq : q = e.1
      · rw [if_pos hq, if_pos hq]
      · rw [if_neg hq, if_neg hq]
        split
        · rfl
        next hnone =>
          rw [lastFor_eq_none fun s hs he => hnone (.inr ⟨s, hs, he ▸ prefix_refl _⟩)]
          rfl
    · have hne : q ≠ e.1 := fun h => hpre (h ▸ prefix_refl _)
      have hsame : (q = [] ∨ ∃ s ∈ edits ++ [e], q <+: s.1) ↔ q = [] ∨ ∃ s ∈ edits, q <+: s.1 := by
        simp [hpre, or_and_right, exists_or]
      simp only [hsame, if_neg hne, if_neg hpre]

/-! ## The walk -/

/-- **The walk** ends at the longest prefix with a node. -/
theorem descend_spec (key : τ → κ) : ∀ (words : List τ) (t : Trie κ α),
    ∃ n ≤ words.length, (descend key words t).1 = words.drop n ∧
      see ((words.take n).map key) t = some (descend key words t).2.value ∧
      ∀ m, n < m → m ≤ words.length → see ((words.take m).map key) t = none := by
  intro words
  induction words with
  | nil => intro t; exact ⟨0, le_refl _, rfl, rfl, fun m hm hle => absurd hle (Nat.not_le.mpr hm)⟩
  | cons w words ih =>
    intro t
    unfold descend
    cases hc : t.child (key w) with
    | none =>
      refine ⟨0, Nat.zero_le _, rfl, rfl, fun m hm _ => ?_⟩
      obtain ⟨m, rfl⟩ := Nat.exists_eq_add_of_lt hm
      show (t.child (key w)).bind _ = none
      rw [hc]
      rfl
    | some c =>
      obtain ⟨n, hn, hrest, hsee, hmax⟩ := ih c
      refine ⟨n + 1, Nat.succ_le_succ hn, hrest, ?_, fun m hm hle => ?_⟩
      · show (t.child (key w)).bind _ = _
        rw [hc]
        exact hsee
      · obtain ⟨m, rfl⟩ := Nat.exists_eq_add_of_lt (Nat.lt_of_le_of_lt (Nat.zero_le _) hm)
        show (t.child (key w)).bind _ = none
        rw [hc]
        exact hmax _ (by omega) (by simp at hle; omega)

end Trie

end Robot.Lib
