import Mathlib

/-!
# Tallies: Go's `map[K]int` used as a histogram

`m[k] += n` on a map from keys to counts, and merging one such map into another by doing
that for each of its entries (in any order: the order of a Go `range` over a map is
random, and the result does not depend on it). `Counts t f` says the map holds exactly
the positive values of `f`: no zero entries, none missing. `total` is the sum over all
entries, which every addition raises by what it adds.
-/

namespace Robot.Lib

open List

variable {κ : Type} [DecidableEq κ]

/-- A `map[K]int`; a nil map is an empty one. -/
abbrev Tally (κ : Type) : Type := AList (fun _ : κ => Int)

namespace Tally

/-- `m[k] += n`. -/
def add (t : Tally κ) (k : κ) (n : Int) : Tally κ := t.insert k ((t.lookup k).getD 0 + n)

/-- `for k, n := range s { m[k] += n }`. -/
def merge (t s : Tally κ) : Tally κ := s.entries.foldl (fun t e => t.add e.1 e.2) t

/-- The map holds exactly the counts of `f`. -/
def Counts (t : Tally κ) (f : κ → Nat) : Prop :=
  ∀ k, t.lookup k = if f k = 0 then none else some (f k : Int)

theorem lookup_add (t : Tally κ) (k k' : κ) (n : Int) :
    (t.add k n).lookup k' = if k' = k then some ((t.lookup k).getD 0 + n) else t.lookup k' := by
  unfold add
  by_cases h : k' = k
  · rw [if_pos h, h, AList.lookup_insert]
  · rw [if_neg h, AList.lookup_insert_ne h]

theorem counts_empty : Counts (∅ : Tally κ) (fun _ => 0) := by
  intro k
  rw [AList.lookup_empty]
  rfl

theorem Counts.getD {t : Tally κ} {f : κ → Nat} (h : Counts t f) (k : κ) :
    (t.lookup k).getD 0 = (f k : Int) := by
  rw [h k]
  split
  next h0 => simp [h0]
  next => rfl

/-- Adding a positive count. -/
theorem Counts.add {t : Tally κ} {f : κ → Nat} (h : Counts t f) (k : κ) (n : Nat) (hn : 0 < n) :
    Counts (t.add k n) (fun k' => f k' + if k' = k then n else 0) := by
  intro k'
  rw [lookup_add]
  by_cases hk : k' = k
  · subst hk
    simp only [if_true]
    rw [if_neg (by omega), h.getD]
    push_cast
    rfl
  · simp only [if_neg hk, Nat.add_zero]
    exact h k'

/-- Merging entry by entry: each key of the merged entries occurs once. -/
theorem lookup_foldl_add : ∀ (l : List (Sigma fun _ : κ => Int)) (t : Tally κ) (k : κ),
    l.NodupKeys →
    (l.foldl (fun t e => Tally.add t e.1 e.2) t).lookup k
      = match l.dlookup k with
        | none => t.lookup k
        | some n => some ((t.lookup k).getD 0 + n) := by
  intro l
  induction l with
  | nil => intro t k _; rfl
  | cons e l ih =>
    intro t k hnd
    obtain ⟨a, n⟩ := e
    rw [nodupKeys_cons] at hnd
    rw [foldl_cons, ih _ k hnd.2, lookup_add]
    by_cases hk : k = a
    · subst hk
      have hnone : l.dlookup k = none := dlookup_eq_none.mpr hnd.1
      rw [hnone, dlookup_cons_eq, if_pos rfl]
    · rw [dlookup_cons_ne _ _ hk, if_neg hk]

/-- A key of a merged map: the sum where both have it. -/
theorem lookup_merge (t s : Tally κ) (k : κ) :
    (t.merge s).lookup k = Option.merge (· + ·) (t.lookup k) (s.lookup k) := by
  unfold merge
  rw [lookup_foldl_add s.entries t k s.nodupKeys]
  show _ = Option.merge (· + ·) (t.lookup k) (s.entries.dlookup k)
  cases s.entries.dlookup k with
  | none => exact Option.merge_none_right.symm
  | some n =>
    cases t.lookup k with
    | none => exact congrArg some (Int.zero_add n)
    | some m => rfl

/-- **Merging adds the counts.** -/
theorem Counts.merge {t s : Tally κ} {f g : κ → Nat} (ht : Counts t f) (hs : Counts s g) :
    Counts (t.merge s) (fun k => f k + g k) := by
  intro k
  show _ = if f k + g k = 0 then none else some ((f k + g k : Nat) : Int)
  rw [lookup_merge, ht k, hs k]
  by_cases hg : g k = 0
  · simp only [hg, Nat.add_zero, if_true, Option.merge_none_right]
  · have hpos : ¬ f k + g k = 0 := by omega
    rw [if_neg hg, if_neg hpos]
    split
    next hf => rw [Option.merge_none_left, hf, Nat.zero_add]
    next => exact congrArg some (Nat.cast_add ..).symm

/-! ## Sums over the entries -/

/-- `for _, n := range m { sum += n }`. -/
def total (t : Tally κ) : Int := (t.entries.map fun e => e.2).sum

/-- Taking a key out takes its count out. -/
theorem sum_kerase (k : κ) : ∀ l : List (Sigma fun _ : κ => Int),
    ((l.kerase k).map fun e => e.2).sum = (l.map fun e => e.2).sum - (l.dlookup k).getD 0 := by
  intro l
  induction l with
  | nil => rfl
  | cons e l ih =>
    obtain ⟨a, n⟩ := e
    by_cases hk : k = a
    · subst hk
      have herase : (⟨k, n⟩ :: l : List (Sigma fun _ : κ => Int)).kerase k = l :=
        kerase_cons_eq rfl
      rw [herase, dlookup_cons_eq, map_cons, sum_cons]
      simp
    · rw [kerase_cons_ne hk, dlookup_cons_ne _ _ hk, map_cons, map_cons,
        sum_cons, sum_cons, ih]
      omega

theorem total_add (t : Tally κ) (k : κ) (n : Int) : (t.add k n).total = t.total + n := by
  unfold total add
  rw [AList.entries_insert, map_cons, sum_cons, sum_kerase]
  show (t.lookup k).getD 0 + n + (_ - (t.lookup k).getD 0) = _
  omega

/-- Adding many counts, each to its key. -/
theorem total_foldl_add {α : Type} (key : α → κ) (n : α → Int) : ∀ (xs : List α) (t : Tally κ),
    (xs.foldl (fun t x => Tally.add t (key x) (n x)) t).total = t.total + (xs.map n).sum := by
  intro xs
  induction xs with
  | nil => intro t; simp
  | cons x xs ih =>
    intro t
    rw [foldl_cons, ih, total_add, map_cons, sum_cons, Int.add_assoc]

theorem total_merge (t s : Tally κ) : (t.merge s).total = t.total + s.total :=
  total_foldl_add _ _ s.entries t

/-- A key is there from the start or something was added to it. -/
theorem mem_foldl_add {α : Type} (key : α → κ) (n : α → Int) (k : κ) :
    ∀ (xs : List α) (t : Tally κ),
      k ∈ xs.foldl (fun t x => Tally.add t (key x) (n x)) t ↔ k ∈ t ∨ ∃ x ∈ xs, key x = k := by
  intro xs
  induction xs with
  | nil => intro t; simp
  | cons x xs ih =>
    intro t
    rw [foldl_cons, ih, add, AList.mem_insert, exists_mem_cons_iff, eq_comm (a := k)]
    tauto

/-- The count of a key is the sum of what was added to it. -/
theorem getD_lookup_foldl_add {α : Type} (key : α → κ) (n : α → Int) (k : κ) :
    ∀ (xs : List α) (t : Tally κ),
      ((xs.foldl (fun t x => Tally.add t (key x) (n x)) t).lookup k).getD 0
        = (t.lookup k).getD 0 + ((xs.filter fun x => key x = k).map n).sum := by
  intro xs
  induction xs with
  | nil => intro t; simp
  | cons x xs ih =>
    intro t
    rw [foldl_cons, ih, lookup_add]
    by_cases hk : key x = k
    · rw [if_pos hk.symm, filter_cons_of_pos (by simpa using hk), map_cons,
        sum_cons, hk, Option.getD_some, Int.add_assoc]
    · rw [if_neg (fun h => hk h.symm), filter_cons_of_neg (by simpa using hk)]

/-- The entries of one key, summed, are its count. -/
theorem sum_entries_of (t : Tally κ) (k : κ) :
    ((t.entries.filter fun e => e.1 = k).map fun e => e.2).sum = (t.lookup k).getD 0 := by
  have hself := getD_lookup_foldl_add (fun e : Sigma fun _ : κ => Int => e.1) (fun e => e.2) k
    t.entries ∅
  have hlook := lookup_foldl_add t.entries ∅ k t.nodupKeys
  have hself' : t.entries.dlookup k = t.lookup k := rfl
  rw [hself', AList.lookup_empty] at hlook
  rw [hlook, AList.lookup_empty, Option.getD_none, Int.zero_add] at hself
  rw [← hself]
  cases t.lookup k with
  | none => rfl
  | some n => simp

/-- The entries are those of a key and the others. -/
theorem sum_entries_except (t : Tally κ) (k : κ) :
    ((t.entries.filter fun e => ¬ e.1 = k).map fun e => e.2).sum
      = t.total - (t.lookup k).getD 0 := by
  have hperm := (filter_append_perm (fun e : Sigma fun _ : κ => Int => decide (e.1 = k))
    t.entries).map fun e => e.2
  have hsum := hperm.sum_eq
  rw [map_append, sum_append, sum_entries_of] at hsum
  unfold total
  rw [← hsum]
  simp only [decide_not]
  omega

end Tally

end Robot.Lib
