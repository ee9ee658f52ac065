import Mathlib

/-!
# Grouping by key, in insertion order

The tracing code groups twice, each time with the same pair of Go values: a map from key
to accumulator and a slice with the keys in the order they first appeared. `Grouped` is
that pair with the fact that makes it one thing, that the slice lists exactly the keys
of the map, once each.

`upsert` is the only write: look the key up, start from `init` if it is new, update. What
is proved about it:

* `upsert_order`: the keys are listed in order of first occurrence;
* `groupAll_buckets`: after a list of updates, the accumulator of `k` is the fold over
  the items with key `k`;
* `weigh_upsert`: a weight summed over all accumulators changes by what the one
  accumulator's weight changes;
* `flatten_filter_perm`: cutting a list into its groups and concatenating them again
  loses and duplicates nothing.
-/

namespace Robot.Lib

open Function List

variable {κ β α : Type} [DecidableEq κ]

/-- A Go `map` and the slice of its keys in insertion order. -/
structure Grouped (κ β : Type) where
  buckets : κ → Option β
  order : List κ
  nodup : order.Nodup
  mem_iff : ∀ k, k ∈ order ↔ buckets k ≠ none

namespace Grouped

def empty : Grouped κ β :=
  { buckets := fun _ => none, order := [], nodup := nodup_nil, mem_iff := fun _ => by simp }

/-- Update the accumulator of `k`, created as `init` if it is new. -/
def upsert (g : Grouped κ β) (k : κ) (init : β) (f : β → β) : Grouped κ β :=
  { buckets := update g.buckets k (some (f ((g.buckets k).getD init)))
    order := if (g.buckets k).isSome then g.order else g.order ++ [k]
    nodup := by
      split
      · exact g.nodup
      next h =>
        refine nodup_append.mpr ⟨g.nodup, nodup_singleton k, ?_⟩
        intro a ha b hb hab
        rw [mem_singleton] at hb
        rw [hab, hb, g.mem_iff] at ha
        exact h (Option.isSome_iff_ne_none.mpr ha)
    mem_iff := by
      intro k'
      by_cases hk : k' = k
      · subst hk
        rw [update_self]
        split
        next h => simpa [g.mem_iff] using Option.isSome_iff_ne_none.mp h
        next => simp
      · rw [update_of_ne hk]
        split
        · exact g.mem_iff k'
        · simp [hk, g.mem_iff] }

theorem upsert_buckets (g : Grouped κ β) (k k' : κ) (init : β) (f : β → β) :
    (g.upsert k init f).buckets k'
      = if k' = k then some (f ((g.buckets k).getD init)) else g.buckets k' := by
  show update g.buckets k _ k' = _
  rw [update_apply]

/-- Group a list: one update per item. -/
def groupAll (key : α → κ) (init : β) (upd : α → β → β) (xs : List α) (g : Grouped κ β) :
    Grouped κ β :=
  xs.foldl (fun g x => g.upsert (key x) init (upd x)) g

/-- **The accumulator of a key** is the fold over the items with that key. -/
theorem groupAll_buckets (key : α → κ) (init : β) (upd : α → β → β) (k : κ) :
    ∀ (xs : List α) (g : Grouped κ β),
      (groupAll key init upd xs g).buckets k
        = match xs.filter (fun x => key x = k) with
          | [] => g.buckets k
          | y :: ys => some ((y :: ys).foldl (fun b x => upd x b) ((g.buckets k).getD init)) := by
  intro xs
  induction xs with
  | nil => intro g; rfl
  | cons x xs ih =>
    intro g
    show (groupAll key init upd xs (g.upsert (key x) init (upd x))).buckets k = _
    rw [ih, upsert_buckets]
    by_cases hk : key x = k
    · rw [if_pos hk.symm, filter_cons_of_pos (by simpa using hk)]
      subst hk
      cases xs.filter (fun x' => key x' = key x) with
      | nil => rfl
      | cons y ys => rfl
    · rw [if_neg (fun h => hk h.symm), filter_cons_of_neg (by simpa using hk)]

/-- A key is there from the start or occurs. -/
theorem mem_groupAll (key : α → κ) (init : β) (upd : α → β → β) (xs : List α) (g : Grouped κ β)
    (k : κ) :
    k ∈ (groupAll key init upd xs g).order ↔ k ∈ g.order ∨ ∃ x ∈ xs, key x = k := by
  rw [mem_iff, groupAll_buckets, mem_iff]
  cases hf : xs.filter (fun x => key x = k) with
  | nil =>
    rw [filter_eq_nil_iff] at hf
    have hnone : ¬ ∃ x ∈ xs, key x = k := by simpa using hf
    exact ⟨Or.inl, fun h => h.resolve_right hnone⟩
  | cons y ys =>
    have hy : y ∈ xs.filter (fun x => key x = k) := by rw [hf]; exact mem_cons_self
    rw [mem_filter, decide_eq_true_iff] at hy
    exact ⟨fun _ => Or.inr ⟨y, hy⟩, fun _ => nofun⟩

/-- The groups are the keys that occur. -/
theorem groupAll_mem (key : α → κ) (init : β) (upd : α → β → β) (xs : List α) (k : κ) :
    k ∈ (groupAll key init upd xs (empty : Grouped κ β)).order ↔ ∃ x ∈ xs, key x = k := by
  rw [mem_groupAll]
  simp [empty]

/-- The accumulator of a key that occurs, from an empty start. -/
theorem groupAll_bucket (key : α → κ) (init : β) (upd : α → β → β) (xs : List α) (k : κ)
    (h : xs.filter (fun x => key x = k) ≠ []) :
    (groupAll key init upd xs empty).buckets k
      = some ((xs.filter fun x => key x = k).foldl (fun b x => upd x b) init) := by
  rw [groupAll_buckets]
  cases hf : xs.filter (fun x => key x = k) with
  | nil => exact absurd hf h
  | cons y ys => rfl

/-- A number kept in the accumulators, to which every update of a key adds an amount. -/
theorem getD_groupAll (key : α → κ) (init : β) (upd : α → β → β) (f : β → Int) (c : α → Int)
    (hinit : f init = 0) (hupd : ∀ x b, f (upd x b) = f b + c x) (k : κ) :
    ∀ (xs : List α) (g : Grouped κ β),
      (((groupAll key init upd xs g).buckets k).map f).getD 0
        = ((g.buckets k).map f).getD 0 + ((xs.filter fun x => key x = k).map c).sum := by
  intro xs
  induction xs with
  | nil => intro g; simp [groupAll]
  | cons x xs ih =>
    intro g
    show (((groupAll key init upd xs (g.upsert (key x) init (upd x))).buckets k).map f).getD 0 = _
    rw [ih, upsert_buckets]
    by_cases hk : key x = k
    · have hhead : f ((g.buckets k).getD init) = ((g.buckets k).map f).getD 0 := by
        cases g.buckets k with
        | none => exact hinit
        | some b => rfl
      rw [if_pos hk.symm, filter_cons_of_pos (by simpa using hk), Option.map_some,
        Option.getD_some, hupd, hk, hhead, map_cons, sum_cons, Int.add_assoc]
    · rw [if_neg (fun h => hk h.symm), filter_cons_of_neg (by simpa using hk)]

/-! ## Weights -/

/-- A weight summed over all accumulators. -/
def weigh (g : Grouped κ β) (w : κ → β → Int) : Int :=
  (g.order.map fun k => ((g.buckets k).map (w k)).getD 0).sum

omit [DecidableEq κ] in
@[simp] theorem weigh_empty (w : κ → β → Int) : (empty : Grouped κ β).weigh w = 0 := rfl

/-- **A weight changes where the update is.** -/
theorem weigh_upsert (g : Grouped κ β) (k : κ) (init : β) (f : β → β) (w : κ → β → Int)
    (hinit : w k init = 0) :
    (g.upsert k init f).weigh w
      = g.weigh w + (w k (f ((g.buckets k).getD init)) - w k ((g.buckets k).getD init)) := by
  -- off `k` nothing changes
  have hoff : ∀ l : List κ, k ∉ l →
      (l.map fun k' => (((g.upsert k init f).buckets k').map (w k')).getD 0)
        = l.map fun k' => ((g.buckets k').map (w k')).getD 0 := by
    intro l hl
    refine map_congr_left fun k' hk' => ?_
    have hne : k' ≠ k := fun he => hl (by rw [← he]; exact hk')
    rw [upsert_buckets, if_neg hne]
  have hat : (g.upsert k init f).buckets k = some (f ((g.buckets k).getD init)) := by
    rw [upsert_buckets, if_pos rfl]
  unfold weigh
  cases hb : g.buckets k with
  | none =>
    have hk : k ∉ g.order := by rw [g.mem_iff, hb]; simp
    have horder : (g.upsert k init f).order = g.order ++ [k] := by
      show (if (g.buckets k).isSome then g.order else g.order ++ [k]) = _
      rw [hb]
      rfl
    rw [horder, map_append, sum_append, hoff g.order hk, map_singleton, hat, hb]
    simp [hinit]
  | some b =>
    have hk : k ∈ g.order := by rw [g.mem_iff, hb]; simp
    have horder : (g.upsert k init f).order = g.order := by
      show (if (g.buckets k).isSome then g.order else g.order ++ [k]) = _
      rw [hb]
      rfl
    obtain ⟨l₁, l₂, hsplit⟩ := append_of_mem hk
    have hnd := g.nodup
    rw [hsplit, nodup_middle, nodup_cons, mem_append, not_or] at hnd
    rw [horder, hsplit, map_append, map_append, map_cons, map_cons,
      hoff l₁ hnd.1.1, hoff l₂ hnd.1.2, hat, hb]
    simp only [sum_append, sum_cons, Option.map_some, Option.getD_some]
    omega

/-- A weight to which every update adds an amount of its own. -/
theorem weigh_groupAll (key : α → κ) (init : β) (upd : α → β → β) (w : κ → β → Int) (c : α → Int)
    (hinit : ∀ k, w k init = 0) (hupd : ∀ x b, w (key x) (upd x b) = w (key x) b + c x) :
    ∀ (xs : List α) (g : Grouped κ β),
      (groupAll key init upd xs g).weigh w = g.weigh w + (xs.map c).sum := by
  intro xs
  induction xs with
  | nil => intro g; simp [groupAll]
  | cons x xs ih =>
    intro g
    show (groupAll key init upd xs (g.upsert (key x) init (upd x))).weigh w = _
    rw [ih, weigh_upsert g (key x) init (upd x) w (hinit _), hupd, map_cons, sum_cons]
    omega

end Grouped

/-! ## Cutting a list into groups -/

/-- Where the keys are distinct, a group is one item. -/
theorem filter_of_nodup_keys {key : α → κ} {xs : List α} (hnd : (xs.map key).Nodup) {x : α}
    (hx : x ∈ xs) : xs.filter (fun y => key y = key x) = [x] := by
  induction xs with
  | nil => exact absurd hx not_mem_nil
  | cons y xs ih =>
    rw [map_cons, nodup_cons] at hnd
    rcases mem_cons.mp hx with hxy | hx
    · subst hxy
      have hrest : xs.filter (fun y => key y = key x) = [] := by
        refine filter_eq_nil_iff.mpr fun z hz hkey => hnd.1 ?_
        exact mem_map.mpr ⟨z, hz, by simpa using hkey⟩
      rw [filter_cons_of_pos (by simp), hrest]
    · have hne : key y ≠ key x := fun he => hnd.1 (he ▸ mem_map_of_mem hx)
      rw [filter_cons_of_neg (by simpa using hne), ih hnd.2 hx]

/-- Repeated keys whose group is empty can be dropped. -/
theorem flatMap_dedup (f : κ → List β) :
    ∀ keys : List κ, (∀ k, 2 ≤ keys.count k → f k = []) →
      keys.flatMap f = keys.dedup.flatMap f := by
  intro keys
  induction keys with
  | nil => intro _; rfl
  | cons k keys ih =>
    intro h
    have hrest := ih fun k' hk' => h k' (Nat.le_trans hk' count_le_count_cons)
    by_cases hk : k ∈ keys
    · have hpos : 0 < keys.count k := count_pos_iff.mpr hk
      have hnil : f k = [] := h k (by rw [count_cons_self]; omega)
      rw [dedup_cons_of_mem hk, flatMap_cons, hnil, hrest]
      rfl
    · rw [dedup_cons_of_notMem hk, flatMap_cons, flatMap_cons, hrest]

/-- One key's part of a list made key by key. -/
theorem filter_flatMap_key {key : α → κ} {f : κ → List α} (hkey : ∀ k, ∀ x ∈ f k, key x = k)
    (k : κ) : ∀ keys : List κ, keys.Nodup →
      (keys.flatMap f).filter (fun x => key x = k) = if k ∈ keys then f k else [] := by
  intro keys
  induction keys with
  | nil => intro _; rfl
  | cons a keys ih =>
    intro hnd
    rw [nodup_cons] at hnd
    rw [flatMap_cons, filter_append, ih hnd.2]
    by_cases hk : a = k
    · subst hk
      have hself : (f a).filter (fun x => key x = a) = f a :=
        filter_eq_self.mpr fun x hx => decide_eq_true (hkey a x hx)
      rw [hself, if_neg hnd.1, if_pos mem_cons_self, append_nil]
    · have hnone : (f a).filter (fun x => key x = k) = [] := by
        refine filter_eq_nil_iff.mpr fun x hx he => hk ?_
        rw [← hkey a x hx]
        exact of_decide_eq_true he
      have hk' : ¬ k = a := fun he => hk he.symm
      simp only [hnone, nil_append, mem_cons, hk', false_or]

/-- Summing over the groups of some keys counts an item once per occurrence of its key. -/
theorem sum_groups (key : α → κ) (f : α → Int) (xs : List α) :
    ∀ keys : List κ, (keys.map fun k => ((xs.filter fun x => key x = k).map f).sum).sum
      = (xs.map fun x => (keys.count (key x) : Int) * f x).sum := by
  intro keys
  induction keys with
  | nil => simp
  | cons k keys ih =>
    rw [map_cons, sum_cons, ih]
    -- the new key counts for the items of its group
    have hgroup : ((xs.filter fun x => key x = k).map f).sum
        = (xs.map fun x => if key x = k then f x else 0).sum := by
      clear ih
      induction xs with
      | nil => rfl
      | cons x xs ihx =>
        by_cases hx : key x = k
        · simp [hx, ihx]
        · simp [hx, ihx]
    rw [hgroup, ← sum_map_add]
    refine congrArg List.sum (map_congr_left fun x _ => ?_)
    by_cases hx : key x = k
    · rw [if_pos hx, hx, count_cons_self]
      push_cast
      ring
    · rw [if_neg hx, count_cons_of_ne (fun he => hx he.symm), Int.zero_add]

/-- Over distinct keys that cover the list, the sums of the groups add up to the whole sum. -/
theorem sum_groups_cover (key : α → κ) (f : α → Int) (xs : List α) {keys : List κ}
    (hnd : keys.Nodup) (hcover : ∀ x ∈ xs, key x ∈ keys) :
    (keys.map fun k => ((xs.filter fun x => key x = k).map f).sum).sum = (xs.map f).sum := by
  rw [sum_groups]
  refine congrArg List.sum (map_congr_left fun x hx => ?_)
  rw [count_eq_one_of_mem hnd (hcover x hx)]
  simp

/-- **Groups partition**: over keys that cover the list, the groups put together are the list. -/
theorem flatten_filter_perm (key : α → κ) :
    ∀ (order : List κ) (xs : List α), order.Nodup → (∀ x ∈ xs, key x ∈ order) →
      ((order.map fun k => xs.filter (fun x => key x = k)).flatten).Perm xs := by
  intro order
  induction order with
  | nil =>
    intro xs _ hcover
    cases xs with
    | nil => exact .refl _
    | cons x xs => exact absurd (hcover x mem_cons_self) (by simp)
  | cons k order ih =>
    intro xs hnd hcover
    rw [nodup_cons] at hnd
    rw [map_cons, flatten_cons]
    -- what is left after the first group is grouped by the rest of the keys
    have hrest : (order.map fun k' => xs.filter (fun x => key x = k'))
        = order.map fun k' => (xs.filter (fun x => !decide (key x = k))).filter
            (fun x => key x = k') := by
      refine map_congr_left fun k' hk' => ?_
      rw [filter_filter]
      refine filter_congr fun x _ => ?_
      by_cases hx : key x = k'
      · have hne : key x ≠ k := fun he => hnd.1 (he ▸ hx ▸ hk')
        simp [hx, hx ▸ hne]
      · simp [hx]
    have hcover' : ∀ x ∈ xs.filter (fun x => !decide (key x = k)), key x ∈ order := by
      intro x hx
      rw [mem_filter] at hx
      have hne : key x ≠ k := by simpa using hx.2
      exact (mem_cons.mp (hcover x hx.1)).resolve_left hne
    rw [hrest]
    exact ((ih _ hnd.2 hcover').append_left _).trans (filter_append_perm _ xs)

end Robot.Lib
