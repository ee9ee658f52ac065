import Mathlib

/-!
# Maps filled by assignment

A loop of `m[key(x)] = val(x)` over a slice. Later assignments win, so in general the map says
nothing about the earlier items. Where the keys are distinct nothing is overwritten and the
entries are the items (`assignAll_perm`).

The last part reads tables back: a slice with one item per name, and an array that runs along a
slice of labels.
-/

namespace Robot.Lib

open List

variable {α κ β : Type} [DecidableEq κ]

/-- `for _, x := range xs { m[key(x)] = val(x) }`. -/
def assignAll (key : α → κ) (val : α → β) (xs : List α) (m : AList fun _ : κ => β) :
    AList fun _ : κ => β :=
  xs.foldl (fun m x => m.insert (key x) (val x)) m

/-- Keys that are new to the map, each assigned once. -/
theorem assignAll_perm_append (key : α → κ) (val : α → β) :
    ∀ (xs : List α) (m : AList fun _ : κ => β), (xs.map key).Nodup → (∀ x ∈ xs, key x ∉ m) →
      (assignAll key val xs m).entries.Perm ((xs.map fun x => ⟨key x, val x⟩) ++ m.entries) := by
  intro xs
  induction xs with
  | nil => intro m _ _; exact .refl _
  | cons x xs ih =>
    intro m hnd hnew
    rw [map_cons, nodup_cons] at hnd
    have hrest : ∀ y ∈ xs, key y ∉ m.insert (key x) (val x) := by
      intro y hy hmem
      rcases (AList.mem_insert m).mp hmem with he | hm
      · exact hnd.1 (he ▸ mem_map_of_mem hy)
      · exact hnew y (mem_cons_of_mem _ hy) hm
    have h := ih (m.insert (key x) (val x)) hnd.2 hrest
    rw [AList.entries_insert_of_notMem (hnew x mem_cons_self)] at h
    exact h.trans perm_middle

/-- **Distinct keys**: the entries of the map are the items. -/
theorem assignAll_perm {key : α → κ} {xs : List α} (val : α → β) (hnd : (xs.map key).Nodup) :
    (assignAll key val xs ∅).entries.Perm (xs.map fun x => ⟨key x, val x⟩) := by
  have h := assignAll_perm_append key val xs ∅ hnd fun x _ => AList.notMem_empty _
  rw [AList.empty_entries, append_nil] at h
  exact h

theorem lookup_assignAll_of_mem {key : α → κ} {xs : List α} (val : α → β)
    (hnd : (xs.map key).Nodup) {x : α} (hx : x ∈ xs) :
    (assignAll key val xs ∅).lookup (key x) = some (val x) :=
  AList.mem_lookup_iff.mpr ((assignAll_perm val hnd).mem_iff.mpr (mem_map.mpr ⟨x, hx, rfl⟩))

/-- A key that is not assigned is missing, whatever is overwritten. -/
theorem lookup_assignAll_of_ne {key : α → κ} {k : κ} (val : α → β) :
    ∀ (xs : List α) (m : AList fun _ : κ => β), (∀ x ∈ xs, key x ≠ k) →
      (assignAll key val xs m).lookup k = m.lookup k := by
  intro xs
  induction xs with
  | nil => intro m _; rfl
  | cons x xs ih =>
    intro m h
    have hstep := ih (m.insert (key x) (val x)) fun y hy => h y (mem_cons_of_mem _ hy)
    rw [AList.lookup_insert_ne (h x mem_cons_self).symm] at hstep
    exact hstep

/-! ## Reading tables -/

/-- The item of a name, in a slice with one item for each of some names. -/
theorem find?_map_name {f : κ → β} {name : β → κ} (hname : ∀ k, name (f k) = k) (k : κ) :
    ∀ ks : List κ, (ks.map f).find? (fun x => name x = k) = if k ∈ ks then some (f k) else none := by
  intro ks
  induction ks with
  | nil => rfl
  | cons a ks ih =>
    rw [map_cons, List.find?_cons, hname]
    by_cases hk : a = k
    · simp [hk]
    · have hk' : ¬ k = a := fun he => hk he.symm
      simp only [hk, decide_false, ih, mem_cons, hk', false_or]

/-- The value beside a label. -/
theorem lookup_zip_map (v : κ → β) (k : κ) :
    ∀ labels : List κ, (labels.zip (labels.map v)).lookup k
      = if k ∈ labels then some (v k) else none := by
  intro labels
  induction labels with
  | nil => rfl
  | cons a labels ih =>
    rw [map_cons, zip_cons_cons, lookup_cons]
    by_cases hk : k = a
    · subst hk
      simp
    · rw [beq_eq_false_iff_ne.mpr hk, ih]
      simp only [mem_cons, hk, false_or]

end Robot.Lib
