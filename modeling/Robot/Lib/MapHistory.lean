import Mathlib

/-!
# Partial maps with one entry per residue, as histories

What a direct-mapped table is *for*: a partial map from keys to values that holds at
most one key of each residue class. The specification is given over histories
rather than over a second implementation. An event records an operation with
what it answered; `held h k` reads off the history (newest event first) the value
of the latest accepted store of `k` that has not been removed since; `Consistent`
says that every answer in the history is the one this reading prescribes.

The two consequences a client relies on follow from consistency alone:

* `held_single`: two held keys of one residue are the same key;
* `take_once`: between two successful takes of one key lies an accepted store of it,
  so no stored value is handed out twice.
-/

namespace Robot.Lib

variable {κ ι ν : Type}

/-- One completed operation on the map and its answer. -/
inductive MapEvent (κ ν : Type) where
  | put (k : κ) (v : ν) (accepted : Bool)
  | get (k : κ) (r : Option ν)
  | take (k : κ) (r : Option ν)
  | drop (k : κ)

/-- The value of the latest accepted store of `k` that was not removed since. -/
def held [DecidableEq κ] : List (MapEvent κ ν) → κ → Option ν
  | [], _ => none
  | .put k' v true :: h, k => if k' = k then some v else held h k
  | .put _ _ false :: h, k => held h k
  | .get _ _ :: h, k => held h k
  | .take k' _ :: h, k => if k' = k then none else held h k
  | .drop k' :: h, k => if k' = k then none else held h k

/-- Another key of the same residue is present. -/
def Conflict (res : κ → ι) (m : κ → Option ν) (k : κ) : Prop :=
  ∃ k', k' ≠ k ∧ res k' = res k ∧ m k' ≠ none

/-- The answer the map prescribes for an event after the history `h`. -/
def Answers [DecidableEq κ] (res : κ → ι) (h : List (MapEvent κ ν)) : MapEvent κ ν → Prop
  | .put k _ accepted => accepted = false ↔ Conflict res (held h) k
  | .get k r => r = held h k
  | .take k r => r = held h k
  | .drop _ => True

/-- Every event of the history answers as the map prescribes. -/
def Consistent [DecidableEq κ] (res : κ → ι) : List (MapEvent κ ν) → Prop
  | [] => True
  | e :: h => Answers res h e ∧ Consistent res h

variable [DecidableEq κ] {res : κ → ι}

/-- **One entry per residue.** An accepted store never meets another key of its
residue, and the other operations only remove. -/
theorem held_single :
    ∀ (h : List (MapEvent κ ν)), Consistent res h →
      ∀ k k', held h k ≠ none → held h k' ≠ none → res k = res k' → k = k' := by
  intro h
  induction h with
  | nil => intro _ k k' hk; exact absurd rfl hk
  | cons e h ih =>
    intro hcc k k' hk hk' hres
    obtain ⟨hans, hcon⟩ := hcc
    have hold := ih hcon
    cases e with
    | put k₀ v accepted =>
      cases accepted with
      | false => exact hold k k' hk hk' hres
      | true =>
        have hfree : ¬ Conflict res (held h) k₀ := fun hc => by
          have := hans.mpr hc
          simp at this
        simp only [held] at hk hk'
        by_cases h1 : k₀ = k
        · by_cases h2 : k₀ = k'
          · exact h1.symm.trans h2
          · rw [if_neg h2] at hk'
            exact absurd ⟨k', fun he => h2 he.symm, by rw [h1, hres], hk'⟩ hfree
        · rw [if_neg h1] at hk
          by_cases h2 : k₀ = k'
          · exact absurd ⟨k, fun he => h1 he.symm, by rw [h2, hres], hk⟩ hfree
          · rw [if_neg h2] at hk'
            exact hold k k' hk hk' hres
    | get k₀ r => exact hold k k' hk hk' hres
    | take k₀ r =>
      simp only [held, ne_eq, ite_eq_left_iff, Classical.not_imp] at hk hk'
      exact hold k k' hk.2 hk'.2 hres
    | drop k₀ =>
      simp only [held, ne_eq, ite_eq_left_iff, Classical.not_imp] at hk hk'
      exact hold k k' hk.2 hk'.2 hres

/-- A key stays absent as long as nothing stores it. -/
theorem held_none_of_no_put {k : κ} {h : List (MapEvent κ ν)} (hnone : held h k = none) :
    ∀ (later : List (MapEvent κ ν)), (∀ v, MapEvent.put k v true ∉ later) →
      held (later ++ h) k = none := by
  intro later
  induction later with
  | nil => intro _; exact hnone
  | cons e later ih =>
    intro hno
    have hrest := ih (fun v hv => hno v (List.mem_cons_of_mem _ hv))
    cases e with
    | put k₀ v accepted =>
      cases accepted with
      | false => exact hrest
      | true =>
        have hne : k₀ ≠ k := fun he => hno v (he ▸ List.mem_cons_self ..)
        simp only [List.cons_append, held, if_neg hne]
        exact hrest
    | get k₀ r => exact hrest
    | take k₀ r =>
      simp only [List.cons_append, held]
      split
      · rfl
      · exact hrest
    | drop k₀ =>
      simp only [List.cons_append, held]
      split
      · rfl
      · exact hrest

theorem consistent_append {h : List (MapEvent κ ν)} :
    ∀ {later : List (MapEvent κ ν)}, Consistent res (later ++ h) → Consistent res h := by
  intro later
  induction later with
  | nil => intro hc; exact hc
  | cons e later ih => intro hc; exact ih hc.2

/-- **No value is handed out twice.** Two successful takes of one key have an
accepted store of that key between them. -/
theorem take_once {k : κ} {v v' : ν} {older between : List (MapEvent κ ν)}
    (hc : Consistent res (.take k (some v') :: between ++ .take k (some v) :: older)) :
    ∃ w, MapEvent.put k w true ∈ between := by
  refine Classical.byContradiction fun hno => ?_
  have hempty : held (MapEvent.take k (some v) :: older) k = none := by
    simp [held]
  have hgone := held_none_of_no_put hempty between
    (fun w hw => hno ⟨w, hw⟩)
  have hans : some v' = held (between ++ .take k (some v) :: older) k := hc.1
  rw [hgone] at hans
  simp at hans

end Robot.Lib
