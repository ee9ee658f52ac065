import Mathlib

/-!
# Lists sorted by distinct keys

A slice of rows with distinct keys, sorted with a comparator that orders different keys and
says anything at all about equal ones. The comparator is not a strict order then, but it is
never asked about two rows with one key, and the result is strictly increasing in the key
(`insertionSort_pairwise_key`).

A list that is strictly increasing in the key is determined by its rows: two such lists with
the same keys, whose rows for one key are related, are related row by row
(`forall₂_of_keys`).

`κ` is any linear order; nothing here knows about the robot.
-/

namespace Robot.Lib

open List

variable {α κ : Type} [LinearOrder κ] {key : α → κ}

/-- Inserting a row whose key is new. -/
theorem orderedInsert_pairwise_key {r : α → α → Prop} [DecidableRel r]
    (hr : ∀ a b, key a ≠ key b → (r a b ↔ key a < key b)) {a : α} :
    ∀ {l : List α}, (∀ b ∈ l, key a ≠ key b) → l.Pairwise (fun b c => key b < key c) →
      (l.orderedInsert r a).Pairwise fun b c => key b < key c := by
  intro l
  induction l with
  | nil => intro _ _; exact pairwise_singleton ..
  | cons b l ih =>
    intro hne hl
    obtain ⟨hb, hl'⟩ := pairwise_cons.mp hl
    have hab := hne b mem_cons_self
    unfold List.orderedInsert
    split
    next hrab =>
      have hlt := (hr a b hab).mp hrab
      refine pairwise_cons.mpr ⟨fun c hc => ?_, hl⟩
      rcases mem_cons.mp hc with hc | hc
      · exact hc ▸ hlt
      · exact hlt.trans (hb c hc)
    next hrab =>
      have hlt : key b < key a :=
        lt_of_le_of_ne (not_lt.mp fun hlt => hrab ((hr a b hab).mpr hlt)) (Ne.symm hab)
      refine pairwise_cons.mpr ⟨fun c hc => ?_, ih (fun c hc => hne c ?_) hl'⟩
      · rcases (mem_orderedInsert r).mp hc with hc | hc
        · exact hc ▸ hlt
        · exact hb c hc
      · exact mem_cons_of_mem b hc

/-- **Sorting by a comparator that orders different keys**, where the keys are distinct. -/
theorem insertionSort_pairwise_key {r : α → α → Prop} [DecidableRel r]
    (hr : ∀ a b, key a ≠ key b → (r a b ↔ key a < key b)) :
    ∀ {l : List α}, (l.map key).Nodup →
      (l.insertionSort r).Pairwise fun a b => key a < key b := by
  intro l
  induction l with
  | nil => intro _; exact List.Pairwise.nil
  | cons a l ih =>
    intro hnd
    rw [map_cons, nodup_cons] at hnd
    refine orderedInsert_pairwise_key hr (fun b hb he => hnd.1 ?_) (ih hnd.2)
    rw [he]
    exact mem_map_of_mem ((mem_insertionSort r).mp hb)

omit [LinearOrder κ] in
/-- Lists with the same keys in the same places, related key by key. -/
theorem forall₂_of_map_eq {R : α → α → Prop} :
    ∀ {l l' : List α}, l.map key = l'.map key →
      (∀ a ∈ l, ∀ b ∈ l', key a = key b → R a b) → List.Forall₂ R l l' := by
  intro l
  induction l with
  | nil =>
    intro l' hkeys _
    rw [map_nil] at hkeys
    rw [map_eq_nil_iff.mp hkeys.symm]
    exact .nil
  | cons a l ih =>
    intro l' hkeys h
    cases l' with
    | nil => cases hkeys
    | cons b l' =>
      rw [map_cons, map_cons, List.cons.injEq] at hkeys
      refine .cons (h a mem_cons_self b mem_cons_self hkeys.1) (ih hkeys.2 ?_)
      exact fun a' ha' b' hb' =>
        h a' (mem_cons_of_mem a ha') b' (mem_cons_of_mem b hb')

/-- **Two lists sorted by the same keys** are related row by row if their rows are. -/
theorem forall₂_of_keys {R : α → α → Prop} {l l' : List α}
    (hl : l.Pairwise fun a b => key a < key b) (hl' : l'.Pairwise fun a b => key a < key b)
    (hkeys : ∀ k, k ∈ l.map key ↔ k ∈ l'.map key)
    (h : ∀ a ∈ l, ∀ b ∈ l', key a = key b → R a b) : List.Forall₂ R l l' := by
  refine forall₂_of_map_eq ?_ h
  exact (pairwise_map.mpr hl).eq_of_mem_iff (pairwise_map.mpr hl') hkeys

end Robot.Lib
