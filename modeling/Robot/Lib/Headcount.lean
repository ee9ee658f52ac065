import Mathlib

/-!
# How many threads are at a kind of program point

A machine may have any number of threads, infinitely many that have not begun included, and
keep a counter of those that are at certain program points. `Headcount p pcs n` says that
the counter is right: finitely many threads have `p`, and there are `n` of them. A step of
one thread comes over to `p` (`enter`), leaves it (`leave`), or stays on its side (`stay`);
a counter that follows these moves stays right.

`ι` are the threads, `π` is whatever a thread's state is; nothing here knows about the robot.
-/

namespace Robot.Lib

open Function

variable {ι π : Type}

/-- Exactly `n` threads are at a point with `p`. -/
def Headcount (p : π → Bool) (pcs : ι → π) (n : Int) : Prop :=
  ∃ threads : Finset ι, (∀ i, i ∈ threads ↔ p (pcs i) = true) ∧ n = threads.card

namespace Headcount

variable {p : π → Bool} {pcs : ι → π} {n : Int}

theorem init {x : π} (hx : p x = false) : Headcount p (fun _ : ι => x) 0 := by
  refine ⟨∅, fun i => ⟨nofun, fun h => ?_⟩, rfl⟩
  rw [hx] at h
  cases h

/-- Where the counter is zero nobody has `p`. -/
theorem none_of_zero (h : Headcount p pcs 0) (i : ι) : p (pcs i) = false := by
  obtain ⟨threads, hmem, hcard⟩ := h
  refine Bool.eq_false_iff.mpr fun hi => ?_
  have hpos := Finset.card_pos.mpr ⟨i, (hmem i).mpr hi⟩
  omega

/-- Where it is not zero somebody has. -/
theorem exists_of_ne_zero (h : Headcount p pcs n) (hn : n ≠ 0) : ∃ i, p (pcs i) = true := by
  obtain ⟨threads, hmem, hcard⟩ := h
  have hpos : 0 < threads.card := by omega
  obtain ⟨i, hi⟩ := Finset.card_pos.mp hpos
  exact ⟨i, (hmem i).mp hi⟩

variable [DecidableEq ι] {i : ι} {x : π}

theorem enter (h : Headcount p pcs n) (hi : p (pcs i) = false) (hx : p x = true) :
    Headcount p (update pcs i x) (n + 1) := by
  obtain ⟨threads, hmem, hcard⟩ := h
  have hnew : i ∉ threads := fun hin => by
    have := (hmem i).mp hin
    rw [hi] at this
    cases this
  refine ⟨insert i threads, fun j => ?_, ?_⟩
  · rw [Finset.mem_insert]
    by_cases hj : j = i
    · rw [hj, update_self, hx]
      exact ⟨fun _ => rfl, fun _ => .inl rfl⟩
    · rw [update_of_ne hj, ← hmem j]
      exact ⟨fun h => h.resolve_left hj, .inr⟩
  · rw [Finset.card_insert_of_notMem hnew, Nat.cast_succ, hcard]

theorem leave (h : Headcount p pcs n) (hi : p (pcs i) = true) (hx : p x = false) :
    Headcount p (update pcs i x) (n - 1) := by
  obtain ⟨threads, hmem, hcard⟩ := h
  refine ⟨threads.erase i, fun j => ?_, ?_⟩
  · rw [Finset.mem_erase]
    by_cases hj : j = i
    · rw [hj, update_self, hx]
      exact ⟨fun h => absurd rfl h.1, nofun⟩
    · rw [update_of_ne hj, ← hmem j]
      exact ⟨fun h => h.2, fun h => ⟨hj, h⟩⟩
  · have hone := Finset.card_erase_add_one ((hmem i).mpr hi)
    omega

theorem stay (h : Headcount p pcs n) (hx : p x = p (pcs i)) :
    Headcount p (update pcs i x) n := by
  obtain ⟨threads, hmem, hcard⟩ := h
  refine ⟨threads, fun j => ?_, hcard⟩
  by_cases hj : j = i
  · rw [hj, update_self, hx]
    exact hmem i
  · rw [update_of_ne hj]
    exact hmem j

end Headcount

end Robot.Lib
