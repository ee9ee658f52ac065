import Mathlib

/-!
# One mutex and the program points inside it

A machine with a mutex has a bit `locked` and, for every thread, a program point. Some
points are *inside* the critical section: the thread came by `Lock` and has not done
`Unlock`. `Guarded inside locked pcs` says that the bit and the points agree: while the
mutex is free nobody is inside, and never are two threads inside.

A step of one thread does one of three things to the section, and each keeps the
agreement: it takes the free mutex (`enter`), gives it back (`leave`), or moves to a point
on the same side (`stay`).

`ι` are the threads, `π` is whatever a thread's state is; nothing here knows about the robot.
-/

namespace Robot.Lib

open Function

variable {ι π : Type} {inside : π → Bool} {locked : Bool} {pcs : ι → π}

/-- The mutex bit and the threads' program points agree. -/
structure Guarded (inside : π → Bool) (locked : Bool) (pcs : ι → π) : Prop where
  free : locked = false → ∀ i, inside (pcs i) = false
  one : ∀ i j, inside (pcs i) = true → inside (pcs j) = true → i = j

namespace Guarded

theorem init {p : π} (hp : inside p = false) : Guarded inside false (fun _ : ι => p) where
  free _ _ := hp
  one i _ hi := by
    rw [hp] at hi
    cases hi

/-- Only the sides the threads are on matter. -/
theorem congr (h : Guarded inside locked pcs) {pcs' : ι → π}
    (hsame : ∀ i, inside (pcs' i) = inside (pcs i)) : Guarded inside locked pcs' := by
  refine ⟨fun hl i => ?_, fun i j hi hj => ?_⟩
  · rw [hsame]
    exact h.free hl i
  · rw [hsame] at hi hj
    exact h.one i j hi hj

variable [DecidableEq ι]

/-- `Lock`: it waits for the mutex to be free. -/
theorem enter (h : Guarded inside false pcs) (i : ι) {p : π} :
    Guarded inside true (update pcs i p) where
  free hl := nomatch hl
  one j k hj hk := by
    have hout : ∀ l, l ≠ i → inside (update pcs i p l) = false := by
      intro l hl
      rw [update_of_ne hl]
      exact h.free rfl l
    by_cases hji : j = i
    · by_cases hki : k = i
      · rw [hji, hki]
      · rw [hout k hki] at hk
        cases hk
    · rw [hout j hji] at hj
      cases hj

/-- `Unlock`, by the thread that is inside. -/
theorem leave (h : Guarded inside locked pcs) {i : ι} {p : π} (hi : inside (pcs i) = true)
    (hp : inside p = false) : Guarded inside false (update pcs i p) := by
  have hout : ∀ l, inside (update pcs i p l) = false := by
    intro l
    by_cases hl : l = i
    · rw [hl, update_self]
      exact hp
    · rw [update_of_ne hl]
      cases hin : inside (pcs l) with
      | false => rfl
      | true => exact absurd (h.one l i hin hi) hl
  refine ⟨fun _ => hout, fun j k hj => ?_⟩
  rw [hout j] at hj
  cases hj

/-- A step that stays on its side of the section. -/
theorem stay (h : Guarded inside locked pcs) {i : ι} {p : π} (hp : inside p = inside (pcs i)) :
    Guarded inside locked (update pcs i p) := by
  refine h.congr fun l => ?_
  by_cases hl : l = i
  · rw [hl, update_self]
    exact hp
  · rw [update_of_ne hl]

end Guarded

end Robot.Lib
