import Mathlib

/-!
# Running moments: Welford's update and Chan's merge

A program that reports a variance without keeping the values keeps three numbers: how many
there are, their mean, and the sum `m2` of the squared deviations from it. `push` is
Welford's update by one value, `merge` Chan's formula for two summaries.

Both are exact, and there is one reason for it. The three numbers stand for the plain sums

> `sum = count * mean`, `sumSq = m2 + count * mean²`,

and in these terms `push` adds `x` and `x²` (`sums_push`) and `merge` adds the sums
(`sums_merge`). So the order and the grouping in which values come in cannot matter, and `m2`
is recovered as `sumSq - sum² / count` (`m2_eq`). `sumSqDev_eq` is the same identity for a list
of values and says that this is the sum of squared deviations.

`K` is any field; nothing here knows about the robot.
-/

namespace Robot.Lib

open List

variable {K : Type} [Field K]

/-- Count, mean, and sum of squared deviations. -/
structure Moments (K : Type) where
  count : K
  mean : K
  m2 : K

namespace Moments

/-- Of no values. -/
def zero : Moments K := { count := 0, mean := 0, m2 := 0 }

/-- Welford's update by one value. -/
def push (a : Moments K) (x : K) : Moments K :=
  let count := a.count + 1
  let delta := x - a.mean
  let mean := a.mean + delta / count
  { count := count, mean := mean, m2 := a.m2 + delta * (x - mean) }

/-- Chan's formula. -/
def merge (a b : Moments K) : Moments K :=
  let count := a.count + b.count
  let delta := b.mean - a.mean
  { count := count
    mean := a.mean + delta * b.count / count
    m2 := a.m2 + (b.m2 + delta * delta * a.count * b.count / count) }

/-- The sum of the values. -/
def sum (a : Moments K) : K := a.count * a.mean

/-- The sum of their squares. -/
def sumSq (a : Moments K) : K := a.m2 + a.count * a.mean ^ 2

/-- The two plain sums. -/
def sums (a : Moments K) : K × K := (a.sum, a.sumSq)

theorem sums_zero : (zero : Moments K).sums = 0 := by simp [sums, sum, sumSq, zero]

/-- **Welford's update adds the value and its square.** -/
theorem sums_push (a : Moments K) (x : K) (h : a.count + 1 ≠ 0) :
    (a.push x).sums = a.sums + (x, x ^ 2) := by
  refine Prod.ext ?_ ?_
  · simp only [sums, sum, push, Prod.fst_add]
    field_simp
    ring
  · simp only [sums, sumSq, push, Prod.snd_add]
    field_simp
    ring

/-- **Chan's formula adds the sums.** -/
theorem sums_merge (a b : Moments K) (h : a.count + b.count ≠ 0) :
    (a.merge b).sums = a.sums + b.sums := by
  refine Prod.ext ?_ ?_
  · simp only [sums, sum, merge, Prod.fst_add]
    field_simp
    ring
  · simp only [sums, sumSq, merge, Prod.snd_add]
    field_simp
    ring

/-- The squared deviations in terms of the plain sums. -/
theorem m2_eq (a : Moments K) : a.m2 = a.sums.2 - a.sums.1 ^ 2 / a.count := by
  simp only [sums, sum, sumSq]
  field_simp
  ring

end Moments

/-! ## The same for a list of values -/

/-- The sum of the squared deviations from the mean. -/
def sumSqDev (xs : List K) : K :=
  let mean := xs.sum / xs.length
  (xs.map fun x => (x - mean) ^ 2).sum

/-- The plain sums of some values, as `push` adds them up. -/
def powerSums (xs : List K) : K × K := (xs.map fun x => (x, x ^ 2)).sum

theorem powerSums_fst (xs : List K) : (powerSums xs).1 = xs.sum := by
  have h := map_list_sum (AddMonoidHom.fst K K) (xs.map fun x => (x, x ^ 2))
  rw [map_map] at h
  exact h.trans (congrArg List.sum (map_id xs))

/-- Squared deviations from any centre, in terms of the plain sums. -/
theorem sum_map_sub_sq (c : K) : ∀ xs : List K,
    (xs.map fun x => (x - c) ^ 2).sum =
      (powerSums xs).2 - 2 * c * (powerSums xs).1 + xs.length * c ^ 2 := by
  intro xs
  induction xs with
  | nil => simp [powerSums]
  | cons x xs ih =>
    have hcons : powerSums (x :: xs) = (x, x ^ 2) + powerSums xs := rfl
    rw [map_cons, sum_cons, ih, hcons, Prod.fst_add, Prod.snd_add, length_cons]
    push_cast
    ring

theorem sumSqDev_eq (xs : List K) (h : (xs.length : K) ≠ 0) :
    sumSqDev xs = (powerSums xs).2 - (powerSums xs).1 ^ 2 / xs.length := by
  unfold sumSqDev
  rw [sum_map_sub_sq, powerSums_fst]
  field_simp
  ring

/-- The population variance. -/
def variance (xs : List K) : K := sumSqDev xs / xs.length

theorem sumSqDev_nonneg [LinearOrder K] [IsStrictOrderedRing K] (xs : List K) :
    0 ≤ sumSqDev xs := by
  refine sum_nonneg fun y hy => ?_
  obtain ⟨x, -, rfl⟩ := mem_map.mp hy
  exact sq_nonneg _

theorem variance_nonneg [LinearOrder K] [IsStrictOrderedRing K] (xs : List K) :
    0 ≤ variance xs := div_nonneg (sumSqDev_nonneg xs) (Nat.cast_nonneg _)

end Robot.Lib
