import Mathlib

/-!
# Rounding up to a power of two, and masking with it

Two tables of the robot size themselves with the same loop,
`for cap < want { cap <<= 1 }` starting at `1`, and then index with
`h & (cap - 1)` in place of a modulo. `roundPow2` is that loop over `UInt64`
(the shift really does wrap, so the termination argument is not free), and
`mask_toNat` is the fact the indexing relies on.

The loop is fuelled by `64`; `roundPow2_spec` shows that the fuel never runs out
for a request up to `2 ^ 63`, because the result satisfies the loop's exit test.
-/

namespace Robot.Lib

/-- `for cap < want { cap <<= 1 }`. -/
def doubleUntil (want : UInt64) : Nat → UInt64 → UInt64
  | 0, cap => cap
  | fuel + 1, cap => if cap < want then doubleUntil want fuel (cap <<< 1) else cap

/-- The loop as it is called: from `cap = 1`. -/
def roundPow2 (want : UInt64) : UInt64 := doubleUntil want 64 1

/-- Doubling a power of two below the top bit is the next power of two. -/
theorem shiftLeft_one_toNat {cap : UInt64} {k : Nat} (hk : k < 63) (hcap : cap.toNat = 2 ^ k) :
    (cap <<< 1).toNat = 2 ^ (k + 1) := by
  have hlt : 2 ^ (k + 1) < 2 ^ 64 := Nat.pow_lt_pow_right (by omega) (by omega)
  rw [UInt64.toNat_shiftLeft, hcap, show (1 : UInt64).toNat % 64 = 1 from rfl, Nat.shiftLeft_eq,
    Nat.pow_one, ← Nat.pow_succ, Nat.mod_eq_of_lt hlt]

/-- From a power of two the loop stops at a power of two that meets the request,
and it doubled no more than it had to. -/
theorem doubleUntil_spec {want : UInt64} (hw : want.toNat ≤ 2 ^ 63) :
    ∀ (fuel k : Nat) (cap : UInt64), k ≤ 63 → 63 < k + fuel → cap.toNat = 2 ^ k →
      ∃ j, k ≤ j ∧ j ≤ 63 ∧ (doubleUntil want fuel cap).toNat = 2 ^ j ∧ want.toNat ≤ 2 ^ j ∧
        (j = k ∨ 2 ^ (j - 1) < want.toNat) := by
  intro fuel
  induction fuel with
  | zero => intro k cap hk hf; omega
  | succ fuel ih =>
    intro k cap hk hf hcap
    unfold doubleUntil
    split
    next hlt =>
      have hlt' : 2 ^ k < want.toNat := by
        rw [← hcap]
        exact UInt64.lt_iff_toNat_lt.mp hlt
      -- the request is at most `2 ^ 63`, so a cap still below it has room to double
      have hk63 : k < 63 := by
        rcases Nat.lt_or_ge k 63 with h | h
        · exact h
        · have : 2 ^ 63 ≤ 2 ^ k := Nat.pow_le_pow_right (by omega) h
          omega
      obtain ⟨j, hkj, hj, hval, hge, hmin⟩ :=
        ih (k + 1) (cap <<< 1) (by omega) (by omega) (shiftLeft_one_toNat hk63 hcap)
      refine ⟨j, by omega, hj, hval, hge, Or.inr ?_⟩
      rcases hmin with rfl | hmin
      · rw [Nat.add_sub_cancel]
        exact hlt'
      · exact hmin
    next hge =>
      refine ⟨k, Nat.le_refl _, hk, hcap, ?_, Or.inl rfl⟩
      rw [← hcap]
      exact Nat.le_of_not_lt (fun h => hge (UInt64.lt_iff_toNat_lt.mpr h))

/-- **The rounding loop.** For every request up to `2 ^ 63` it stops, at the least
power of two that is not below the request. -/
theorem roundPow2_spec {want : UInt64} (hw : want.toNat ≤ 2 ^ 63) :
    ∃ j, j ≤ 63 ∧ (roundPow2 want).toNat = 2 ^ j ∧ want.toNat ≤ 2 ^ j ∧
      (j = 0 ∨ 2 ^ (j - 1) < want.toNat) := by
  obtain ⟨j, -, hj, hval, hge, hmin⟩ :=
    doubleUntil_spec hw 64 0 1 (by omega) (by omega) (by rfl)
  exact ⟨j, hj, hval, hge, hmin⟩

/-- Masking with a power of two less one is reduction modulo it. -/
theorem mask_toNat {cap h : UInt64} {k : Nat} (hcap : cap.toNat = 2 ^ k) :
    (h &&& (cap - 1)).toNat = h.toNat % 2 ^ k := by
  have hone : (1 : UInt64) ≤ cap := by
    rw [UInt64.le_iff_toNat_le, hcap]
    exact Nat.one_le_two_pow
  rw [UInt64.toNat_and, UInt64.toNat_sub_of_le _ _ hone, hcap]
  exact Nat.and_two_pow_sub_one_eq_mod _ _

/-- A request that is an `int` of at least `0` is in range for the rounding. -/
theorem toUInt64_le_of_nonneg {c : Int64} (h : 0 ≤ c) : c.toUInt64.toNat ≤ 2 ^ 63 := by
  have h0 : 0 ≤ c.toInt := Int64.le_iff_toInt_le.mp h
  have hlt := Int64.toInt_lt c
  rw [Int64.toNat_toUInt64_of_le h, Int64.toNatClampNeg]
  omega

end Robot.Lib
