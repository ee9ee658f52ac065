import Mathlib

/-!
# `int64` sums over the integers

Go's `int64` addition wraps. A value computed by a chain of additions is the wrapped
mathematical sum, whatever the order of the additions, and it is the sum itself as long
as that fits. `i32` is the conversion to `int32`, and `formatInt` the decimal text of
`strconv.FormatInt`, which two different numbers never share (`formatInt_inj`).
-/

namespace Robot.Lib

/-- The `int64` with the same residue modulo `2 ^ 64`. -/
def i64 (x : Int) : Int := Int.bmod x (2 ^ 64)

/-- Wrapping early changes nothing. -/
@[simp] theorem i64_add_left (a b : Int) : i64 (i64 a + b) = i64 (a + b) :=
  Int.bmod_add_bmod

@[simp] theorem i64_add_right (a b : Int) : i64 (a + i64 b) = i64 (a + b) :=
  Int.add_bmod_bmod

theorem i64_mul_right (a b : Int) : i64 (a * i64 b) = i64 (a * b) :=
  Int.mul_bmod_bmod

theorem i64_i64 (x : Int) : i64 (i64 x) = i64 x := by
  have h := i64_add_left x 0
  rwa [Int.add_zero, Int.add_zero] at h

/-- A value that fits is not changed. -/
theorem i64_of_lt {x : Int} (h0 : 0 ≤ x) (h : x < 2 ^ 63) : i64 x = x := by
  unfold i64
  refine Int.bmod_eq_of_le ?_ ?_
  · omega
  · omega

theorem i64_of_fits {x : Int} (h0 : -2 ^ 63 ≤ x) (h : x < 2 ^ 63) : i64 x = x := by
  unfold i64
  refine Int.bmod_eq_of_le ?_ ?_
  · omega
  · omega

theorem le_i64 (x : Int) : -2 ^ 63 ≤ i64 x := by
  have h := Int.le_bmod (x := x) (m := 2 ^ 64) (by omega)
  unfold i64
  omega

theorem i64_lt (x : Int) : i64 x < 2 ^ 63 := by
  have h := Int.bmod_lt (x := x) (m := 2 ^ 64) (by omega)
  unfold i64
  omega

/-- A value above the range loses `2 ^ 64` at least once. -/
theorem i64_le_of_over {x : Int} (h : 2 ^ 63 ≤ x) : i64 x ≤ x - 2 ^ 64 := by
  have hlt := i64_lt x
  have hdiv : i64 x + (2 ^ 64 : Nat) * x.bdiv (2 ^ 64) = x := Int.bmod_add_bdiv x (2 ^ 64)
  omega

/-- A value above the range comes out at the bottom of it. -/
theorem i64_of_over {x : Int} (h0 : 2 ^ 63 ≤ x) (h : x < 2 ^ 64 + 2 ^ 63) :
    i64 x = x - 2 ^ 64 := by
  have hshift : i64 (x - 2 ^ 64) = i64 x := Int.sub_bmod_right x (2 ^ 64)
  rw [← hshift]
  exact i64_of_fits (by omega) (by omega)

/-- A value below the range comes out at the top of it. -/
theorem i64_of_under {x : Int} (h0 : -2 ^ 64 - 2 ^ 63 ≤ x) (h : x < -2 ^ 63) :
    i64 x = x + 2 ^ 64 := by
  have hshift : i64 (x + 2 ^ 64) = i64 x := Int.add_bmod_right x (2 ^ 64)
  rw [← hshift]
  exact i64_of_fits (by omega) (by omega)

/-- The `int32` with the same residue modulo `2 ^ 32`. -/
def i32 (x : Int) : Int := Int.bmod x (2 ^ 32)

theorem i32_of_lt {x : Int} (h0 : 0 ≤ x) (h : x < 2 ^ 31) : i32 x = x := by
  unfold i32
  refine Int.bmod_eq_of_le ?_ ?_
  · omega
  · omega

/-! ## Decimal text -/

/-- `strconv.FormatInt(x, 10)`. -/
def formatInt (x : Int64) : String := toString x.toInt

/-- The digits of a number determine it. -/
theorem natRepr_inj {m n : Nat} (h : m.repr = n.repr) : m = n := by
  have hd : Nat.toDigits 10 m = Nat.toDigits 10 n := by
    rw [← Nat.toList_repr, ← Nat.toList_repr, h]
  calc m = Nat.ofDigitChars 10 (Nat.toDigits 10 m) 0 := Nat.ofDigitChars_ten_toDigits.symm
    _ = Nat.ofDigitChars 10 (Nat.toDigits 10 n) 0 := by rw [hd]
    _ = n := Nat.ofDigitChars_ten_toDigits

/-- The decimal text of a natural number has digits only. -/
theorem not_mem_natRepr {n : Nat} {c : Char} (hc : c.isDigit = false) : c ∉ n.repr.toList := by
  intro h
  rw [Nat.toList_repr] at h
  rw [Nat.isDigit_of_mem_toDigits (by omega) (by omega) h] at hc
  cases hc

/-- It does not start with a minus sign. -/
theorem natRepr_ne_minus (m n : Nat) : m.repr ≠ "-" ++ n.repr := by
  intro h
  refine not_mem_natRepr (n := m) (c := '-') rfl ?_
  rw [h]
  simp

theorem intRepr_inj {a b : Int} (h : a.repr = b.repr) : a = b := by
  cases a with
  | ofNat m =>
    cases b with
    | ofNat n => exact congrArg Int.ofNat (natRepr_inj h)
    | negSucc n => exact absurd h (natRepr_ne_minus m (n + 1))
  | negSucc m =>
    cases b with
    | ofNat n => exact absurd h.symm (natRepr_ne_minus n (m + 1))
    | negSucc n =>
      have hrest : (m + 1).repr = (n + 1).repr := String.append_right_inj "-" |>.mp h
      exact congrArg Int.negSucc (Nat.succ.inj (natRepr_inj hrest))

/-- **Two different numbers have different decimal texts.** -/
theorem formatInt_inj {x y : Int64} (h : formatInt x = formatInt y) : x = y :=
  Int64.toInt_inj.mp (intRepr_inj h)

theorem colon_not_mem_formatInt (x : Int64) : ':' ∉ (formatInt x).toList := by
  show ':' ∉ (Int.repr x.toInt).toList
  cases x.toInt with
  | ofNat n => exact not_mem_natRepr rfl
  | negSucc n =>
    show ':' ∉ ("-" ++ (n + 1).repr).toList
    rw [String.toList_append, List.mem_append, not_or]
    exact ⟨by decide, not_mem_natRepr rfl⟩

end Robot.Lib
