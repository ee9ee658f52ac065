import Mathlib

/-!
# Reversible steps on 32-bit words

The steps non-cryptographic hashes are made of (multiplication by an odd constant, rotation,
`x ^ (x >> k)`) lose nothing, and neither does folding such steps over a list. So two states
that differ stay different, whatever comes after.
-/

namespace Robot.Lib

open Function

/-- Multiplication by a constant that has an inverse. -/
theorem mul_injective {c d : UInt32} (h : c * d = 1) : Injective (fun x : UInt32 => x * c) := by
  intro x y hxy
  have hcancel : ∀ z : UInt32, z * c * d = z := by
    intro z
    rw [UInt32.mul_assoc, h, UInt32.mul_one]
  rw [← hcancel x, ← hcancel y]
  exact congrArg (· * d) hxy

/-- `x ^ (x >> k)`. -/
theorem xorShift_injective {k : UInt32} (hk : 0 < k.toNat) (hk32 : k.toNat < 32) :
    Injective (fun x : UInt32 => x ^^^ (x >>> k)) := by
  intro x y h
  have h : x ^^^ (x >>> k) = y ^^^ (y >>> k) := h
  -- the difference is its own shift, so it is zero
  have hd : (x ^^^ y) >>> k = x ^^^ y := by
    have hx : x >>> k = x ^^^ (y ^^^ (y >>> k)) := by
      rw [← h, ← UInt32.xor_assoc, UInt32.xor_self, UInt32.zero_xor]
    rw [UInt32.shiftRight_xor, hx, UInt32.xor_assoc, UInt32.xor_assoc, UInt32.xor_self, UInt32.xor_zero]
  have hnat := congrArg UInt32.toNat hd
  rw [UInt32.toNat_shiftRight, Nat.mod_eq_of_lt hk32, Nat.shiftRight_eq_div_pow] at hnat
  refine UInt32.xor_eq_zero_iff.mp (UInt32.toNat_inj.mp ?_)
  by_contra hne
  have hlt := Nat.div_lt_self (Nat.pos_of_ne_zero hne) (Nat.one_lt_two_pow (by omega : k.toNat ≠ 0))
  omega

/-- A rotation swaps the high and the low part of the word. -/
theorem toNat_rotate {k : UInt32} (hk : 0 < k.toNat) (hk32 : k.toNat < 32) (x : UInt32) :
    ((x <<< k) ||| (x >>> (32 - k))).toNat
      = 2 ^ k.toNat * (x.toNat % 2 ^ (32 - k.toNat)) + x.toNat / 2 ^ (32 - k.toNat) ∧
    x.toNat / 2 ^ (32 - k.toNat) < 2 ^ k.toNat := by
  have hsub : (32 - k).toNat = 32 - k.toNat := by
    rw [UInt32.toNat_sub_of_le]
    · rfl
    · rw [UInt32.le_iff_toNat_le]
      show k.toNat ≤ 32
      omega
  have hpow : (2 : Nat) ^ 32 = 2 ^ k.toNat * 2 ^ (32 - k.toNat) := by
    rw [← Nat.pow_add]
    congr 1
    omega
  have hlt : x.toNat / 2 ^ (32 - k.toNat) < 2 ^ k.toNat := by
    apply Nat.div_lt_of_lt_mul
    rw [Nat.mul_comm, ← hpow]
    exact x.toNat_lt
  refine ⟨?_, hlt⟩
  rw [UInt32.toNat_or, UInt32.toNat_shiftLeft, UInt32.toNat_shiftRight, hsub, Nat.mod_eq_of_lt hk32,
    Nat.mod_eq_of_lt (by omega : 32 - k.toNat < 32), Nat.shiftLeft_eq, Nat.shiftRight_eq_div_pow,
    Nat.mul_comm x.toNat, hpow, Nat.mul_mod_mul_left, Nat.two_pow_add_eq_or_of_lt hlt]

theorem rotate_injective {k : UInt32} (hk : 0 < k.toNat) (hk32 : k.toNat < 32) :
    Injective (fun x : UInt32 => (x <<< k) ||| (x >>> (32 - k))) := by
  intro x y h
  obtain ⟨hx, hxlt⟩ := toNat_rotate hk hk32 x
  obtain ⟨hy, hylt⟩ := toNat_rotate hk hk32 y
  have hrot := congrArg UInt32.toNat h
  simp only [hx, hy] at hrot
  have hhigh : x.toNat / 2 ^ (32 - k.toNat) = y.toNat / 2 ^ (32 - k.toNat) := by
    have hmod := congrArg (· % 2 ^ k.toNat) hrot
    simpa only [Nat.mul_add_mod, Nat.mod_eq_of_lt hxlt, Nat.mod_eq_of_lt hylt] using hmod
  have hlow : x.toNat % 2 ^ (32 - k.toNat) = y.toNat % 2 ^ (32 - k.toNat) := by
    rw [hhigh] at hrot
    exact Nat.eq_of_mul_eq_mul_left (Nat.two_pow_pos _) (Nat.add_right_cancel hrot)
  apply UInt32.toNat_inj.mp
  rw [← Nat.div_add_mod x.toNat (2 ^ (32 - k.toNat)), hhigh, hlow, Nat.div_add_mod]

/-- Folding reversible steps is reversible. -/
theorem foldl_injective {α β : Type} {f : α → β → α} (hf : ∀ b, Injective (f · b)) :
    ∀ l : List β, Injective (fun a => l.foldl f a) := by
  intro l
  induction l with
  | nil => exact fun _ _ h => h
  | cons b l ih => exact fun _ _ h => hf b (ih h)

end Robot.Lib
