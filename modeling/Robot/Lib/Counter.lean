import Mathlib

/-!
# Counters in big endian

A byte string as a big-endian number, and counters modulo `N`: a function that adds one to a
value modulo `N` visits `N` different states before it comes back.
-/

namespace Robot.Lib

open List

/-- The number a byte string spells, lowest byte first. -/
def leValue : List UInt8 → Nat
  | [] => 0
  | b :: bs => b.toNat + 256 * leValue bs

/-- The number a byte string spells, highest byte first. -/
def beValue (bytes : List UInt8) : Nat := leValue bytes.reverse

theorem leValue_lt (bytes : List UInt8) : leValue bytes < 256 ^ bytes.length := by
  induction bytes with
  | nil => exact Nat.one_pos
  | cons b bs ih =>
    have hb := b.toNat_lt
    rw [length_cons, Nat.pow_succ]
    show b.toNat + 256 * leValue bs < _
    omega

theorem beValue_lt (bytes : List UInt8) : beValue bytes < 256 ^ bytes.length := by
  have h := leValue_lt bytes.reverse
  rwa [length_reverse] at h

theorem leValue_inj : ∀ {a b : List UInt8}, a.length = b.length → leValue a = leValue b → a = b := by
  intro a
  induction a with
  | nil =>
    intro b hlen _
    exact (length_eq_zero_iff.mp hlen.symm).symm
  | cons x xs ih =>
    intro b hlen hval
    cases b with
    | nil => cases hlen
    | cons y ys =>
      have hx := x.toNat_lt
      have hy := y.toNat_lt
      have hval' : x.toNat + 256 * leValue xs = y.toNat + 256 * leValue ys := hval
      have hhead : x = y := UInt8.toNat_inj.mp (by omega)
      have htail : xs = ys := ih (Nat.succ.inj hlen) (by omega)
      rw [hhead, htail]

/-- Strings of one length are told apart by their values. -/
theorem beValue_inj {a b : List UInt8} (hlen : a.length = b.length) (h : beValue a = beValue b) :
    a = b := by
  have hrev : a.reverse = b.reverse :=
    leValue_inj (by rw [length_reverse, length_reverse, hlen]) h
  exact reverse_injective hrev

/-! ## Counting modulo `N` -/

section Counter

variable {α : Type} {P : α → Prop} {f : α → α} {v : α → Nat} {N : Nat}

/-- `f` keeps `P` and adds one to the value, modulo `N`. -/
def CountsMod (P : α → Prop) (f : α → α) (v : α → Nat) (N : Nat) : Prop :=
  ∀ a, P a → P (f a) ∧ v (f a) = (v a + 1) % N ∧ v a < N

theorem CountsMod.iterate (h : CountsMod P f v N) : ∀ (k : Nat) {a : α}, P a →
    P (f^[k] a) ∧ v (f^[k] a) = (v a + k) % N := by
  intro k
  induction k with
  | zero =>
    intro a ha
    exact ⟨ha, (Nat.mod_eq_of_lt (h a ha).2.2).symm⟩
  | succ k ih =>
    intro a ha
    obtain ⟨hP, hv, -⟩ := h a ha
    obtain ⟨hPk, hvk⟩ := ih hP
    refine ⟨hPk, ?_⟩
    rw [Function.iterate_succ_apply, hvk, hv, Nat.mod_add_mod]
    congr 1
    omega

/-- Equal values come from equal values. -/
theorem CountsMod.value_inj (h : CountsMod P f v N) {a b : α} (ha : P a) (hb : P b)
    (heq : v (f a) = v (f b)) : v a = v b := by
  obtain ⟨-, hva, hlta⟩ := h a ha
  obtain ⟨-, hvb, hltb⟩ := h b hb
  rw [hva, hvb] at heq
  exact Nat.ModEq.eq_of_lt_of_lt (Nat.ModEq.add_right_cancel' 1 heq) hlta hltb

/-- **No state comes twice** within `N` steps. -/
theorem CountsMod.nodup (h : CountsMod P f v N) {a : α} (ha : P a) {k : Nat} (hk : k ≤ N) :
    (List.iterate f a k).Nodup := by
  rw [nodup_iff_injective_getElem]
  intro i j hij
  have hi := i.isLt
  have hj := j.isLt
  simp only [length_iterate] at hi hj
  simp only [getElem_iterate] at hij
  have hvi := (h.iterate i ha).2
  have hvj := (h.iterate j ha).2
  rw [hij, hvj] at hvi
  apply Fin.ext
  have hmod : (i : Nat) ≡ j [MOD N] := Nat.ModEq.add_left_cancel' (v a) hvi.symm
  exact Nat.ModEq.eq_of_lt_of_lt hmod (by omega) (by omega)

end Counter

end Robot.Lib
