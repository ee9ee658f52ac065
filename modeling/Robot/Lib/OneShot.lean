import Mathlib

/-!
# One-shot result channels, drained in order

A loop starts jobs one after the other, each with a result channel of its own that it
sends to exactly once, and later receives from the channels in the order it made them.
At any time the channels then fall into three stretches: the first `m` have been received
from, those up to `L` are on their way (running, or with the result in the buffer), the
rest are not made yet. `InOrder` says so, with what is known of the jobs (`J`), of their
results (`P`), and of the results that the loop has received and gone on from (`G`).

Three things happen to the channels, and each keeps the three stretches: a job finishes
(`complete`), a job is started (`launch`), and the oldest result is received (`receive`).
-/

namespace Robot.Lib

open Function

/-- A result channel and the job that sends to it. -/
inductive OneShot (α β : Type) where
  | unmade
  | running (job : α)
  | ready (res : β)
  | drained (res : β)

/-- The job has finished. -/
def OneShot.completed {α β : Type} : OneShot α β → Bool
  | .unmade | .running _ => false
  | .ready _ | .drained _ => true

variable {α β : Type}

/-- The first `m` channels are drained, those up to `L` are on their way, the rest unmade. -/
structure InOrder (J : ℕ → α → Prop) (P G : ℕ → β → Prop) (chans : ℕ → OneShot α β)
    (m L : ℕ) : Prop where
  le : m ≤ L
  drained : ∀ k < m, ∃ res, chans k = .drained res ∧ G k res
  pending : ∀ k, m ≤ k → k < L →
    (∃ job, chans k = .running job ∧ J k job) ∨ ∃ res, chans k = .ready res ∧ P k res
  unmade : ∀ k, L ≤ k → chans k = .unmade

namespace InOrder

variable {J : ℕ → α → Prop} {P G : ℕ → β → Prop} {chans : ℕ → OneShot α β} {m L : ℕ}

theorem init : InOrder J P G (fun _ => .unmade) 0 0 where
  le := Nat.le_refl 0
  drained k hk := by omega
  pending k _ hk := by omega
  unmade _ _ := rfl

/-- A running job is one of those on their way. -/
theorem running_bounds (h : InOrder J P G chans m L) {k : ℕ} {job : α}
    (hk : chans k = .running job) : m ≤ k ∧ k < L ∧ J k job := by
  by_cases h1 : k < m
  · obtain ⟨res, hd, -⟩ := h.drained k h1
    rw [hd] at hk
    cases hk
  · by_cases h2 : k < L
    · rcases h.pending k (by omega) h2 with ⟨job', hj, hJ⟩ | ⟨res, hr, -⟩
      · rw [hj] at hk
        cases hk
        exact ⟨by omega, h2, hJ⟩
      · rw [hr] at hk
        cases hk
    · rw [h.unmade k (by omega)] at hk
      cases hk

/-- A job finishes. -/
theorem complete (h : InOrder J P G chans m L) {k : ℕ} {job : α} {res : β}
    (hk : chans k = .running job) (hP : J k job → P k res) :
    InOrder J P G (update chans k (.ready res)) m L := by
  obtain ⟨hmk, hkL, hJ⟩ := h.running_bounds hk
  refine ⟨h.le, ?_, ?_, ?_⟩
  · intro j hj
    rw [update_of_ne (by omega)]
    exact h.drained j hj
  · intro j hj1 hj2
    by_cases he : j = k
    · subst he
      rw [update_self]
      exact .inr ⟨res, rfl, hP hJ⟩
    · rw [update_of_ne he]
      exact h.pending j hj1 hj2
  · intro j hj
    rw [update_of_ne (by omega)]
    exact h.unmade j hj

/-- The next job is started. -/
theorem launch (h : InOrder J P G chans m L) {job : α} (hJ : J L job) :
    InOrder J P G (update chans L (.running job)) m (L + 1) := by
  have hle := h.le
  refine ⟨by omega, ?_, ?_, ?_⟩
  · intro j hj
    rw [update_of_ne (by omega)]
    exact h.drained j hj
  · intro j hj1 hj2
    by_cases he : j = L
    · subst he
      rw [update_self]
      exact .inl ⟨job, rfl, hJ⟩
    · rw [update_of_ne he]
      exact h.pending j hj1 (by omega)
  · intro j hj
    rw [update_of_ne (by omega)]
    exact h.unmade j (by omega)

/-- The oldest result is received, and the loop goes on from it. -/
theorem receive (h : InOrder J P G chans m L) {res : β} (hm : chans m = .ready res) (hlt : m < L)
    (hG : P m res → G m res) :
    InOrder J P G (update chans m (.drained res)) (m + 1) L := by
  have hP : P m res := by
    rcases h.pending m (Nat.le_refl m) hlt with ⟨job, hj, -⟩ | ⟨res', hr, hP⟩
    · rw [hj] at hm
      cases hm
    · rw [hr] at hm
      cases hm
      exact hP
  refine ⟨by omega, ?_, ?_, ?_⟩
  · intro j hj
    by_cases he : j = m
    · subst he
      rw [update_self]
      exact ⟨res, rfl, hG hP⟩
    · rw [update_of_ne he]
      exact h.drained j (by omega)
  · intro j hj1 hj2
    rw [update_of_ne (by omega)]
    exact h.pending j (by omega) hj2
  · intro j hj
    rw [update_of_ne (by omega)]
    exact h.unmade j hj

end InOrder

end Robot.Lib
