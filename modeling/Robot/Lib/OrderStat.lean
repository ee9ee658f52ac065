import Mathlib

/-!
# Order statistics

`sorted[k]` of a sorted copy of a slice. What a median is good for is said by counting: the
element at place `k` is at most `x` if and only if more than `k` elements are
(`sortedAt_le_iff`), and the one in the middle lies in every interval that has the majority
(`sortedAt_majority`).

The second half is about minima and maxima kept in a loop, where `-1` stands for a minimum that
is not set yet. Over values that are not negative the loop computes the minimum, and leaving out
the zeros makes a difference exactly when there are zeros and other values
(`min_eq_min_pos_iff`).
-/

namespace Robot.Lib

open List

variable {α : Type} [LinearOrder α]

/-- `sorted[k]`, of a sorted copy; `d` if there is no such place. -/
def sortedAt (l : List α) (k : ℕ) (d : α) : α := (l.insertionSort (· ≤ ·)).getD k d

/-- In a sorted list, the elements of a lower set come first. -/
theorem getD_lower_iff {Q : α → Bool} {d : α} (hQ : ∀ x y, x ≤ y → Q y = true → Q x = true) :
    ∀ {l : List α} {k : ℕ}, l.Pairwise (· ≤ ·) → k < l.length →
      (Q (l.getD k d) = true ↔ k < l.countP Q) := by
  intro l
  induction l with
  | nil =>
    intro k _ hk
    exact absurd hk (Nat.not_lt_zero k)
  | cons a l ih =>
    intro k hl hk
    obtain ⟨ha, hl⟩ := pairwise_cons.mp hl
    by_cases hax : Q a = true
    · rw [countP_cons_of_pos hax]
      cases k with
      | zero => exact ⟨fun _ => Nat.succ_pos _, fun _ => hax⟩
      | succ k =>
        rw [getD_cons_succ, ih hl (Nat.lt_of_succ_lt_succ hk)]
        exact Nat.succ_lt_succ_iff.symm
    · -- the first one is outside, and so are all the others
      have hnone : l.countP Q = 0 :=
        countP_eq_zero.mpr fun y hy hyx => hax (hQ a y (ha y hy) hyx)
      rw [countP_cons_of_neg hax, hnone]
      cases k with
      | zero => exact ⟨fun h => absurd h hax, fun h => absurd h (Nat.not_lt_zero _)⟩
      | succ k =>
        rw [getD_cons_succ, ih hl (Nat.lt_of_succ_lt_succ hk), hnone]
        exact ⟨fun h => absurd h (Nat.not_lt_zero _), fun h => absurd h (Nat.not_lt_zero _)⟩

/-- **The order statistic, by counting.** -/
theorem sortedAt_lower_iff {Q : α → Bool} {l : List α} {k : ℕ} {d : α}
    (hQ : ∀ x y, x ≤ y → Q y = true → Q x = true) (hk : k < l.length) :
    Q (sortedAt l k d) = true ↔ k < l.countP Q := by
  unfold sortedAt
  rw [getD_lower_iff hQ (pairwise_insertionSort (· ≤ ·) l)
    (by rwa [length_insertionSort]), (perm_insertionSort (· ≤ ·) l).countP_eq]

theorem sortedAt_le_iff {l : List α} {k : ℕ} {x d : α} (hk : k < l.length) :
    sortedAt l k d ≤ x ↔ k < l.countP fun y => decide (y ≤ x) := by
  rw [← sortedAt_lower_iff (d := d) (fun y z hyz hz => decide_eq_true
    (hyz.trans (of_decide_eq_true hz))) hk, decide_eq_true_eq]

theorem sortedAt_lt_iff {l : List α} {k : ℕ} {x d : α} (hk : k < l.length) :
    sortedAt l k d < x ↔ k < l.countP fun y => decide (y < x) := by
  rw [← sortedAt_lower_iff (d := d) (fun y z hyz hz => decide_eq_true
    (hyz.trans_lt (of_decide_eq_true hz))) hk, decide_eq_true_eq]

/-- Two properties that together have more places than there are meet somewhere. -/
theorem exists_of_length_lt {β : Type} {p q : β → Bool} {l : List β}
    (h : l.length < l.countP p + l.countP q) : ∃ y ∈ l, p y = true ∧ q y = true := by
  by_contra hno
  have hle : l.countP p ≤ l.countP fun y => !q y := by
    refine countP_mono_left fun y hy hp => ?_
    cases hq : q y with
    | false => rfl
    | true => exact absurd ⟨y, hy, hp, hq⟩ hno
  have hsplit := length_eq_countP_add_countP (p := q) (l := l)
  simp only [Bool.not_eq_true, Bool.decide_eq_false] at hsplit
  omega

/-- **The middle goes with the majority**: where more than half of a list lies in a convex set, so
does its middle. -/
theorem sortedAt_majority {P : α → Bool} {l : List α} (d : α)
    (hP : ∀ x y z, x ≤ y → y ≤ z → P x = true → P z = true → P y = true)
    (h : l.length < 2 * l.countP P) : P (sortedAt l (l.length / 2) d) = true := by
  have hcount : l.countP P ≤ l.length := countP_le_length
  have hmid : l.length / 2 < l.length := by omega
  -- some of the majority lie at or below the middle
  have hbelow := (sortedAt_le_iff (d := d) hmid).mp le_rfl
  obtain ⟨x, -, hx, hPx⟩ := exists_of_length_lt (l := l) (q := P)
    (p := fun y => decide (y ≤ sortedAt l (l.length / 2) d)) (by omega)
  -- and some at or above it
  have habove := mt (sortedAt_lt_iff (d := d) hmid).mpr (lt_irrefl _)
  have hsplit := length_eq_countP_add_countP (l := l)
    (p := fun y => decide (y < sortedAt l (l.length / 2) d))
  obtain ⟨z, -, hz, hPz⟩ := exists_of_length_lt (l := l) (q := P)
    (p := fun y => decide (¬ decide (y < sortedAt l (l.length / 2) d) = true)) (by omega)
  simp only [decide_eq_true_eq, not_lt] at hx hz
  exact hP x _ z hx hz hPx hPz

/-! ## Running minimum and maximum -/

/-- `if m < 0 || v < m { m = v }`, from an unset `-1`. -/
def runningMin (l : List Int) : Int := l.foldl (fun m v => if m < 0 ∨ v < m then v else m) (-1)

/-- `if v > m { m = v }`, from zero. -/
def runningMax (l : List Int) : Int := l.foldl (fun m v => if v > m then v else m) 0

/-- The loop, once a value is set. -/
theorem foldl_runningMin : ∀ (l : List Int) (m : Int), 0 ≤ m → (∀ v ∈ l, 0 ≤ v) →
    l.foldl (fun m v => if m < 0 ∨ v < m then v else m) m = l.foldl min m := by
  intro l
  induction l with
  | nil => intro m _ _; rfl
  | cons v l ih =>
    intro m hm hl
    have hv := hl v mem_cons_self
    have hstep : (if m < 0 ∨ v < m then v else m) = min m v := by
      split
      · omega
      · omega
    rw [foldl_cons, foldl_cons, hstep]
    exact ih (min m v) (by omega) fun w hw => hl w (mem_cons_of_mem _ hw)

/-- **The loop computes the minimum**, with zero for no value. -/
theorem runningMin_eq {l : List Int} (h : ∀ v ∈ l, 0 ≤ v) :
    (if runningMin l < 0 then 0 else runningMin l) = l.min?.getD 0 := by
  cases l with
  | nil => rfl
  | cons v l =>
    have hv := h v mem_cons_self
    have hloop : runningMin (v :: l) = l.foldl min v :=
      foldl_runningMin l v hv fun w hw => h w (mem_cons_of_mem _ hw)
    have hmin : (v :: l).min? = some (l.foldl min v) := List.min?_cons'
    have hnn : 0 ≤ l.foldl min v := h _ (List.min?_mem hmin)
    rw [hloop, hmin, if_neg (by omega)]
    rfl

theorem min?_perm {l l' : List Int} (h : l'.Perm l) : l'.min? = l.min? := by
  cases hm : l.min? with
  | none =>
    rw [List.min?_eq_none_iff] at hm ⊢
    exact (hm ▸ h).eq_nil
  | some m =>
    rw [List.min?_eq_some_iff] at hm ⊢
    exact ⟨h.mem_iff.mpr hm.1, fun v hv => hm.2 v (h.mem_iff.mp hv)⟩

/-- **The minimum and the least positive value** agree if and only if a zero is not alone with
other values. -/
theorem min_eq_min_pos_iff {l l' : List Int} (hperm : l'.Perm l) (hnn : ∀ v ∈ l, 0 ≤ v) :
    l.min?.getD 0 = (l'.filter fun v => 0 < v).min?.getD 0 ↔ (0 ∈ l → ∀ v ∈ l, v = 0) := by
  constructor
  · intro heq hzero v hv
    by_contra hne
    -- the minimum is zero, the least positive value is not
    have hmin : l.min? = some 0 := List.min?_eq_some_iff.mpr ⟨hzero, hnn⟩
    have hpos : v ∈ l'.filter fun v => 0 < v := by
      have := hnn v hv
      exact mem_filter.mpr ⟨hperm.mem_iff.mpr hv, decide_eq_true (by omega)⟩
    obtain ⟨w, hw⟩ := Option.isSome_iff_exists.mp (isSome_min?_of_mem hpos)
    have hwpos := of_decide_eq_true (mem_filter.mp (List.min?_mem hw)).2
    rw [hmin, hw] at heq
    exact absurd (show (0 : Int) = w from heq) (by omega)
  · intro h
    by_cases hzero : 0 ∈ l
    · have hmin : l.min? = some 0 := List.min?_eq_some_iff.mpr ⟨hzero, hnn⟩
      have hnone : l'.filter (fun v => 0 < v) = [] := by
        refine filter_eq_nil_iff.mpr fun v hv => ?_
        rw [h hzero v (hperm.mem_iff.mp hv)]
        decide
      rw [hmin, hnone]
      rfl
    · have hall : l'.filter (fun v => 0 < v) = l' := by
        refine filter_eq_self.mpr fun v hv => decide_eq_true ?_
        have hv' := hperm.mem_iff.mp hv
        have hne : v ≠ 0 := fun he => hzero (he ▸ hv')
        have := hnn v hv'
        omega
      rw [hall, min?_perm hperm]

/-- The loop for the maximum does not depend on the order. -/
theorem runningMax_perm {l l' : List Int} (h : l'.Perm l) : runningMax l' = runningMax l := by
  have hmax : (fun m v : Int => if v > m then v else m) = max := by
    funext m v
    split
    · omega
    · omega
  unfold runningMax
  rw [hmax]
  exact h.foldl_eq 0

end Robot.Lib
