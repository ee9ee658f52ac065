import Robot.Lib.Int64
import Robot.Case.QpsController

/-!
# The arithmetic of the refiller

What one tick adds to the bucket is `target * elapsed / 1e9`, where `target` is the rate in millionths
of a token and `elapsed` the time since the last tick in nanoseconds. `QpsController` has these as
integers. Here is the price of the two places where the code computes with less.

* **The products are `int64`.** `refillOf64`, `burstCap64` and `refillTick64` are the step of the
  refiller on wrapped numbers. A wrapped product is below the exact one by at least `2 ^ 64`, far more
  than the division by `1e9` forgives, so the step is exact if and only if neither product wraps
  (`refill_exact_iff`). The product for the burst cap wraps from 184468 QPS on.

* **Each tick rounds down and forgets the rest.** `lastTime` is moved to the tick whatever was added,
  so the rest of the division is lost: `target * gap % 1e9` per tick. A time `T` loses the most when
  it is cut into ticks of one nanosecond, `T * (target % 1e9)` in all (`creditLost_le`), and that
  is less than a token or not (`refill_credit_iff`). The loss of a run is read off the machine's own
  counter of what was added (`added_eq`), and the ticks of one nanosecond are run on the machine with
  enough calls of `Acquire` in between that the cap never cuts (`exists_undisturbed`).
-/

namespace Robot.Case

open Robot.Lib List

/-! ## The step on `int64` -/

/-- `target * elapsed.Nanoseconds() / int64(time.Second)`. -/
def refillOf64 (target elapsed : ℤ) : ℤ := (i64 (target * elapsed)).tdiv second

def burstCap64 (target : ℤ) : ℤ :=
  if (i64 (target * burstWindow)).tdiv second < minBurstTokens then minBurstTokens
  else (i64 (target * burstWindow)).tdiv second

/-- The balance after a tick in which no call of `Acquire` moves it. -/
def refillTick64 (target elapsed tokens : ℤ) : ℤ :=
  if target ≤ 0 then tokens
  else if refillOf64 target elapsed ≤ 0 then tokens
  else
    let cur := i64 (tokens + refillOf64 target elapsed)
    if burstCap64 target < cur then i64 (cur + i64 (-(i64 (cur - burstCap64 target)))) else cur

/-- The quotient of a product that fits. -/
theorem tdiv_second_of_fits {x : ℤ} (h0 : 0 ≤ x) (h : x < 2 ^ 63) :
    (i64 x).tdiv second = x / second := by
  rw [i64_of_lt h0 h, Int.tdiv_eq_ediv_of_nonneg h0]

/-- A product that wraps is too small after the division, too. -/
theorem tdiv_second_lt_of_over {x : ℤ} (h : 2 ^ 63 ≤ x) : (i64 x).tdiv second < x / second := by
  have hle := i64_le_of_over h
  unfold second
  by_cases h0 : 0 ≤ i64 x
  · rw [Int.tdiv_eq_ediv_of_nonneg h0]
    omega
  · have hneg : (i64 x).tdiv 1000000000 ≤ 0 := by
      rw [← Int.neg_neg (i64 x), Int.neg_tdiv, Int.tdiv_eq_ediv_of_nonneg (by omega)]
      omega
    omega

variable {elapsed target : ℤ}

theorem refillOf64_exact_iff (h : 0 ≤ target * elapsed) :
    refillOf64 target elapsed = target * elapsed / second ↔ target * elapsed < 2 ^ 63 := by
  constructor
  · intro heq
    by_contra hover
    exact absurd heq (tdiv_second_lt_of_over (not_lt.mp hover)).ne
  · exact tdiv_second_of_fits h

theorem burstCap64_exact_iff (h : 0 ≤ target) :
    burstCap64 target = max (2 * tokenScale) (target * burstWindow / second) ↔
      target * burstWindow < 2 ^ 63 := by
  have h0 : 0 ≤ target * burstWindow := mul_nonneg h (by unfold burstWindow; omega)
  unfold burstCap64 minBurstTokens
  constructor
  · intro heq
    by_contra hover
    have hlt := tdiv_second_lt_of_over (not_lt.mp hover)
    have hbig : 2 * tokenScale < target * burstWindow / second := by
      unfold tokenScale second
      omega
    rw [max_eq_right hbig.le] at heq
    split at heq
    · exact absurd heq hbig.ne
    · exact absurd heq hlt.ne
  · intro hfits
    rw [tdiv_second_of_fits h0 hfits]
    split
    · next hlt => exact (max_eq_left hlt.le).symm
    · next hle => exact (max_eq_right (not_lt.mp hle)).symm

/-- A cut takes the balance down to the cap. -/
theorem cut_eq {cur cap : ℤ} (hcap : 0 ≤ cap) (hlt : cap < cur) (hcur : cur < 2 ^ 63) :
    i64 (cur + i64 (-(i64 (cur - cap)))) = cap := by
  rw [i64_add_right, i64_of_fits (x := cur - cap) (by omega) (by omega),
    i64_of_fits (by omega) (by omega)]
  omega

/-- What a tick without calls of `Acquire` should do. -/
structure RefillExact (target elapsed tokens : ℤ) : Prop where
  add : refillOf64 target elapsed = target * elapsed / second
  cap : burstCap64 target = max (2 * tokenScale) (target * burstWindow / second)
  tokens : refillTick64 target elapsed tokens ≤ max (2 * tokenScale) (target * burstWindow / second)

/-- **One step of the refiller is exact** if and only if neither of its products reaches `2 ^ 63` and,
in case the tick adds nothing, the balance is not above the cap already. -/
theorem refill_exact_iff {target elapsed : ℤ} (htarget : 0 < target) (helapsed : 0 ≤ elapsed)
    (tokens : ℤ) :
    RefillExact target elapsed tokens ↔
      target * elapsed < 2 ^ 63 ∧ target * burstWindow < 2 ^ 63 ∧
        (target * elapsed < second →
          tokens ≤ max (2 * tokenScale) (target * burstWindow / second)) := by
  have h0 : 0 ≤ target * elapsed := mul_nonneg htarget.le helapsed
  have hskip : target * elapsed < second ↔ target * elapsed / second ≤ 0 := by
    unfold second
    omega
  constructor
  · intro h
    refine ⟨(refillOf64_exact_iff h0).mp h.add, (burstCap64_exact_iff htarget.le).mp h.cap, ?_⟩
    intro hzero
    have htokens := h.tokens
    unfold refillTick64 at htokens
    rwa [if_neg (not_le.mpr htarget), h.add, if_pos (hskip.mp hzero)] at htokens
  · intro h
    obtain ⟨hadd, hcap, hheld⟩ := h
    have hadd := (refillOf64_exact_iff h0).mpr hadd
    have hcap := (burstCap64_exact_iff htarget.le).mpr hcap
    refine ⟨hadd, hcap, ?_⟩
    unfold refillTick64
    rw [if_neg (not_le.mpr htarget), hadd]
    split
    · next hzero => exact hheld (hskip.mpr hzero)
    · dsimp only
      rw [← hcap]
      have hpos : 0 ≤ burstCap64 target := by
        rw [hcap]
        exact (by decide : (0 : ℤ) ≤ 2 * tokenScale).trans (le_max_left _ _)
      split
      · next hlt => exact (cut_eq hpos hlt (i64_lt _)).le
      · next hle => exact not_lt.mp hle

/-- The rate of the benchmarks, `1e8` QPS, on a tick of a millisecond. -/
theorem refill_wraps_at_benchmark_rate : ¬ RefillExact (10 ^ 14) (10 ^ 6) tokenScale :=
  fun h => absurd h.add (by decide)

theorem refill_exact_at_sixty :
    RefillExact (60 * tokenScale) 1000000 tokenScale :=
  (refill_exact_iff (by decide) (by decide) tokenScale).mpr ⟨by decide, by decide, by decide⟩

/-! ## The step on the machine -/

/-- A product that fits is the machine's. -/
theorem refillOf64_eq (h0 : 0 ≤ target * elapsed)
    (h : target * elapsed < 2 ^ 63) : refillOf64 target elapsed = refillOf target elapsed := by
  unfold refillOf64 refillOf
  rw [i64_of_lt h0 h]

theorem burstCap64_eq (h0 : 0 ≤ target * burstWindow)
    (h : target * burstWindow < 2 ^ 63) : burstCap64 target = burstCap target := by
  unfold burstCap64 burstCap
  rw [i64_of_lt h0 h]

namespace QPSController

/-- A tick that adds nothing. -/
theorem run_tick_idle {q : QPSController} {elapsed : ℤ} (hsel : q.refiller = .selecting)
    (h : q.targetQPS ≤ 0 ∨ refillOf q.targetQPS elapsed ≤ 0) :
    run QPSController.step q [.tick elapsed, .refill] = some q := by
  have hback : { q with refiller := .selecting } = q := by rw [← hsel]
  refine run_cons.mpr ⟨{ q with refiller := .loading elapsed }, if_pos hsel,
    run_cons.mpr ⟨q, ?_, rfl⟩⟩
  dsimp only [step, refillStep]
  rw [hback]
  split
  · rfl
  · next hpos => rw [if_pos (h.resolve_left hpos)]

/-- The controller after a tick that adds `add`, if nothing else happens. -/
def refilled (q : QPSController) (add : ℤ) : QPSController :=
  let cut := if burstCap q.targetQPS < q.tokens + add then q.tokens + add - burstCap q.targetQPS else 0
  { q.broadcast with
    tokens := q.tokens + add - cut
    added := q.added + add
    clamped := q.clamped + cut }

theorem run_tick {q : QPSController} {elapsed : ℤ} (hsel : q.refiller = .selecting)
    (htarget : 0 < q.targetQPS) (hadd : 0 < refillOf q.targetQPS elapsed) :
    run QPSController.step q [.tick elapsed, .refill, .refill, .refill, .refill] =
      some (q.refilled (refillOf q.targetQPS elapsed)) := by
  refine run_cons.mpr ⟨{ q with refiller := .loading elapsed }, if_pos hsel, ?_⟩
  refine run_cons.mpr
    ⟨{ q with refiller := .adding q.targetQPS (refillOf q.targetQPS elapsed) }, ?_, ?_⟩
  · dsimp only [step, refillStep]
    rw [if_neg (not_le.mpr htarget), if_neg (not_le.mpr hadd)]
  refine run_cons.mpr ⟨_, rfl, run_cons.mpr ⟨{ q with
      tokens := (q.refilled (refillOf q.targetQPS elapsed)).tokens
      added := q.added + refillOf q.targetQPS elapsed
      clamped := (q.refilled (refillOf q.targetQPS elapsed)).clamped
      refiller := .broadcasting }, ?_, run_cons.mpr ⟨_, rfl, ?_⟩⟩⟩
  · dsimp only [step, refillStep, refilled]
    split
    · rfl
    · rw [sub_zero, add_zero]
  · rw [run_nil]
    unfold refilled broadcast
    rw [← hsel]

end QPSController

open QPSController

/-- **The step on `int64` is the machine's** where nothing wraps. -/
theorem refillTick64_eq {q : QPSController} (htarget : 0 < q.targetQPS)
    (helapsed : 0 ≤ elapsed) (hadd : q.targetQPS * elapsed < 2 ^ 63)
    (hcap : q.targetQPS * burstWindow < 2 ^ 63)
    (hsum : q.tokens + refillOf q.targetQPS elapsed < 2 ^ 63) (hheld : -2 ^ 63 ≤ q.tokens)
    (hpos : 0 < refillOf q.targetQPS elapsed) :
    refillTick64 q.targetQPS elapsed q.tokens = (q.refilled (refillOf q.targetQPS elapsed)).tokens := by
  have hcap0 : 0 ≤ q.targetQPS * burstWindow := mul_nonneg htarget.le (by decide)
  have hburst : 0 ≤ burstCap q.targetQPS := by
    unfold burstCap
    split
    · decide
    · next h => exact (by decide : 0 ≤ minBurstTokens).trans (not_lt.mp h)
  unfold refillTick64 refilled
  rw [refillOf64_eq (mul_nonneg htarget.le helapsed) hadd, burstCap64_eq hcap0 hcap,
    if_neg (not_le.mpr htarget), if_neg (not_le.mpr hpos), i64_of_fits (by omega) hsum]
  dsimp only
  split
  · next hlt => rw [cut_eq hburst hlt hsum, sub_sub_cancel]
  · rw [sub_zero]

/-- **A tick of the machine leaves the tokens that the code computes on `int64`** where nothing wraps,
if no call comes between its steps. -/
theorem tick_run_int64 {q : QPSController} (hsel : q.refiller = .selecting) (htarget : 0 < q.targetQPS)
    (helapsed : 0 ≤ elapsed) (hadd : q.targetQPS * elapsed < 2 ^ 63)
    (hcap : q.targetQPS * burstWindow < 2 ^ 63)
    (hsum : q.tokens + refillOf q.targetQPS elapsed < 2 ^ 63) (hheld : -2 ^ 63 ≤ q.tokens)
    (hpos : 0 < refillOf q.targetQPS elapsed) :
    ∃ q', run QPSController.step q [.tick elapsed, .refill, .refill, .refill, .refill] = some q' ∧
      q'.tokens = refillTick64 q.targetQPS elapsed q.tokens :=
  ⟨_, run_tick hsel htarget hpos, (refillTick64_eq htarget helapsed hadd hcap hsum hheld hpos).symm⟩

/-! ## The credit of many ticks -/

/-- The time since the last tick, at a tick. -/
def QpsAction.gap : QpsAction → Option ℤ
  | .tick elapsed => some elapsed
  | _ => none

def tickGaps (as : List QpsAction) : List ℤ := as.filterMap QpsAction.gap

theorem tickGaps_append (as bs : List QpsAction) : tickGaps (as ++ bs) = tickGaps as ++ tickGaps bs :=
  filterMap_append

/-- The action leaves the rate alone. -/
def QpsAction.KeepsTarget (a : QpsAction) : Prop := ∀ target, a ≠ .setQPS target

/-- What a tick gets to add. -/
def creditOf (target gap : ℤ) : ℤ := max 0 (refillOf target gap)

namespace QPSController

/-- What the refiller has computed and not added yet. -/
def owed (q : QPSController) : ℤ :=
  match q.refiller with
  | .loading elapsed => creditOf q.targetQPS elapsed
  | .adding _ add => add
  | _ => 0

/-- The controller after the actions `as`, at a constant rate. -/
structure Credited (target : ℤ) (as : List QpsAction) (q : QPSController) : Prop where
  rate : q.targetQPS = target
  added : q.added + q.owed = ((tickGaps as).map (creditOf target)).sum

variable {q : QPSController}

/-- The refiller adds what it owes. -/
theorem refillStep_credited {q' : QPSController} (htarget : 0 < q.targetQPS)
    (h : q.refillStep q.refiller = some q') : q'.added + q'.owed = q.added + q.owed := by
  cases hpc : q.refiller with
  | loading elapsed =>
    have howed : q.owed = creditOf q.targetQPS elapsed := by
      unfold owed
      rw [hpc]
    rw [hpc] at h
    dsimp only [refillStep] at h
    rw [if_neg (not_le.mpr htarget)] at h
    split at h
    · next hzero =>
      cases h
      rw [howed, creditOf, max_eq_left hzero]
      rfl
    · next hpos =>
      cases h
      rw [howed, creditOf, max_eq_right (not_le.mp hpos).le]
      rfl
  | adding target add =>
    have howed : q.owed = add := by
      unfold owed
      rw [hpc]
    rw [hpc] at h
    cases h
    rw [howed]
    exact add_zero _
  | clamping target cur =>
    have howed : q.owed = 0 := by
      unfold owed
      rw [hpc]
    rw [hpc] at h
    dsimp only [refillStep] at h
    rw [howed]
    split at h <;> cases h <;> rfl
  | broadcasting | stopping =>
    have howed : q.owed = 0 := by
      unfold owed
      rw [hpc]
    rw [hpc] at h
    cases h
    rw [howed]
    rfl
  | selecting | exited =>
    rw [hpc] at h
    cases h

theorem owed_of_selecting (h : q.refiller = .selecting) : q.owed = 0 := by
  unfold owed
  rw [h]

/-- **One action** at a constant rate. -/
theorem Credited.step {target : ℤ} {as : List QpsAction} {q' : QPSController} {a : QpsAction}
    (htarget : 0 < target) (h : Credited target as q) (hkeeps : a.KeepsTarget)
    (hstep : q.step a = some q') : Credited target (as ++ [a]) q' := by
  have hgaps : a.gap = none → tickGaps (as ++ [a]) = tickGaps as := by
    intro hnone
    rw [tickGaps_append, tickGaps, tickGaps, filterMap_cons_none hnone, filterMap_nil,
      append_nil]
  cases a with
  | acquire | stop =>
    cases hstep
    exact ⟨h.rate, by rw [hgaps rfl]; exact h.added⟩
  | advance i =>
    obtain ⟨pc, -, hacquire⟩ := Option.bind_eq_some_iff.mp hstep
    obtain ⟨tokens, mu, pc', rfl, -⟩ := acquireStep_frame hacquire
    exact ⟨h.rate, by rw [hgaps rfl]; exact h.added⟩
  | tick elapsed =>
    dsimp only [QPSController.step] at hstep
    split at hstep
    · next hsel =>
      cases hstep
      refine ⟨h.rate, ?_⟩
      have hadded := h.added
      rw [owed_of_selecting hsel, add_zero] at hadded
      rw [tickGaps_append, map_append, sum_append]
      show q.added + creditOf q.targetQPS elapsed = _
      rw [h.rate, hadded]
      exact congrArg _ (sum_singleton).symm
    · cases hstep
  | seeStop =>
    dsimp only [QPSController.step] at hstep
    split at hstep
    · next hsel =>
      cases hstep
      refine ⟨h.rate, ?_⟩
      rw [hgaps rfl, ← h.added, owed_of_selecting hsel.1]
      rfl
    · cases hstep
  | refill =>
    refine ⟨(refillStep_frame hstep).target.trans h.rate, ?_⟩
    rw [hgaps rfl, ← h.added]
    exact refillStep_credited (by rw [h.rate]; exact htarget) hstep
  | setQPS t => exact absurd rfl (hkeeps t)

/-- **What the refiller has added** at a constant rate, between two ticks. -/
theorem added_eq {target : ℤ} (htarget : 0 < target) {as : List QpsAction}
    (hrun : run step (newQPSController target) as = some q)
    (hkeeps : ∀ a ∈ as, a.KeepsTarget) (hsel : q.refiller = .selecting) :
    q.added = ((tickGaps as).map (creditOf target)).sum := by
  have hinit : Credited target [] (newQPSController target) := ⟨rfl, rfl⟩
  have h := run_inv_history (P := fun _ a => QpsAction.KeepsTarget a)
    (fun _ _ _ _ h hk hs => h.step htarget hk hs) as [] hinit
    (along_of_forall as _ fun a ha _ => hkeeps a ha) hrun
  rw [nil_append] at h
  rw [← h.added, owed_of_selecting hsel, add_zero]

end QPSController

/-! ## What rounding loses -/

theorem creditOf_eq {gap : ℤ} (htarget : 0 < target) (hgap : 0 ≤ gap) :
    creditOf target gap = target * gap / second := by
  have h0 : 0 ≤ target * gap := mul_nonneg htarget.le hgap
  unfold creditOf refillOf
  rw [Int.tdiv_eq_ediv_of_nonneg h0, max_eq_right (Int.ediv_nonneg h0 (by decide))]

/-- The rests of the divisions, in parts of `1e9`. -/
def creditLost (target : ℤ) (gaps : List ℤ) : ℤ := (gaps.map fun gap => target * gap % second).sum

/-- Added and lost make up the time. -/
theorem credit_add_lost (htarget : 0 < target) :
    ∀ {gaps : List ℤ}, (∀ gap ∈ gaps, 0 ≤ gap) →
      second * (gaps.map (creditOf target)).sum + creditLost target gaps = target * gaps.sum := by
  intro gaps
  induction gaps with
  | nil => intro _; simp [creditLost]
  | cons gap gaps ih =>
    intro h
    have htail := ih fun g hg => h g (mem_cons_of_mem _ hg)
    have hhead := Int.mul_ediv_add_emod (target * gap) second
    unfold creditLost at htail ⊢
    rw [map_cons, map_cons, sum_cons, sum_cons, sum_cons,
      creditOf_eq htarget (h gap mem_cons_self)]
    linarith

theorem creditLost_nonneg (target : ℤ) (gaps : List ℤ) : 0 ≤ creditLost target gaps := by
  refine sum_nonneg fun x hx => ?_
  obtain ⟨gap, -, rfl⟩ := mem_map.mp hx
  exact Int.emod_nonneg _ (by decide)

/-- One tick loses no more than its nanoseconds would one by one. -/
theorem emod_mul_le (target : ℤ) {gap : ℤ} (hgap : 0 ≤ gap) :
    target * gap % second ≤ target % second * gap := by
  have h0 : 0 ≤ target % second := Int.emod_nonneg _ (by decide)
  have hmod : target * gap % second = target % second * gap % second :=
    ((Int.mod_modEq target second).mul_right gap).symm
  have hpos : 0 ≤ target % second * gap := mul_nonneg h0 hgap
  have hdiv : 0 ≤ target % second * gap / second := Int.ediv_nonneg hpos (by decide)
  have hsplit := Int.mul_ediv_add_emod (target % second * gap) second
  rw [hmod]
  linarith [mul_nonneg (by decide : (0 : ℤ) ≤ second) hdiv]

/-- **A time loses the most** nanosecond by nanosecond. -/
theorem creditLost_le (target : ℤ) : ∀ {gaps : List ℤ}, (∀ gap ∈ gaps, 0 ≤ gap) →
    creditLost target gaps ≤ target % second * gaps.sum := by
  intro gaps
  induction gaps with
  | nil => intro _; exact le_of_eq (mul_zero _).symm
  | cons gap gaps ih =>
    intro h
    have htail := ih fun g hg => h g (mem_cons_of_mem _ hg)
    have hhead := emod_mul_le target (h gap mem_cons_self)
    unfold creditLost at htail ⊢
    rw [map_cons, sum_cons, sum_cons, mul_add]
    exact add_le_add hhead htail

/-! ## Ticks of one nanosecond, without a cut -/

namespace QPSController

/-- The latest call of `Acquire` is at `pc`. -/
def withCall (q : QPSController) (tokens : ℤ) (pc : AcquirePc) : QPSController :=
  { q with tokens := tokens, calls := q.calls ++ [pc] }

theorem withCall_goto (q : QPSController) (tokens : ℤ) (pc pc' : AcquirePc) :
    (q.withCall tokens pc).goto q.calls.length pc' = q.withCall tokens pc' := by
  unfold withCall goto
  simp

theorem withCall_advance (q : QPSController) (tokens : ℤ) (pc : AcquirePc) :
    (q.withCall tokens pc).step (.advance q.calls.length) =
      (q.withCall tokens pc).acquireStep q.calls.length pc := by
  show ((q.calls ++ [pc])[q.calls.length]?).bind _ = _
  rw [List.getElem?_concat_length]
  rfl

variable {q : QPSController} {target : ℤ} {n : ℕ}

/-- A call of `Acquire` that finds a token. -/
theorem run_acquire (htarget : 0 < q.targetQPS) (h : tokenScale ≤ q.tokens) :
    run step q
        [.acquire, .advance q.calls.length, .advance q.calls.length, .advance q.calls.length] =
      some (q.withCall (q.tokens - tokenScale) .returned) := by
  refine run_cons.mpr ⟨q.withCall q.tokens .entered, rfl, ?_⟩
  refine run_cons.mpr ⟨q.withCall q.tokens .subtracting, ?_, ?_⟩
  · rw [withCall_advance]
    dsimp only [acquireStep]
    rw [withCall_goto, show (q.withCall q.tokens .entered).targetQPS = q.targetQPS from rfl,
      if_neg (not_le.mpr htarget)]
  refine run_cons.mpr
    ⟨q.withCall (q.tokens - tokenScale) (.testing (q.tokens - tokenScale)), ?_, ?_⟩
  · rw [withCall_advance]
    exact congrArg some (withCall_goto q (q.tokens - tokenScale) .subtracting _)
  refine run_cons.mpr ⟨_, ?_, run_nil _ _⟩
  rw [withCall_advance]
  dsimp only [acquireStep]
  rw [withCall_goto, if_pos (sub_nonneg.mpr h)]

/-- The controller between two ticks, after `n` ticks of one nanosecond and no cut. -/
structure Undisturbed (target : ℤ) (n : ℕ) (as : List QpsAction) (q : QPSController) : Prop where
  run : run QPSController.step (newQPSController target) as = some q
  keeps : ∀ a ∈ as, a.KeepsTarget
  gaps : tickGaps as = List.replicate n 1
  selecting : q.refiller = .selecting
  rate : q.targetQPS = target
  uncut : q.clamped = 0
  nonneg : 0 ≤ q.tokens

/-- One more call of `Acquire`. -/
theorem Undisturbed.acquire (htarget : 0 < target) {as : List QpsAction}
     (h : Undisturbed target n as q) (hmore : tokenScale ≤ q.tokens) :
    ∃ as', Undisturbed target n as' (q.withCall (q.tokens - tokenScale) .returned) := by
  have hcall := run_acquire (by rw [h.rate]; exact htarget) hmore
  refine ⟨_, run_append.mpr ⟨q, h.run, hcall⟩, ?_, ?_, h.selecting, h.rate, h.uncut,
    sub_nonneg.mpr hmore⟩
  · intro a ha
    rcases mem_append.mp ha with ha | ha
    · exact h.keeps a ha
    · simp only [mem_cons, not_mem_nil, or_false] at ha
      rcases ha with rfl | rfl | rfl | rfl <;> exact nofun
  · rw [tickGaps_append, h.gaps]
    exact append_nil _

/-- Calls of `Acquire` take the balance below one token. -/
theorem Undisturbed.drain (htarget : 0 < target) :
    ∀ (k : ℕ) {as : List QpsAction} {q : QPSController}, Undisturbed target n as q →
      q.tokens < tokenScale * (k + 1) →
        ∃ as' q', Undisturbed target n as' q' ∧ q'.tokens < tokenScale := by
  intro k
  induction k with
  | zero =>
    intro as q h hlt
    exact ⟨as, q, h, by rwa [Nat.cast_zero, zero_add, mul_one] at hlt⟩
  | succ k ih =>
    intro as q h hlt
    by_cases hmore : tokenScale ≤ q.tokens
    · obtain ⟨as', h'⟩ := h.acquire htarget hmore
      refine ih h' ?_
      show q.tokens - tokenScale < _
      push_cast at hlt
      linarith
    · exact ⟨as, q, h, not_le.mp hmore⟩

/-- The credit of a nanosecond fits under the cap, on top of less than a token. -/
theorem refillOf_one_le (h : 0 < target) :
    refillOf target 1 + tokenScale ≤ burstCap target := by
  have hcap : 0 ≤ target * burstWindow := mul_nonneg h.le (by decide)
  unfold refillOf burstCap minBurstTokens
  rw [mul_one, Int.tdiv_eq_ediv_of_nonneg h.le, Int.tdiv_eq_ediv_of_nonneg hcap]
  unfold second tokenScale burstWindow
  split <;> omega

/-- One more tick. -/
theorem Undisturbed.tick (htarget : 0 < target) {as : List QpsAction}
     (h : Undisturbed target n as q) (hlow : q.tokens < tokenScale) :
    ∃ as' q', Undisturbed target (n + 1) as' q' := by
  have hgaps : ∀ rest : List QpsAction, tickGaps rest = [] →
      tickGaps (as ++ .tick 1 :: rest) = List.replicate (n + 1) 1 := by
    intro rest hrest
    have hcons : tickGaps (.tick 1 :: rest) = 1 :: tickGaps rest := rfl
    rw [tickGaps_append, h.gaps, hcons, hrest, replicate_succ']
  have hkeeps : ∀ rest : List QpsAction, (∀ a ∈ rest, a = .refill) →
      ∀ a ∈ as ++ .tick 1 :: rest, a.KeepsTarget := by
    intro rest hrest a ha
    rcases mem_append.mp ha with ha | ha
    · exact h.keeps a ha
    · rcases mem_cons.mp ha with rfl | ha
      · exact nofun
      · rw [hrest a ha]
        exact nofun
  by_cases hadd : 0 < refillOf q.targetQPS 1
  · have hrun := run_tick h.selecting (by rw [h.rate]; exact htarget) hadd
    have hfits : ¬ burstCap q.targetQPS < q.tokens + refillOf q.targetQPS 1 := by
      have hroom : refillOf q.targetQPS 1 + tokenScale ≤ burstCap q.targetQPS :=
        refillOf_one_le (by rw [h.rate]; exact htarget)
      omega
    refine ⟨_, _, run_append.mpr ⟨q, h.run, hrun⟩, hkeeps _ ?_, hgaps _ rfl, h.selecting, h.rate,
      ?_, ?_⟩
    · intro a ha
      simpa using ha
    · show q.clamped + (if _ then _ else _) = 0
      rw [if_neg hfits, h.uncut]
      rfl
    · show 0 ≤ q.tokens + refillOf q.targetQPS 1 - (if _ then _ else _)
      rw [if_neg hfits]
      have := h.nonneg
      omega
  · exact ⟨_, q, run_append.mpr ⟨q, h.run, run_tick_idle h.selecting (.inr (not_lt.mp hadd))⟩,
      hkeeps _ (by simp), hgaps _ rfl, h.selecting, h.rate, h.uncut, h.nonneg⟩

/-- **Every number of nanoseconds** can be ticked through one by one without a cut. -/
theorem exists_undisturbed (htarget : 0 < target) (n : ℕ) :
    ∃ as q, Undisturbed target n as q := by
  induction n with
  | zero =>
    have hfull : (0 : ℤ) ≤ tokenScale := by decide
    exact ⟨[], newQPSController target, rfl, nofun, rfl, rfl, rfl, rfl, hfull⟩
  | succ n ih =>
    obtain ⟨as, q, h⟩ := ih
    have hbound : q.tokens < tokenScale * (q.tokens.toNat + 1) := by
      rw [Int.toNat_of_nonneg h.nonneg]
      unfold tokenScale
      have := h.nonneg
      omega
    obtain ⟨as', q', h', hlow⟩ := Undisturbed.drain htarget q.tokens.toNat h hbound
    exact h'.tick htarget hlow

end QPSController

/-- The runs at a constant rate in which `T` nanoseconds pass and nothing is cut. -/
structure Accrues (target T : ℤ) (as : List QpsAction) (q : QPSController) : Prop where
  run : run QPSController.step (newQPSController target) as = some q
  keeps : ∀ a ∈ as, a.KeepsTarget
  forward : ∀ gap ∈ tickGaps as, 0 ≤ gap
  total : (tickGaps as).sum = T
  selecting : q.refiller = .selecting
  uncut : q.clamped = 0

/-- **Credit follows continuous time**, to less than a token and however the time is cut into ticks,
if and only if the nanoseconds alone do not lose one: `T * (target % 1e9) < 1e15`. -/
theorem refill_credit_iff {target T : ℤ} (htarget : 0 < target) (hT : 0 ≤ T) :
    (∀ as q, Accrues target T as q → |second * q.added - target * T| < second * tokenScale) ↔
      T * (target % second) < second * tokenScale := by
  constructor
  · intro h
    obtain ⟨as, q, hq⟩ := exists_undisturbed htarget T.toNat
    have htotal : (tickGaps as).sum = T := by
      rw [hq.gaps, sum_replicate, nsmul_eq_mul, mul_one, Int.toNat_of_nonneg hT]
    have hnonneg : ∀ gap ∈ tickGaps as, 0 ≤ gap := by
      intro gap hgap
      rw [hq.gaps] at hgap
      rw [(mem_replicate.mp hgap).2]
      decide
    have hclose := h as q ⟨hq.run, hq.keeps, hnonneg, htotal, hq.selecting, hq.uncut⟩
    have hall := credit_add_lost htarget hnonneg
    have hlost : creditLost target (tickGaps as) = T * (target % second) := by
      unfold creditLost
      rw [hq.gaps, map_replicate, sum_replicate, nsmul_eq_mul, mul_one,
        Int.toNat_of_nonneg hT]
    rw [← added_eq htarget hq.run hq.keeps hq.selecting, hlost, htotal] at hall
    have hgap := neg_lt_of_abs_lt hclose
    linarith
  · intro h as q hq
    have hall := credit_add_lost htarget hq.forward
    have hle := creditLost_le target hq.forward
    have hnn := creditLost_nonneg target (tickGaps as)
    rw [← added_eq htarget hq.run hq.keeps hq.selecting, hq.total] at hall
    rw [hq.total, mul_comm] at hle
    rw [abs_lt]
    constructor <;> linarith [mul_nonneg (by decide : (0 : ℤ) ≤ second) (by decide : (0 : ℤ) ≤ tokenScale)]

/-- A thousand tokens a second accrue exactly. -/
theorem thousand_accrue_exactly :
    (0 < 1000 * tokenScale ∧ 0 ≤ second) ∧ ∀ as q, Accrues (1000 * tokenScale) second as q →
      |second * q.added - 1000 * tokenScale * second| < second * tokenScale :=
  ⟨by decide, (refill_credit_iff (by decide) (by decide)).mpr (by decide)⟩

/-- Ticks that add nothing. -/
def idleTicks (n : ℕ) (gap : ℤ) : List QpsAction := (List.replicate n [.tick gap, .refill]).flatten

theorem idleTicks_succ (n : ℕ) (gap : ℤ) :
    idleTicks (n + 1) gap = [.tick gap, .refill] ++ idleTicks n gap := rfl

theorem run_idleTicks {q : QPSController} {gap : ℤ} (hsel : q.refiller = .selecting)
    (h : refillOf q.targetQPS gap ≤ 0) (n : ℕ) :
    run step q (idleTicks n gap) = some q := by
  induction n with
  | zero => rfl
  | succ n ih =>
    rw [idleTicks_succ]
    exact run_append.mpr ⟨q, run_tick_idle hsel (.inr h), ih⟩

theorem tickGaps_idleTicks (n : ℕ) (gap : ℤ) : tickGaps (idleTicks n gap) = List.replicate n gap := by
  induction n with
  | zero => rfl
  | succ n ih =>
    rw [idleTicks_succ, tickGaps_append, ih]
    rfl

theorem mem_idleTicks {n : ℕ} {gap : ℤ} {a : QpsAction} (h : a ∈ idleTicks n gap) :
    a = .tick gap ∨ a = .refill := by
  obtain ⟨l, hl, ha⟩ := mem_flatten.mp h
  rw [(mem_replicate.mp hl).2] at ha
  simpa using ha

/-- At a token every 1001 seconds, ticks of a millisecond add nothing for 1001 seconds and more. -/
theorem slow_rate_never_accrues :
    ∃ as q, Accrues 999 (1001002 * 1000000) as q ∧
      ¬ |second * q.added - 999 * (1001002 * 1000000)| < second * tokenScale := by
  refine ⟨idleTicks 1001002 1000000, newQPSController 999,
    ⟨run_idleTicks rfl (by decide) _, ?_, ?_, ?_, rfl, rfl⟩, by decide⟩
  · intro a ha
    rcases mem_idleTicks ha with rfl | rfl <;> exact nofun
  · intro gap hgap
    rw [tickGaps_idleTicks] at hgap
    rw [(mem_replicate.mp hgap).2]
    decide
  · rw [tickGaps_idleTicks, sum_replicate, nsmul_eq_mul]
    norm_num

end Robot.Case
