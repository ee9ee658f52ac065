import Robot.Mode.Balance

/-!
# When the split is a partition, keeps the rate, and keeps its place

Three questions about the tasks `distributeSingleCase` enqueues in balance mode, each
answered exactly, for every `int64` range and every number of agents.

* **Do the shares partition the accounts?** (`balance_partitions_iff`) They do as long as no
  limit that matters wraps (`SharesFit`): every start up to the last agent's, and the end
  of the share that holds the last account. Near the upper limit of `int64` they do not: a
  share whose end wraps is dropped with its accounts, and an agent far past the end of the
  line whose start wraps is sent accounts the line does not have.
* **Do the rates add up?** (`balance_rate_iff`) Each share carries `TargetQPS / n`, also when
  fewer than `n` shares are sent, so they add up exactly when nobody is passed over: with
  four agents and five accounts the shares are two, two and one, and a quarter of the rate
  is lost.
* **Is an account always on the same agent?** (`balance_stable_iff`) Shares go by position in
  the slice, and the slice comes from ranging over a map, so as soon as there are two
  agents and one account, two orders put it on different agents.
-/

namespace Robot.Mode

open Robot.Lib Robot.Case List

/-! ## Covering and not overlapping, over the integers -/

namespace FitsRegime

variable {s e p : ℤ} {n : ℕ} (r : FitsRegime s e p n)

include r

/-- The multiple of `p` at which the share of the last account ends. -/
theorem last_bounds : (e - s - 1) / p * p ≤ e - s - 1 ∧ e - s - 1 < ((e - s - 1) / p + 1) * p := by
  have hpos := r.pos
  refine ⟨Int.ediv_mul_le _ (by omega), ?_⟩
  exact Int.lt_ediv_add_one_mul_self _ hpos

/-- Every account is in the share its position names, when that share does not wrap. -/
theorem covers (hlast : s + ((e - s - 1) / p + 1) * p < 2 ^ 63) {x : ℤ} (hx : s ≤ x ∧ x < e) :
    ∃ i < n, InShare s e p i x := by
  have hpos := r.pos
  obtain ⟨k, hk⟩ := Int.eq_ofNat_of_zero_le (Int.ediv_nonneg (show 0 ≤ x - s by omega) hpos.le)
  have hle : (k : ℤ) * p ≤ x - s := hk ▸ Int.ediv_mul_le _ (by omega)
  have hgt : x - s < (k + 1) * p := hk ▸ Int.lt_ediv_add_one_mul_self _ hpos
  have hkn : k < n := by
    by_contra hge
    have hmul : (n : ℤ) * p ≤ k * p := mul_le_mul_of_nonneg_right (by omega) hpos.le
    have := r.enough
    omega
  have hfit : (k + 1) * p ≤ ((e - s - 1) / p + 1) * p := by
    refine mul_le_mul_of_nonneg_right ?_ hpos.le
    have := Int.ediv_le_ediv hpos (show x - s ≤ e - s - 1 by omega)
    omega
  have hexp : ((k : ℤ) + 1) * p = k * p + p := by ring
  refine ⟨k, hkn, (r.inShare_inside hkn (by omega)).mpr ?_⟩
  omega

/-- **The shares cover the accounts, and no others, exactly when** no start wraps and the
share of the last account does not. -/
theorem covers_iff (hn0 : 0 < n) : (∀ x, (∃ i < n, InShare s e p i x) ↔ s ≤ x ∧ x < e) ↔
    s + (n - 1) * p < 2 ^ 63 ∧ s + ((e - s - 1) / p + 1) * p < 2 ^ 63 := by
  have hpos := r.pos
  have hlt := r.lt
  have hn1 : ((n - 1 : ℕ) : ℤ) = n - 1 := by omega
  have hstarts : ∀ i < n, (i : ℤ) * p ≤ (n - 1) * p := by
    intro i hi
    exact mul_le_mul_of_nonneg_right (by omega) hpos.le
  constructor
  · intro h
    have hstart : s + (n - 1) * p < 2 ^ 63 := by
      -- the last agent's share would lie below the accounts
      by_contra hover
      have hmul := r.mul_bounds (show n - 1 < n by omega)
      rw [hn1] at hmul
      have hin : InShare s e p (n - 1) (s + (n - 1) * p - 2 ^ 64) := by
        rw [r.inShare_wrapped (by omega) (by rw [hn1]; omega), hn1]
        omega
      have := ((h _).mp ⟨n - 1, by omega, hin⟩).1
      omega
    refine ⟨hstart, ?_⟩
    -- the first account of the share that ends past the limit is nowhere else
    by_contra hover
    obtain ⟨hle, hgt⟩ := r.last_bounds
    have hnonneg : 0 ≤ (e - s - 1) / p := Int.ediv_nonneg (by omega) hpos.le
    have hprod : 0 ≤ (e - s - 1) / p * p := mul_nonneg hnonneg hpos.le
    obtain ⟨i, hi, hin⟩ := (h (s + (e - s - 1) / p * p)).mpr ⟨by omega, by omega⟩
    have hs := hstarts i hi
    by_cases hend : s + i * p + p < 2 ^ 63
    · have hin' := (r.inShare_inside hi hend).mp hin
      have hquot : (e - s - 1) / p < i + 1 := by
        refine lt_of_mul_lt_mul_right ?_ hpos.le
        calc (e - s - 1) / p * p < i * p + p := by omega
          _ = (i + 1) * p := by ring
      have hmul : ((e - s - 1) / p + 1) * p ≤ (i + 1) * p :=
        mul_le_mul_of_nonneg_right (by omega) hpos.le
      have hexp : ((i : ℤ) + 1) * p = i * p + p := by ring
      omega
    · exact r.not_inShare hi (by omega) (by omega) hin
  · intro h x
    obtain ⟨hstart, hlast⟩ := h
    refine ⟨?_, fun hx => r.covers hlast hx⟩
    intro hx
    obtain ⟨i, hi, hin⟩ := hx
    have hs := hstarts i hi
    have hmul := r.mul_bounds hi
    by_cases hend : s + i * p + p < 2 ^ 63
    · have hin' := (r.inShare_inside hi hend).mp hin
      omega
    · exact absurd hin (r.not_inShare hi (by omega) (by omega))

/-- A later share has no account of an earlier one. -/
theorem disjoint {i j : ℕ} (hij : i < j) (hj : j < n) {x : ℤ} (hi' : InShare s e p i x) :
    ¬ InShare s e p j x := by
  intro hj'
  have hpos := r.pos
  have hmi := r.mul_bounds (hij.trans hj)
  have hmj := r.mul_bounds hj
  have hstep := mul_add_le_of_lt hpos.le hij
  by_cases hi1 : s + i * p + p < 2 ^ 63
  · rw [r.inShare_inside (hij.trans hj) hi1] at hi'
    by_cases hj1 : s + j * p + p < 2 ^ 63
    · rw [r.inShare_inside hj hj1] at hj'
      omega
    · by_cases hj2 : s + j * p < 2 ^ 63
      · exact r.not_inShare hj hj2 (by omega) hj'
      · rw [r.inShare_wrapped hj (by omega)] at hj'
        omega
  · by_cases hi2 : s + i * p < 2 ^ 63
    · exact r.not_inShare (hij.trans hj) hi2 (by omega) hi'
    · rw [r.inShare_wrapped (hij.trans hj) (by omega)] at hi'
      rw [r.inShare_wrapped hj (by omega)] at hj'
      omega

/-- The first agent always gets the first account. -/
theorem first_inShare (hn0 : 0 < n) : InShare s e p 0 s := by
  have hlt := r.lt
  have hhi := r.hi
  have hpos := r.pos
  have hle : p ≤ e - s := by
    by_contra hgt
    have hmul : (n : ℤ) * (e - s + 1) ≤ n * p := mul_le_mul_of_nonneg_left (by omega) (by omega)
    have hexp : (n : ℤ) * (e - s + 1) = n * (e - s) + n := by ring
    have hmul' : 1 * (e - s) ≤ n * (e - s) := mul_le_mul_of_nonneg_right (by omega) (by omega)
    have := r.tight
    omega
  have hzero : ((0 : ℕ) : ℤ) * p = 0 := by simp
  rw [r.inShare_inside hn0 (by omega)]
  omega

end FitsRegime

namespace WrapsRegime

variable {s e p : ℤ} {n : ℕ} (w : WrapsRegime s e p n)

include w

/-- Only the share whose end wraps has any accounts. -/
theorem crosses_of_inShare {i : ℕ} (hi : i < n) {x : ℤ} (hx : InShare s e p i x) :
    s + i * p + p < -2 ^ 63 ∧ -2 ^ 63 ≤ s + i * p := by
  constructor
  · by_contra h
    exact w.not_inShare_above hi (by omega) hx
  · by_contra h
    exact w.not_inShare_below hi (by omega) hx

/-- **The shares cover the accounts, and no others, exactly when** it is the first share
whose end wraps. -/
theorem covers_iff (hn0 : 0 < n) : (∀ x, (∃ i < n, InShare s e p i x) ↔ s ≤ x ∧ x < e) ↔
    s + p < -2 ^ 63 := by
  have hlt := w.lt
  have hlo := w.lo
  have hp := w.nonpos
  have hzero : ((0 : ℕ) : ℤ) * p = 0 := by simp
  constructor
  · intro h
    obtain ⟨i, hi, hin⟩ := (h s).mpr ⟨by omega, hlt⟩
    obtain ⟨hend, hstart⟩ := w.crosses_of_inShare hi hin
    have hmul := w.mul_bounds hi
    have hin' : InShare s e p i (s + i * p) := by
      rw [w.inShare_crossing hi hend hstart]
      omega
    have := ((h _).mp ⟨i, hi, hin'⟩).1
    omega
  · intro h x
    constructor
    · intro hx
      obtain ⟨i, hi, hin⟩ := hx
      obtain ⟨hend, hstart⟩ := w.crosses_of_inShare hi hin
      have hi0 : i = 0 := by
        by_contra hne
        have := mul_le_add_of_lt hp (show 0 < i by omega)
        omega
      subst hi0
      rw [w.inShare_crossing hi (by omega) (by omega)] at hin
      omega
    · intro hx
      refine ⟨0, hn0, ?_⟩
      rw [w.inShare_crossing hn0 (by omega) (by omega)]
      omega

/-- At most one share has any accounts. -/
theorem disjoint {i j : ℕ} (hij : i < j) (hj : j < n) {x : ℤ} (hi' : InShare s e p i x) :
    ¬ InShare s e p j x := by
  intro hj'
  have hstep := mul_le_add_of_lt w.nonpos hij
  have hci := w.crosses_of_inShare (hij.trans hj) hi'
  have hcj := w.crosses_of_inShare hj hj'
  omega

end WrapsRegime

/-! ## The tasks that are sent -/

section Tasks

variable {openIDStart openIDEnd : Int64} {n : ℕ}

/-- Share `i` of a range, over the integers. -/
abbrev ShareOf (openIDStart openIDEnd : Int64) (n i : ℕ) (x : ℤ) : Prop :=
  InShare openIDStart.toInt openIDEnd.toInt (perAgent openIDStart openIDEnd n).toInt i x

theorem shareOf_iff {i : ℕ} {x : Int64} : shareStart openIDStart openIDEnd n i ≤ x ∧
    x < shareEnd openIDStart openIDEnd n i ↔ ShareOf openIDStart openIDEnd n i x.toInt := by
  rw [Int64.le_iff_toInt_le, Int64.lt_iff_toInt_lt, toInt_shareStart, toInt_shareEnd]
  rfl

/-- A range that is split is in one of the two regimes. -/
theorem share_regime (hne : openIDStart < openIDEnd) (hn0 : 0 < n) (hn : n < 2 ^ 63) :
    DividendFits openIDStart openIDEnd n ∧
        FitsRegime openIDStart.toInt openIDEnd.toInt (perAgent openIDStart openIDEnd n).toInt n ∨
      ¬ DividendFits openIDStart openIDEnd n ∧
        WrapsRegime openIDStart.toInt openIDEnd.toInt (perAgent openIDStart openIDEnd n).toInt n := by
  have hlt := Int64.lt_iff_toInt_lt.mp hne
  have hlo := Int64.le_toInt openIDStart
  have hhi := Int64.toInt_lt openIDEnd
  by_cases hfit : DividendFits openIDStart openIDEnd n
  · obtain ⟨hpos, henough, htight⟩ := fits_perAgent hne hn0 hn hfit
    exact .inl ⟨hfit, hlo, hlt, hhi, hpos, henough, htight, hfit⟩
  · obtain ⟨hnonpos, hlow, hnear⟩ := wraps_perAgent hn0 hn hfit
    exact .inr ⟨hfit, hlo, hlt, hhi, hnonpos, hlow, hnear⟩

/-- Two shares never have an account in common. -/
theorem shareOf_disjoint (hne : openIDStart < openIDEnd) (hn0 : 0 < n) (hn : n < 2 ^ 63) {i j : ℕ}
    (hi : i < n) (hj : j < n) (hij : i ≠ j) {x : ℤ} (hx : ShareOf openIDStart openIDEnd n i x) :
    ¬ ShareOf openIDStart openIDEnd n j x := by
  intro hx'
  rcases share_regime hne hn0 hn with ⟨-, r⟩ | ⟨-, w⟩
  · rcases lt_or_gt_of_ne hij with hlt | hgt
    · exact r.disjoint hlt hj hx hx'
    · exact r.disjoint hgt hi hx' hx
  · rcases lt_or_gt_of_ne hij with hlt | hgt
    · exact w.disjoint hlt hj hx hx'
    · exact w.disjoint hgt hi hx' hx

/-- The task has account `x`. -/
def Assignment.Has (t : Assignment) (x : Int64) : Prop :=
  t.task.params.openIDStart ≤ x ∧ x < t.task.params.openIDEnd

variable {reportID : String} {caseIndex : ℕ} {params : StressParams} {agents : List AgentEntry}

theorem mem_balanceTasks {t : Assignment} : t ∈ balanceTasks reportID caseIndex params agents ↔
    ∃ i agent, agents[i]? = some agent ∧
      shareStart params.openIDStart params.openIDEnd agents.length i <
        shareEnd params.openIDStart params.openIDEnd agents.length i ∧
      t = stressTask reportID caseIndex (params.share agents.length i) agent := by
  unfold balanceTasks
  rw [mem_filterMap]
  constructor
  · intro h
    obtain ⟨⟨agent, i⟩, hmem, ht⟩ := h
    simp only at ht
    split at ht
    · cases ht
    · next hlt =>
      refine ⟨i, agent, mk_mem_zipIdx_iff_getElem?.mp hmem, ?_, (Option.some.inj ht).symm⟩
      exact Int64.not_le.mp hlt
  · intro h
    obtain ⟨i, agent, hget, hlt, rfl⟩ := h
    refine ⟨(agent, i), mk_mem_zipIdx_iff_getElem?.mpr hget, ?_⟩
    simp only
    exact if_neg (Int64.not_le.mpr hlt)

/-- Account `x` is in some task exactly when it is in some share. -/
theorem exists_has_iff {x : Int64} :
    (∃ t ∈ balanceTasks reportID caseIndex params agents, t.Has x) ↔
      ∃ i < agents.length,
        ShareOf params.openIDStart params.openIDEnd agents.length i x.toInt := by
  constructor
  · intro h
    obtain ⟨t, ht, hx⟩ := h
    obtain ⟨i, agent, hget, -, rfl⟩ := mem_balanceTasks.mp ht
    exact ⟨i, (List.getElem?_eq_some_iff.mp hget).1, shareOf_iff.mp hx⟩
  · intro h
    obtain ⟨i, hi, hx⟩ := h
    have hx' := shareOf_iff.mpr hx
    exact ⟨_, mem_balanceTasks.mpr ⟨i, agents[i], List.getElem?_eq_getElem hi,
      Int64.lt_of_le_of_lt hx'.1 hx'.2, rfl⟩, hx'⟩

/-- What holds between the tasks of any two agents holds between the tasks sent. -/
theorem balanceTasks_pairwise {R : Assignment → Assignment → Prop}
    (h : agents.zipIdx.Pairwise fun a b =>
      R (stressTask reportID caseIndex (params.share agents.length a.2) a.1)
        (stressTask reportID caseIndex (params.share agents.length b.2) b.1)) :
    (balanceTasks reportID caseIndex params agents).Pairwise R := by
  unfold balanceTasks
  rw [pairwise_filterMap]
  refine h.imp ?_
  intro a b hab t ht u hu
  simp only [Option.ite_none_left_eq_some, Option.some.injEq] at ht hu
  obtain ⟨-, rfl⟩ := ht
  obtain ⟨-, rfl⟩ := hu
  exact hab

theorem distributeSingleCase_of_selected {entries : List AgentEntry}
    {targetGroup distributeMode : String} {targetAgents : List String}
    (hmode : distributeMode ≠ "copy")
    (hsel : selectOnlineAgents entries targetGroup targetAgents ≠ []) :
    distributeSingleCase entries reportID caseIndex params targetGroup targetAgents distributeMode =
      .ok (balanceTasks reportID caseIndex params
        (selectOnlineAgents entries targetGroup targetAgents)) := by
  unfold distributeSingleCase
  simp only [if_neg hmode]
  exact if_neg fun hnil => hsel (isEmpty_iff.mp hnil)

theorem distributeSingleCase_balance {entries : List AgentEntry} {targetGroup distributeMode : String}
    {targetAgents : List String} {tasks : List Assignment} (hmode : distributeMode ≠ "copy")
    (h : distributeSingleCase entries reportID caseIndex params targetGroup targetAgents
      distributeMode = .ok tasks) :
    selectOnlineAgents entries targetGroup targetAgents ≠ [] ∧
      tasks = balanceTasks reportID caseIndex params
        (selectOnlineAgents entries targetGroup targetAgents) := by
  unfold distributeSingleCase at h
  simp only [if_neg hmode] at h
  split at h
  · split at h
    · cases h
    · split at h <;> cases h
  · next hne =>
    cases h
    exact ⟨fun he => hne (by rw [he]; rfl), rfl⟩

end Tasks

/-! ## The shares partition the accounts -/

/-- The tasks cut the range into non-empty pieces, at most one for each agent. -/
structure Partitions (tasks : List Assignment) (openIDStart openIDEnd : Int64) : Prop where
  nonempty : ∀ t ∈ tasks, t.task.params.openIDStart < t.task.params.openIDEnd
  disjoint : tasks.Pairwise fun t u => ∀ x, t.Has x → ¬ u.Has x
  onePerAgent : (tasks.map Assignment.agent).Nodup
  union : ∀ x, (∃ t ∈ tasks, t.Has x) ↔ openIDStart ≤ x ∧ x < openIDEnd

/-- Where the dividend fits: every start fits, and the end of the share that holds the last
account. Where it wraps: the end of the first share wraps back as well. -/
def SharesFit (openIDStart openIDEnd : Int64) (n : ℕ) : Prop :=
  if DividendFits openIDStart openIDEnd n then
    openIDStart.toInt + (n - 1) * ceilShare openIDStart openIDEnd n < 2 ^ 63 ∧
      openIDStart.toInt + ((openIDEnd.toInt - openIDStart.toInt - 1) /
        ceilShare openIDStart openIDEnd n + 1) * ceilShare openIDStart openIDEnd n < 2 ^ 63
  else openIDStart.toInt + wrappedShare openIDStart openIDEnd n < -2 ^ 63

section Partition

variable {openIDStart openIDEnd : Int64} {n : ℕ}

theorem shareOf_covers_iff (hne : openIDStart < openIDEnd) (hn0 : 0 < n) (hn : n < 2 ^ 63) :
    (∀ x, (∃ i < n, ShareOf openIDStart openIDEnd n i x) ↔
      openIDStart.toInt ≤ x ∧ x < openIDEnd.toInt) ↔ SharesFit openIDStart openIDEnd n := by
  unfold SharesFit
  rcases share_regime hne hn0 hn with ⟨hfit, r⟩ | ⟨hwrap, w⟩
  · rw [if_pos hfit, ← perAgent_of_fits hne hn0 hn hfit]
    exact r.covers_iff hn0
  · rw [if_neg hwrap, ← perAgent_of_wraps hn0 hn hwrap]
    exact w.covers_iff hn0

/-- It makes no difference whether an account is an `int64` or any integer. -/
theorem covers_int64_iff : (∀ x : Int64, (∃ i < n, ShareOf openIDStart openIDEnd n i x.toInt) ↔
      openIDStart ≤ x ∧ x < openIDEnd) ↔
    ∀ x : ℤ, (∃ i < n, ShareOf openIDStart openIDEnd n i x) ↔
      openIDStart.toInt ≤ x ∧ x < openIDEnd.toInt := by
  constructor
  · intro h x
    have hlo := Int64.le_toInt openIDStart
    have hhi := Int64.toInt_lt openIDEnd
    by_cases hx : -2 ^ 63 ≤ x ∧ x < 2 ^ 63
    · have hof : (Int64.ofInt x).toInt = x := Int64.toInt_ofInt_of_le hx.1 hx.2
      have := h (Int64.ofInt x)
      rwa [Int64.le_iff_toInt_le, Int64.lt_iff_toInt_lt, hof] at this
    · constructor
      · intro hin
        obtain ⟨i, -, hstart, hend⟩ := hin
        have := le_i64 (openIDStart.toInt + i * (perAgent openIDStart openIDEnd n).toInt)
        rw [lt_min_iff] at hend
        omega
      · intro hin
        omega
  · intro h x
    rw [Int64.le_iff_toInt_le, Int64.lt_iff_toInt_lt]
    exact h x.toInt

end Partition

/-- **Balance mode partitions the accounts exactly when the shares fit**: for every `int64`
range that is not empty, every map of agents and every choice of targets that selects at
least one of them, the ranges sent are non-empty, disjoint, one for each agent at most, and
together the range of the line, if and only if `SharesFit`. -/
theorem balance_partitions_iff (entries : List AgentEntry) (reportID : String) (caseIndex : ℕ)
    (params : StressParams) (targetGroup : String) (targetAgents : List String)
    (distributeMode : String) (tasks : List Assignment)
    (hne : params.openIDStart < params.openIDEnd) (hids : (entries.map AgentEntry.id).Nodup)
    (hlen : entries.length < 2 ^ 63) (hmode : distributeMode ≠ "copy")
    (h : distributeSingleCase entries reportID caseIndex params targetGroup targetAgents
      distributeMode = .ok tasks) :
    Partitions tasks params.openIDStart params.openIDEnd ↔
      SharesFit params.openIDStart params.openIDEnd
        (selectOnlineAgents entries targetGroup targetAgents).length := by
  obtain ⟨hsel, rfl⟩ := distributeSingleCase_balance hmode h
  have hsub : (selectOnlineAgents entries targetGroup targetAgents).Sublist entries :=
    filter_sublist
  generalize selectOnlineAgents entries targetGroup targetAgents = agents at hsel hsub
  have hn0 : 0 < agents.length := length_pos_of_ne_nil hsel
  have hn : agents.length < 2 ^ 63 := hsub.length_le.trans_lt hlen
  have hunion : (∀ x, (∃ t ∈ balanceTasks reportID caseIndex params agents, t.Has x) ↔
      params.openIDStart ≤ x ∧ x < params.openIDEnd) ↔
        SharesFit params.openIDStart params.openIDEnd agents.length := by
    simp only [exists_has_iff]
    exact covers_int64_iff.trans (shareOf_covers_iff hne hn0 hn)
  refine ⟨fun hpart => hunion.mp hpart.union, fun hfit => ⟨?_, ?_, ?_, hunion.mpr hfit⟩⟩
  · intro t ht
    obtain ⟨i, agent, -, hlt, rfl⟩ := mem_balanceTasks.mp ht
    exact hlt
  · refine balanceTasks_pairwise ?_
    have hidx : agents.zipIdx.Pairwise fun a b => a.2 ≠ b.2 :=
      pairwise_map.mp (nodup_zipIdx_map_snd agents)
    refine hidx.imp_of_mem ?_
    intro a b ha hb hab x hx hx'
    exact shareOf_disjoint hne hn0 hn (snd_lt_of_mem_zipIdx ha) (snd_lt_of_mem_zipIdx hb)
      hab (shareOf_iff.mp hx) (shareOf_iff.mp hx')
  · refine pairwise_map.mpr (balanceTasks_pairwise ?_)
    have hnodup : (agents.map AgentEntry.id).Nodup := hids.sublist (hsub.map _)
    have hagents : ((agents.zipIdx.map Prod.fst).map AgentEntry.id).Nodup := by
      rw [zipIdx_map_fst]
      exact hnodup
    rw [map_map] at hagents
    exact pairwise_map.mp hagents

/-- Two online agents, one of them in a group. -/
def twoAgents : List AgentEntry := [⟨"a", "", .online⟩, ⟨"b", "g", .busy⟩]

/-- A line over the accounts `[openIDStart, openIDEnd)` at ten requests a second. -/
def lineOver (openIDStart openIDEnd : Int64) : StressParams :=
  { caseName := "login", caseIndex := 0, errorBreak := false, openIDPrefix := "u",
    openIDStart := openIDStart, openIDEnd := openIDEnd, userBatchCount := 1, runTime := 1,
    extraArgs := [], targetQPS := 10 }

/-- Ten accounts over two agents. -/
theorem balance_partitions_ten :
    distributeSingleCase twoAgents "r" 0 (lineOver 0 10) "" [] "balance" =
        .ok (balanceTasks "r" 0 (lineOver 0 10) twoAgents) ∧
      Partitions (balanceTasks "r" 0 (lineOver 0 10) twoAgents) 0 10 :=
  ⟨rfl, (balance_partitions_iff twoAgents "r" 0 (lineOver 0 10) "" [] "balance" _ (by decide)
    (by decide) (by decide) (by decide) rfl).mpr (by unfold SharesFit; decide)⟩

/-- The last three accounts below the limit of `int64`. -/
def lineAtLimit : StressParams := lineOver 9223372036854775804 9223372036854775807

/-- Over two agents, the second share of the last three accounts ends past the limit and is
dropped. -/
theorem balance_drops_last_account :
    distributeSingleCase twoAgents "r" 0 lineAtLimit "" [] "balance" =
        .ok (balanceTasks "r" 0 lineAtLimit twoAgents) ∧
      ¬ Partitions (balanceTasks "r" 0 lineAtLimit twoAgents) lineAtLimit.openIDStart
        lineAtLimit.openIDEnd := by
  refine ⟨rfl, fun hpart => ?_⟩
  have hlast := (hpart.union 9223372036854775806).mpr (by decide +kernel)
  obtain ⟨i, hi, hin⟩ := exists_has_iff.mp hlast
  have hi' : i = 0 ∨ i = 1 := by
    have : twoAgents.length = 2 := rfl
    omega
  rw [← shareOf_iff] at hin
  rcases hi' with rfl | rfl
  · exact absurd hin (by decide +kernel)
  · exact absurd hin (by decide +kernel)

/-! ## The rates add up -/

/-- No share is empty: there is one agent, or no limit wraps and the last start lies before
the end. -/
def EveryShareSent (openIDStart openIDEnd : Int64) (n : ℕ) : Prop :=
  n = 1 ∨ DividendFits openIDStart openIDEnd n ∧
    (n - 1) * ceilShare openIDStart openIDEnd n < openIDEnd.toInt - openIDStart.toInt ∧
    openIDStart.toInt + n * ceilShare openIDStart openIDEnd n < 2 ^ 63

/-- Where the dividend fits, no share is empty exactly when the last one starts before the
end and does not wrap. -/
theorem FitsRegime.every_iff {s e p : ℤ} {n : ℕ} (r : FitsRegime s e p n) (hn0 : 0 < n) :
    (∀ i < n, ∃ x, InShare s e p i x) ↔ (n - 1) * p < e - s ∧ s + n * p < 2 ^ 63 := by
  have hpos := r.pos
  have hlt := r.lt
  have hhi := r.hi
  have hn1 : ((n - 1 : ℕ) : ℤ) = n - 1 := by omega
  have hexp : (n : ℤ) * p = (n - 1) * p + p := by ring
  constructor
  · intro h
    have hstart : (n - 1) * p < e - s := by
      by_contra hge
      -- `k` is the first share that starts at or after the end
      obtain ⟨k, hk⟩ := Int.eq_ofNat_of_zero_le
        (Int.ediv_nonneg (show 0 ≤ e - s - 1 by omega) hpos.le)
      have hbounds := r.last_bounds
      rw [hk] at hbounds
      have hkexp : ((k : ℤ) + 1) * p = k * p + p := by ring
      have hkn : k + 1 < n := by
        have hquot : (k : ℤ) < n - 1 := lt_of_mul_lt_mul_right (by omega) hpos.le
        omega
      by_cases hover : s + k * p + p < 2 ^ 63
      · obtain ⟨x, hx⟩ := h (k + 1) hkn
        have hcast : ((k + 1 : ℕ) : ℤ) * p = k * p + p := by push_cast; ring
        by_cases hend : s + (k + 1 : ℕ) * p + p < 2 ^ 63
        · have := (r.inShare_inside hkn hend).mp hx
          omega
        · exact r.not_inShare hkn (by omega) (by omega) hx
      · obtain ⟨x, hx⟩ := h k (by omega)
        exact r.not_inShare (by omega) (by omega) (by omega) hx
    refine ⟨hstart, ?_⟩
    by_contra hover
    obtain ⟨x, hx⟩ := h (n - 1) (by omega)
    refine r.not_inShare (by omega) ?_ ?_ hx
    · rw [hn1]
      omega
    · rw [hn1]
      omega
  · intro h i hi
    have hstart : (i : ℤ) * p ≤ (n - 1) * p := mul_le_mul_of_nonneg_right (by omega) hpos.le
    refine ⟨s + i * p, (r.inShare_inside hi (by omega)).mpr ?_⟩
    omega

section Rate

variable {openIDStart openIDEnd : Int64} {n : ℕ}

theorem perAgent_one : (perAgent openIDStart openIDEnd 1).toInt =
    i64 (openIDEnd.toInt - openIDStart.toInt) := by
  unfold perAgent
  rw [toInt_quotient _ Nat.one_pos (by omega), toInt_dividend (by omega), Nat.cast_one,
    Int.tdiv_one, add_sub_cancel_right]

/-- One agent gets the whole range, whatever wraps. -/
theorem shareOf_one {x : ℤ} : ShareOf openIDStart openIDEnd 1 0 x ↔
    openIDStart.toInt ≤ x ∧ x < openIDEnd.toInt := by
  have hstart := Int64.le_toInt openIDStart
  have hstart' := Int64.toInt_lt openIDStart
  have hend := Int64.le_toInt openIDEnd
  have hend' := Int64.toInt_lt openIDEnd
  unfold ShareOf InShare
  rw [Nat.cast_zero, zero_mul, add_zero, i64_of_fits hstart hstart', perAgent_one, i64_add_right,
    add_sub_cancel, i64_of_fits hend hend', min_self]

theorem every_share_iff (hne : openIDStart < openIDEnd) (hn0 : 0 < n) (hn : n < 2 ^ 63) :
    (∀ i < n, ∃ x, ShareOf openIDStart openIDEnd n i x) ↔
      EveryShareSent openIDStart openIDEnd n := by
  have hlt := Int64.lt_iff_toInt_lt.mp hne
  unfold EveryShareSent
  by_cases h1 : n = 1
  · subst h1
    refine ⟨fun _ => .inl rfl, fun _ i hi => ?_⟩
    obtain rfl : i = 0 := by omega
    exact ⟨openIDStart.toInt, shareOf_one.mpr ⟨le_refl _, hlt⟩⟩
  · rcases share_regime hne hn0 hn with ⟨hfit, r⟩ | ⟨hwrap, w⟩
    · rw [r.every_iff hn0, perAgent_of_fits hne hn0 hn hfit]
      exact ⟨fun h => .inr ⟨hfit, h⟩, fun h => (h.resolve_left h1).2⟩
    · -- the ends of two shares cannot both be the first to wrap
      refine ⟨fun h => ?_, fun h => absurd (h.resolve_left h1).1 hwrap⟩
      obtain ⟨x, hx⟩ := h 0 hn0
      obtain ⟨y, hy⟩ := h 1 (by omega)
      have h0 := w.crosses_of_inShare hn0 hx
      have h1 := w.crosses_of_inShare (by omega) hy
      rw [Nat.cast_zero, zero_mul] at h0
      rw [Nat.cast_one, one_mul] at h1
      omega

variable {reportID : String} {caseIndex : ℕ} {params : StressParams} {agents : List AgentEntry}

/-- Nobody is passed over exactly when no share is empty. -/
theorem length_balanceTasks_iff :
    (balanceTasks reportID caseIndex params agents).length = agents.length ↔
      ∀ i < agents.length,
        ∃ x, ShareOf params.openIDStart params.openIDEnd agents.length i x := by
  have hshare : ∀ i, (∃ x, ShareOf params.openIDStart params.openIDEnd agents.length i x) ↔
      ¬ (params.share agents.length i).openIDStart ≥ (params.share agents.length i).openIDEnd := by
    intro i
    rw [ge_iff_le, Int64.not_le, Int64.lt_iff_toInt_lt]
    unfold ShareOf InShare StressParams.share
    rw [← toInt_shareStart, ← toInt_shareEnd]
    exact ⟨fun h => h.elim fun x hx => lt_of_le_of_lt hx.1 hx.2, fun h => ⟨_, le_refl _, h⟩⟩
  unfold balanceTasks
  rw [length_filterMap_eq_countP, ← length_zipIdx (l := agents) (i := 0),
    countP_eq_length]
  simp only [length_zipIdx, hshare]
  constructor
  · intro h i hi
    have := h (agents[i], i) (mk_mem_zipIdx_iff_getElem?.mpr (List.getElem?_eq_getElem hi))
    simpa using this
  · intro h a ha
    have := h a.2 (snd_lt_of_mem_zipIdx ha)
    simpa using this

/-- Each task sent carries an equal part of the rate. -/
theorem sum_balanceTasks (hqps : 0 < params.targetQPS) :
    ((balanceTasks reportID caseIndex params agents).map (·.task.params.targetQPS)).sum =
      (balanceTasks reportID caseIndex params agents).length *
        (params.targetQPS / agents.length) := by
  have hall : ∀ q ∈ (balanceTasks reportID caseIndex params agents).map
      (·.task.params.targetQPS), q = params.targetQPS / agents.length := by
    intro q hq
    obtain ⟨t, ht, rfl⟩ := mem_map.mp hq
    obtain ⟨i, agent, -, -, rfl⟩ := mem_balanceTasks.mp ht
    exact if_pos hqps
  rw [sum_eq_card_nsmul _ _ hall, length_map, nsmul_eq_mul]

end Rate

/-- **Balance mode keeps the rate exactly when every share is sent**: for every rate, every
`int64` range that is not empty, every map of agents and every choice of targets that
selects at least one of them. -/
theorem balance_rate_iff (entries : List AgentEntry) (reportID : String) (caseIndex : ℕ)
    (params : StressParams) (targetGroup : String) (targetAgents : List String)
    (distributeMode : String) (tasks : List Assignment)
    (hne : params.openIDStart < params.openIDEnd) (hqps : 0 < params.targetQPS)
    (hlen : entries.length < 2 ^ 63) (hmode : distributeMode ≠ "copy")
    (h : distributeSingleCase entries reportID caseIndex params targetGroup targetAgents
      distributeMode = .ok tasks) :
    (tasks.map (·.task.params.targetQPS)).sum = params.targetQPS ↔
      EveryShareSent params.openIDStart params.openIDEnd
        (selectOnlineAgents entries targetGroup targetAgents).length := by
  obtain ⟨hsel, rfl⟩ := distributeSingleCase_balance hmode h
  have hsub : (selectOnlineAgents entries targetGroup targetAgents).length ≤ entries.length :=
    filter_sublist.length_le
  generalize selectOnlineAgents entries targetGroup targetAgents = agents at hsel hsub
  have hn0 : 0 < agents.length := length_pos_of_ne_nil hsel
  rw [sum_balanceTasks hqps, ← every_share_iff hne hn0 (by omega), ← length_balanceTasks_iff]
  constructor
  · intro hsum
    have hcount : ((balanceTasks reportID caseIndex params agents).length : ℚ) =
        agents.length := by
      field_simp at hsum
      exact hsum
    exact_mod_cast hcount
  · intro hcount
    rw [hcount]
    field_simp

/-- Ten accounts over two agents, five requests a second for each. -/
theorem balance_rate_ten :
    ((balanceTasks "r" 0 (lineOver 0 10) twoAgents).map (·.task.params.targetQPS)).sum = 10 :=
  (balance_rate_iff twoAgents "r" 0 (lineOver 0 10) "" [] "balance" _ (by decide)
    (by norm_num [lineOver]) (by decide) (by decide) rfl).mpr
      (.inr (by unfold DividendFits; decide))

/-- One account over two agents: only one of them is sent half of the rate. -/
theorem balance_loses_rate :
    distributeSingleCase twoAgents "r" 0 (lineOver 0 1) "" [] "balance" =
        .ok (balanceTasks "r" 0 (lineOver 0 1) twoAgents) ∧
      ((balanceTasks "r" 0 (lineOver 0 1) twoAgents).map (·.task.params.targetQPS)).sum = 5 ∧
      (lineOver 0 1).targetQPS = 10 := by
  have hcount : (balanceTasks "r" 0 (lineOver 0 1) twoAgents).length = 1 := by decide +kernel
  refine ⟨rfl, ?_, rfl⟩
  rw [sum_balanceTasks (by norm_num [lineOver]), hcount]
  norm_num [lineOver, twoAgents]

/-! ## An account stays where it is -/

/-- Account `x` is driven by the agent `id`. -/
def PlacedOn (tasks : List Assignment) (x : Int64) (id : String) : Prop :=
  ∃ t ∈ tasks, t.agent = id ∧ t.Has x

/-- Whatever orders the map of agents is ranged over in, two lines over the same accounts put
each of them on the same agent. -/
def StablePlacement (entries : List AgentEntry) (targetGroup : String)
    (targetAgents : List String) (openIDStart openIDEnd : Int64) : Prop :=
  ∀ (order₁ order₂ : List AgentEntry), order₁.Perm entries → order₂.Perm entries →
  ∀ (reportID : String) (caseIndex₁ caseIndex₂ : ℕ) (line₁ line₂ : StressParams)
    (distributeMode : String), distributeMode ≠ "copy" →
  line₁.openIDStart = openIDStart → line₁.openIDEnd = openIDEnd →
  line₂.openIDStart = openIDStart → line₂.openIDEnd = openIDEnd →
  ∀ tasks₁ tasks₂,
    distributeSingleCase order₁ reportID caseIndex₁ line₁ targetGroup targetAgents
      distributeMode = .ok tasks₁ →
    distributeSingleCase order₂ reportID caseIndex₂ line₂ targetGroup targetAgents
      distributeMode = .ok tasks₂ →
    ∀ x id, PlacedOn tasks₁ x id ↔ PlacedOn tasks₂ x id

/-- There is at most one agent, or the arithmetic wraps so that no account is sent at all. -/
def PlacementFixed (openIDStart openIDEnd : Int64) (n : ℕ) : Prop :=
  n ≤ 1 ∨ ¬ DividendFits openIDStart openIDEnd n ∧
    -2 ^ 63 ≤ openIDStart.toInt + n * wrappedShare openIDStart openIDEnd n

section Placement

variable {reportID : String} {caseIndex : ℕ} {params : StressParams} {agents : List AgentEntry}

/-- Where an account is depends on the positions of the agents only. -/
theorem placedOn_iff {x : Int64} {id : String} :
    PlacedOn (balanceTasks reportID caseIndex params agents) x id ↔
      ∃ i agent, agents[i]? = some agent ∧ agent.id = id ∧
        ShareOf params.openIDStart params.openIDEnd agents.length i x.toInt := by
  constructor
  · intro h
    obtain ⟨t, ht, hid, hx⟩ := h
    obtain ⟨i, agent, hget, -, rfl⟩ := mem_balanceTasks.mp ht
    exact ⟨i, agent, hget, hid, shareOf_iff.mp hx⟩
  · intro h
    obtain ⟨i, agent, hget, hid, hx⟩ := h
    have hx' := shareOf_iff.mpr hx
    exact ⟨_, mem_balanceTasks.mpr ⟨i, agent, hget, Int64.lt_of_le_of_lt hx'.1 hx'.2, rfl⟩,
      hid, hx'⟩

/-- The share whose end is the first to wrap. -/
theorem WrapsRegime.exists_crossing {s e p : ℤ} {n : ℕ} (w : WrapsRegime s e p n)
    (hbelow : s + n * p < -2 ^ 63) :
    ∃ i < n, s + i * p + p < -2 ^ 63 ∧ -2 ^ 63 ≤ s + i * p := by
  have hex : ∃ j : ℕ, s + j * p < -2 ^ 63 := ⟨n, hbelow⟩
  have hfirst := Nat.find_spec hex
  have hmin : ∀ j < Nat.find hex, -2 ^ 63 ≤ s + j * p := fun j hj => not_lt.mp (Nat.find_min hex hj)
  have hle : Nat.find hex ≤ n := Nat.find_min' hex hbelow
  cases hj : Nat.find hex with
  | zero =>
    rw [hj, Nat.cast_zero, zero_mul] at hfirst
    have := w.lo
    omega
  | succ i =>
    refine ⟨i, by omega, ?_, hmin i (by omega)⟩
    rw [hj] at hfirst
    have hexp : ((i + 1 : ℕ) : ℤ) * p = i * p + p := by push_cast; ring
    omega

variable {openIDStart openIDEnd : Int64} {n : ℕ}

/-- Unless nothing is sent at all, the first account is. -/
theorem first_account_sent (hne : openIDStart < openIDEnd) (hn0 : 0 < n) (hn : n < 2 ^ 63)
    (h : ¬ PlacementFixed openIDStart openIDEnd n) :
    ∃ i < n, ShareOf openIDStart openIDEnd n i openIDStart.toInt := by
  rcases share_regime hne hn0 hn with ⟨-, r⟩ | ⟨hwrap, w⟩
  · exact ⟨0, hn0, r.first_inShare hn0⟩
  · have hbelow : openIDStart.toInt + n * (perAgent openIDStart openIDEnd n).toInt < -2 ^ 63 := by
      rw [perAgent_of_wraps hn0 hn hwrap]
      by_contra hge
      exact h (.inr ⟨hwrap, not_lt.mp hge⟩)
    obtain ⟨i, hi, hend, hstart⟩ := w.exists_crossing hbelow
    have hmul := w.mul_bounds hi
    have hlt := w.lt
    exact ⟨i, hi, (w.inShare_crossing hi hend hstart).mpr ⟨by omega, hlt⟩⟩

/-- In the second case of `PlacementFixed` nothing is sent. -/
theorem nothing_sent (hne : openIDStart < openIDEnd) (hn0 : 0 < n) (hn : n < 2 ^ 63)
    (hwrap : ¬ DividendFits openIDStart openIDEnd n)
    (habove : -2 ^ 63 ≤ openIDStart.toInt + n * wrappedShare openIDStart openIDEnd n) {i : ℕ}
    (hi : i < n) (x : ℤ) : ¬ ShareOf openIDStart openIDEnd n i x := by
  rcases share_regime hne hn0 hn with ⟨hfit, -⟩ | ⟨-, w⟩
  · exact absurd hfit hwrap
  · rw [← perAgent_of_wraps hn0 hn hwrap] at habove
    have hmul := w.mul_bounds hi
    exact w.not_inShare_above hi (by omega)

/-- The order that ranges over the targets one position further, and then over the others. -/
def rotatedOrder (entries : List AgentEntry) (targetGroup : String) (targetAgents : List String) :
    List AgentEntry :=
  (selectOnlineAgents entries targetGroup targetAgents).rotate 1 ++
    entries.filter fun a => !a.selected targetGroup targetAgents

theorem rotatedOrder_perm (entries : List AgentEntry) (targetGroup : String)
    (targetAgents : List String) :
    (rotatedOrder entries targetGroup targetAgents).Perm entries := by
  unfold rotatedOrder selectOnlineAgents
  exact (List.Perm.append_right _ (rotate_perm _ 1)).trans (filter_append_perm _ _)

theorem select_rotatedOrder (entries : List AgentEntry) (targetGroup : String)
    (targetAgents : List String) :
    selectOnlineAgents (rotatedOrder entries targetGroup targetAgents) targetGroup targetAgents =
      (selectOnlineAgents entries targetGroup targetAgents).rotate 1 := by
  have hsel : ∀ a ∈ (selectOnlineAgents entries targetGroup targetAgents).rotate 1,
      a.selected targetGroup targetAgents = true := by
    intro a ha
    rw [mem_rotate] at ha
    exact (mem_filter.mp ha).2
  have hrest : (entries.filter fun a => !a.selected targetGroup targetAgents).filter
      (AgentEntry.selected targetGroup targetAgents) = [] := by
    rw [filter_filter]
    simp
  unfold rotatedOrder selectOnlineAgents
  unfold selectOnlineAgents at hsel
  rw [filter_append, filter_eq_self.mpr hsel, hrest, append_nil]

/-- Ranged over one position further, the agent of any position is another one. -/
theorem id_rotate_ne (hids : (agents.map AgentEntry.id).Nodup) (hlen : 2 ≤ agents.length)
    {i : ℕ} {agent agent' : AgentEntry} (hget : agents[i]? = some agent)
    (hget' : (agents.rotate 1)[i]? = some agent') : agent'.id ≠ agent.id := by
  obtain ⟨hi, rfl⟩ := List.getElem?_eq_some_iff.mp hget
  obtain ⟨hi', rfl⟩ := List.getElem?_eq_some_iff.mp hget'
  rw [getElem_rotate]
  intro he
  have hidx : ∀ j k (hj : j < agents.length) (hk : k < agents.length),
      agents[j].id = agents[k].id → j = k := by
    intro j k hj hk hjk
    refine (List.getElem?_inj (by simpa using hj) hids).mp ?_
    simp [hj, hk, hjk]
  have hmod := hidx _ _ (Nat.mod_lt _ (by omega)) hi he
  by_cases hlast : i + 1 < agents.length
  · rw [Nat.mod_eq_of_lt hlast] at hmod
    omega
  · obtain rfl : i = agents.length - 1 := by omega
    rw [show agents.length - 1 + 1 = agents.length by omega, Nat.mod_self] at hmod
    omega

/-- Two agents or more, and an account that is sent: two orders put it on different agents. -/
theorem not_stable {entries : List AgentEntry} {targetGroup : String} {targetAgents : List String}
    (hne : openIDStart < openIDEnd)
    (hids : ((selectOnlineAgents entries targetGroup targetAgents).map AgentEntry.id).Nodup)
    (hn2 : 2 ≤ (selectOnlineAgents entries targetGroup targetAgents).length)
    (hn : (selectOnlineAgents entries targetGroup targetAgents).length < 2 ^ 63)
    (hnot : ¬ PlacementFixed openIDStart openIDEnd
      (selectOnlineAgents entries targetGroup targetAgents).length) :
    ¬ StablePlacement entries targetGroup targetAgents openIDStart openIDEnd := by
  intro hstable
  have hrot := select_rotatedOrder entries targetGroup targetAgents
  have hplaces := hstable entries (rotatedOrder entries targetGroup targetAgents) (.refl _)
    (rotatedOrder_perm ..) "" 0 0 (lineOver openIDStart openIDEnd) (lineOver openIDStart openIDEnd)
    "balance" (by decide) rfl rfl rfl rfl _ _
    (distributeSingleCase_of_selected (by decide) (ne_nil_of_length_pos (by omega)))
    (distributeSingleCase_of_selected (by decide)
      (ne_nil_of_length_pos (by rw [hrot, length_rotate]; omega)))
  rw [hrot] at hplaces
  generalize selectOnlineAgents entries targetGroup targetAgents = agents at hids hn2 hn hnot hplaces
  obtain ⟨i, hi, hin⟩ := first_account_sent hne (by omega) hn hnot
  have hplaced : PlacedOn (balanceTasks "" 0 (lineOver openIDStart openIDEnd) (agents.rotate 1))
      openIDStart agents[i].id :=
    (hplaces openIDStart agents[i].id).mp
      (placedOn_iff.mpr ⟨i, agents[i], List.getElem?_eq_getElem hi, rfl, hin⟩)
  obtain ⟨j, agent', hget', hid, hin'⟩ := placedOn_iff.mp hplaced
  rw [length_rotate] at hin'
  have hj : j < agents.length := by
    have := (List.getElem?_eq_some_iff.mp hget').1
    rwa [length_rotate] at this
  have hij : i = j := by
    by_contra hne'
    exact shareOf_disjoint hne (by omega) hn hi hj hne' hin hin'
  subst hij
  exact id_rotate_ne hids hn2 (List.getElem?_eq_getElem hi) hget' hid

end Placement

/-- **The placement is stable exactly when there is one agent at most** (or the arithmetic
wraps so that nothing is placed): for every map of agents, every choice of targets and every
`int64` range that is not empty. -/
theorem balance_stable_iff (entries : List AgentEntry) (targetGroup : String)
    (targetAgents : List String) (openIDStart openIDEnd : Int64) (hne : openIDStart < openIDEnd)
    (hids : (entries.map AgentEntry.id).Nodup) (hlen : entries.length < 2 ^ 63) :
    StablePlacement entries targetGroup targetAgents openIDStart openIDEnd ↔
      PlacementFixed openIDStart openIDEnd
        (selectOnlineAgents entries targetGroup targetAgents).length := by
  have hsub : (selectOnlineAgents entries targetGroup targetAgents).Sublist entries :=
    filter_sublist
  have hn := hsub.length_le.trans_lt hlen
  constructor
  · intro hstable
    by_contra hnot
    have hn2 : 2 ≤ (selectOnlineAgents entries targetGroup targetAgents).length := by
      by_contra hlt
      exact hnot (.inl (by omega))
    exact not_stable hne (hids.sublist (hsub.map _)) hn2 hn hnot hstable
  · intro hfixed order₁ order₂ h₁ h₂ reportID caseIndex₁ caseIndex₂ line₁ line₂ distributeMode hmode
      hs₁ he₁ hs₂ he₂ tasks₁ tasks₂ ht₁ ht₂ x id
    obtain ⟨hsel₁, rfl⟩ := distributeSingleCase_balance hmode ht₁
    obtain ⟨hsel₂, rfl⟩ := distributeSingleCase_balance hmode ht₂
    have hperm₁ : (selectOnlineAgents order₁ targetGroup targetAgents).Perm
      (selectOnlineAgents entries targetGroup targetAgents) := h₁.filter _
    have hperm₂ : (selectOnlineAgents order₂ targetGroup targetAgents).Perm
      (selectOnlineAgents entries targetGroup targetAgents) := h₂.filter _
    rw [placedOn_iff, placedOn_iff, hs₁, he₁, hs₂, he₂, hperm₁.length_eq, hperm₂.length_eq]
    rcases hfixed with hone | ⟨hwrap, habove⟩
    · -- a list of one agent has one order
      have hsame : selectOnlineAgents order₁ targetGroup targetAgents =
          selectOnlineAgents order₂ targetGroup targetAgents := by
        obtain ⟨agent, hagent⟩ := length_eq_one_iff.mp
          (show (selectOnlineAgents order₂ targetGroup targetAgents).length = 1 by
            have := length_pos_of_ne_nil hsel₂
            have := hperm₂.length_eq
            omega)
        rw [hagent]
        exact perm_singleton.mp (hagent ▸ hperm₁.trans hperm₂.symm)
      rw [hsame]
    · have hpos : 0 < (selectOnlineAgents entries targetGroup targetAgents).length := by
        have := length_pos_of_ne_nil hsel₁
        have := hperm₁.length_eq
        omega
      have hnone : ∀ order : List AgentEntry, (selectOnlineAgents order targetGroup
          targetAgents).Perm (selectOnlineAgents entries targetGroup targetAgents) →
          ¬ ∃ i agent, (selectOnlineAgents order targetGroup targetAgents)[i]? = some agent ∧
            agent.id = id ∧ ShareOf openIDStart openIDEnd
              (selectOnlineAgents entries targetGroup targetAgents).length i x.toInt := by
        intro order hperm h
        obtain ⟨i, agent, hget, -, hx⟩ := h
        have hi := (List.getElem?_eq_some_iff.mp hget).1
        exact nothing_sent hne hpos hn hwrap habove (hperm.length_eq ▸ hi) _ hx
      exact ⟨fun h => absurd h (hnone order₁ hperm₁), fun h => absurd h (hnone order₂ hperm₂)⟩

/-- With the online agent of the group alone, every account is on it in every order. -/
theorem balance_stable_group : StablePlacement twoAgents "g" [] 0 10 :=
  (balance_stable_iff twoAgents "g" [] 0 10 (by decide) (by decide) (by decide)).mpr
    (.inl (by decide))

/-- With two agents, the accounts move when the map is ranged over in another order. -/
theorem balance_moves_accounts : ¬ StablePlacement twoAgents "" [] 0 10 := by
  refine not_stable (by decide) (by decide) (by decide) (by decide) ?_
  intro hfixed
  rcases hfixed with hone | ⟨hwrap, -⟩
  · exact absurd hone (by decide)
  · exact hwrap (by unfold DividendFits; decide)

end Robot.Mode
