import Mathlib

/-!
# Machines: runs of a partial step function

Every concurrent part of the robot is modelled the same way: a state record, an
action type that names the atomic steps of all threads, and a *partial* step
function `step s a : Option σ` that is `none` when the action is blocked in `s`
(a receive from an empty channel, a send into a full one, a thread that is not at
that program point). An interleaving is then just a list of actions, and "for
every interleaving" is a quantifier over lists.

This file is the shared plumbing:

* `run` executes an action list, `Along` says a condition holds at every step of
  it (a condition on the state *before* the step and on the action);
* `run_inv` is the invariant rule: what one step keeps, a run keeps;
* `Throughout` is "in every state of the run", and `throughout_of_inv` and
  `along_of_throughout` relate it to a condition on the steps in both directions;
* `run_append` cuts a run in two, `run_simulated` follows it in another machine;
* `run_bound` turns a strictly decreasing measure into a bound on the length.

Nothing here knows about the robot.
-/

namespace Robot.Lib

variable {σ α : Type}

/-- Execute the actions left to right; `none` as soon as one of them is blocked. -/
def run (step : σ → α → Option σ) : σ → List α → Option σ
  | s, [] => some s
  | s, a :: as =>
    match step s a with
    | none => none
    | some s' => run step s' as

@[simp] theorem run_nil (step : σ → α → Option σ) (s : σ) : run step s [] = some s := rfl

variable {step : σ → α → Option σ} {s t : σ} {P Q : σ → α → Prop} {G Inv J : σ → Prop}

/-- The first action of a successful run is enabled, and the rest runs from where it led. -/
theorem run_cons {a : α} {as : List α} :
    run step s (a :: as) = some t ↔ ∃ s', step s a = some s' ∧ run step s' as = some t := by
  constructor
  · intro h
    unfold run at h
    split at h
    · simp at h
    · next s' hs' => exact ⟨s', hs', h⟩
  · intro h
    obtain ⟨s', hs', h⟩ := h
    unfold run
    rw [hs']
    exact h

theorem run_append :
    ∀ {as bs : List α}, run step s (as ++ bs) = some t ↔
      ∃ m, run step s as = some m ∧ run step m bs = some t := by
  intro as
  induction as generalizing s with
  | nil => intro bs; simp
  | cons a as ih =>
    intro bs
    rw [List.cons_append, run_cons]
    constructor
    · intro h
      obtain ⟨s', hs', h⟩ := h
      obtain ⟨m, hm, hb⟩ := ih.mp h
      exact ⟨m, run_cons.mpr ⟨s', hs', hm⟩, hb⟩
    · intro h
      obtain ⟨m, hm, hb⟩ := h
      obtain ⟨s', hs', hm'⟩ := run_cons.mp hm
      exact ⟨s', hs', ih.mpr ⟨m, hm', hb⟩⟩

/-- What another machine does along a run, from what it does at each step. -/
def followAll {β : Type} (step : σ → α → Option σ) (follow : σ → α → List β) : σ → List α → List β
  | _, [] => []
  | s, a :: as =>
    follow s a ++
      match step s a with
      | none => []
      | some s' => followAll step follow s' as

/-- Simulation: a machine each of whose steps another machine follows is followed by it along every
run. -/
theorem run_simulated {τ β : Type} {step' : τ → β → Option τ} {R : σ → τ → Prop}
    {follow : σ → α → List β}
    (hsim : ∀ s a s' t, R s t → step s a = some s' →
      ∃ t', run step' t (follow s a) = some t' ∧ R s' t') :
    ∀ (as : List α) {s s' : σ} {t : τ}, R s t → run step s as = some s' →
      ∃ t', run step' t (followAll step follow s as) = some t' ∧ R s' t' := by
  intro as
  induction as with
  | nil =>
    intro s s' t hR h
    cases h
    exact ⟨t, rfl, hR⟩
  | cons a as ih =>
    intro s s' t hR h
    obtain ⟨m, hm, h⟩ := run_cons.mp h
    obtain ⟨u, hu, hRu⟩ := hsim s a m t hR hm
    obtain ⟨t', ht', hR'⟩ := ih hRu h
    unfold followAll
    rw [hm]
    exact ⟨t', run_append.mpr ⟨u, hu, ht'⟩, hR'⟩

/-- Some interleaving leads from `s` to `t`. -/
def Reaches (step : σ → α → Option σ) (s t : σ) : Prop := ∃ as, run step s as = some t

theorem Reaches.refl (s : σ) : Reaches step s s := ⟨[], rfl⟩

theorem Reaches.head {s' : σ} (a : α) (hs : step s a = some s')
    (h : Reaches step s' t) : Reaches step s t := by
  obtain ⟨as, has⟩ := h
  exact ⟨a :: as, run_cons.mpr ⟨s', hs, has⟩⟩

theorem Reaches.trans {m : σ} (h : Reaches step s m)
    (h' : Reaches step m t) : Reaches step s t := by
  obtain ⟨as, has⟩ := h
  obtain ⟨bs, hbs⟩ := h'
  exact ⟨as ++ bs, run_append.mpr ⟨m, has, hbs⟩⟩

/-- `P` holds at every step of the run: of the state the step starts from and of the action. -/
def Along (step : σ → α → Option σ) (P : σ → α → Prop) : σ → List α → Prop
  | _, [] => True
  | s, a :: as => P s a ∧ ∀ s', step s a = some s' → Along step P s' as

/-- The condition that asks nothing holds along every run. -/
theorem along_trivial :
    ∀ (as : List α) (s : σ), Along step (fun _ _ => True) s as := by
  intro as
  induction as with
  | nil => intro s; trivial
  | cons a as ih => intro s; exact ⟨trivial, fun s' _ => ih s'⟩

/-- A condition that each of the actions meets in every state. -/
theorem along_of_forall :
    ∀ (as : List α) (s : σ), (∀ a ∈ as, ∀ s, P s a) → Along step P s as := by
  intro as
  induction as with
  | nil => intro s _; trivial
  | cons a as ih =>
    intro s h
    exact ⟨h a List.mem_cons_self s,
      fun s' _ => ih s' fun b hb => h b (List.mem_cons_of_mem a hb)⟩

theorem along_and :
    ∀ (as : List α) {s : σ}, Along step P s as → Along step Q s as →
      Along step (fun s a => P s a ∧ Q s a) s as := by
  intro as
  induction as with
  | nil => intro s _ _; trivial
  | cons a as ih =>
    intro s hP hQ
    exact ⟨⟨hP.1, hQ.1⟩, fun s' hs' => ih (hP.2 s' hs') (hQ.2 s' hs')⟩

/-- A condition that keeps `J`, and with `J` gives another condition, gives it along a run. -/
theorem along_of_kept
    (hJ : ∀ s a s', J s → P s a → step s a = some s' → J s') (hPQ : ∀ s a, J s → P s a → Q s a) :
    ∀ (as : List α) {s : σ}, J s → Along step P s as → Along step Q s as := by
  intro as
  induction as with
  | nil => intro s _ _; trivial
  | cons a as ih =>
    intro s hs h
    exact ⟨hPQ s a hs h.1, fun s' hs' => ih (hJ s a s' hs h.1 hs') (h.2 s' hs')⟩

/-- Conditions that say the same wherever `J` holds say the same along a run on which one of
them keeps `J`. -/
theorem along_iff_of_kept
    (hJ : ∀ s a s', J s → P s a → step s a = some s' → J s') (hPQ : ∀ s a, J s → (P s a ↔ Q s a))
    (as : List α) {s : σ} (hs : J s) : Along step P s as ↔ Along step Q s as := by
  constructor
  · exact along_of_kept hJ (fun s a hs => (hPQ s a hs).mp) as hs
  · exact along_of_kept (fun s a s' hs hQ => hJ s a s' hs ((hPQ s a hs).mpr hQ))
      (fun s a hs => (hPQ s a hs).mpr) as hs

/-- Conditions that say the same wherever the invariant `J` holds say the same along a run. -/
theorem along_iff_of_inv
    (hJ : ∀ s a s', J s → step s a = some s' → J s') (hPQ : ∀ s a, J s → (P s a ↔ Q s a)) :
    ∀ (as : List α) {s : σ}, J s → (Along step P s as ↔ Along step Q s as) :=
  fun as _ hs => along_iff_of_kept (fun s a s' hs _ => hJ s a s' hs) hPQ as hs

/-- What holds wherever the invariant `J` holds, holds along every run. -/
theorem along_of_inv (hJ : ∀ s a s', J s → step s a = some s' → J s') (hP : ∀ s a, J s → P s a)
    (as : List α) {s : σ} (hs : J s) : Along step P s as :=
  (along_iff_of_inv hJ (fun s a h => ⟨fun _ => hP s a h, fun _ => trivial⟩) as hs).mp
    (along_trivial as s)

/-- A condition that can be tested at a step can be tested along a run. -/
instance Along.decidable {step : σ → α → Option σ} {P : σ → α → Prop}
    [∀ s a, Decidable (P s a)] : ∀ (as : List α) (s : σ), Decidable (Along step P s as)
  | [], _ => isTrue trivial
  | a :: as, s =>
    match hs : step s a with
    | none => decidable_of_iff (P s a)
        ⟨fun hP => ⟨hP, fun s' hs' => by rw [hs] at hs'; simp at hs'⟩, fun h => h.1⟩
    | some s' =>
      have : Decidable (Along step P s' as) := Along.decidable as s'
      decidable_of_iff (P s a ∧ Along step P s' as)
        ⟨fun h => ⟨h.1, fun t ht => by rw [hs] at ht; exact Option.some.inj ht ▸ h.2⟩,
          fun h => ⟨h.1, h.2 s' hs⟩⟩

/-- **The invariant rule.** An invariant that every step meeting `P` preserves
holds at the end of every run that meets `P` all along. -/
theorem run_inv (hstep : ∀ s a s', Inv s → P s a → step s a = some s' → Inv s') :
    ∀ (as : List α) {s t : σ}, Inv s → Along step P s as → run step s as = some t → Inv t := by
  intro as
  induction as with
  | nil =>
    intro s t hI _ h
    rw [run_nil, Option.some.injEq] at h
    exact h ▸ hI
  | cons a as ih =>
    intro s t hI hP h
    obtain ⟨s', hs', hrun⟩ := run_cons.mp h
    exact ih (hstep s a s' hI hP.1 hs') (hP.2 s' hs') hrun

/-- The invariant rule for runs under no condition. -/
theorem run_inv_all (hstep : ∀ s a s', Inv s → step s a = some s' → Inv s')
    (as : List α) {s t : σ} (hI : Inv s) (h : run step s as = some t) : Inv t :=
  run_inv (P := fun _ _ => True) (fun s a s' hs _ ha => hstep s a s' hs ha) as hI
    (along_trivial as s) h

/-- The invariant rule for an invariant that speaks about the steps taken so far. -/
theorem run_inv_history {Inv : List α → σ → Prop}
    (hstep : ∀ past s a s', Inv past s → P s a → step s a = some s' → Inv (past ++ [a]) s') :
    ∀ (as past : List α) {s t : σ}, Inv past s → Along step P s as → run step s as = some t →
      Inv (past ++ as) t := by
  intro as
  induction as with
  | nil =>
    intro past s t hI _ h
    cases h
    rw [List.append_nil]
    exact hI
  | cons a as ih =>
    intro past s t hI hP h
    obtain ⟨s', hs', h⟩ := run_cons.mp h
    have hnext := ih (past ++ [a]) (hstep past s a s' hI hP.1 hs') (hP.2 s' hs') h
    rw [List.append_assoc] at hnext
    exact hnext

/-- `G` holds in every state the run passes through, the first one included. -/
def Throughout (step : σ → α → Option σ) (G : σ → Prop) : σ → List α → Prop
  | s, [] => G s
  | s, a :: as => G s ∧ ∀ s', step s a = some s' → Throughout step G s' as

theorem throughout_head {as : List α} (h : Throughout step G s as) : G s := by
  cases as with
  | nil => exact h
  | cons a as => exact h.1

theorem throughout_last :
    ∀ {as : List α} {s t : σ}, Throughout step G s as → run step s as = some t → G t := by
  intro as
  induction as with
  | nil =>
    intro s t h hrun
    cases hrun
    exact h
  | cons a as ih =>
    intro s t h hrun
    obtain ⟨s', hs', hrun⟩ := run_cons.mp hrun
    exact ih (h.2 s' hs') hrun

/-- An invariant of the steps that meet `P` is seen in every state of a run that meets it. -/
theorem throughout_of_inv
    (hG : ∀ s, Inv s → G s) (hstep : ∀ s a s', Inv s → P s a → step s a = some s' → Inv s') :
    ∀ (as : List α) {s : σ}, Inv s → Along step P s as → Throughout step G s as := by
  intro as
  induction as with
  | nil => intro s hI _; exact hG s hI
  | cons a as ih =>
    intro s hI hP
    exact ⟨hG s hI, fun s' hs' => ih (hstep s a s' hI hP.1 hs') (hP.2 s' hs')⟩

/-- Conversely, where a step that misses `P` leads to a state outside `G`, a run that
stays in `G` meets `P` all along. `J` is what is known of every reachable state. -/
theorem along_of_throughout (hJ : ∀ s a s', J s → step s a = some s' → J s')
    (hbad : ∀ s a, J s → ¬ P s a → ∃ s', step s a = some s' ∧ ¬ G s') :
    ∀ (as : List α) {s : σ}, J s → Throughout step G s as → Along step P s as := by
  intro as
  induction as with
  | nil => intro s _ _; trivial
  | cons a as ih =>
    intro s hs hG
    refine ⟨?_, fun s' hs' => ih (hJ s a s' hs hs') (hG.2 s' hs')⟩
    refine Classical.byContradiction fun hP => ?_
    obtain ⟨s', hs', hbad'⟩ := hbad s a hs hP
    exact hbad' (throughout_head (hG.2 s' hs'))

/-- What the steps of a run contribute, each as seen from the state it starts in. -/
def sumAlong (step : σ → α → Option σ) (gain : σ → α → Int) : σ → List α → Int
  | _, [] => 0
  | s, a :: as =>
    gain s a + match step s a with
      | none => 0
      | some s' => sumAlong step gain s' as

/-- **The accounting rule.** A quantity that every step changes by its contribution is, at
the end of a run, changed by the sum of the contributions. -/
theorem run_account {Q : σ → Int} {gain : σ → α → Int}
    (hstep : ∀ s a s', Inv s → step s a = some s' → Inv s' ∧ Q s' = Q s + gain s a) :
    ∀ (as : List α) {s t : σ}, Inv s → run step s as = some t →
      Inv t ∧ Q t = Q s + sumAlong step gain s as := by
  intro as
  induction as with
  | nil =>
    intro s t hI h
    rw [run_nil, Option.some.injEq] at h
    subst h
    exact ⟨hI, (Int.add_zero _).symm⟩
  | cons a as ih =>
    intro s t hI h
    obtain ⟨s', hs', hrun⟩ := run_cons.mp h
    obtain ⟨hI', hQ⟩ := hstep s a s' hI hs'
    obtain ⟨hIt, hQt⟩ := ih hI' hrun
    refine ⟨hIt, ?_⟩
    rw [hQt, hQ]
    simp only [sumAlong, hs']
    omega

end Robot.Lib
