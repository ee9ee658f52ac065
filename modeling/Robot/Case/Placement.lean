import Robot.Case.Dispatch

/-!
# Whose holder is where

A holder is only ever in the channel, the hand or a task of the worker its user belongs to
(`Housed`), and by then the user's position has been stored. As long as the cell of the
holder still has that position, `onFinishFunc` finds the right record. `Placed` is the two
facts together. A run keeps it by its own steps (`Placed.step`), whatever they are; another
run that stores something else into one of these cells is what can break it
(`Placed.frame`).
-/

namespace Robot.Case

open Robot.Lib Function List

/-- Every user below this has had its position stored. -/
def RunPlan.stored (plan : RunPlan) : MainPc → Nat
  | .setup i => i
  | .enqueue i => i + 1
  | _ => plan.userCount

/-- `holder` is the holder of one of the first `n` users, and that user is worker `w`'s. -/
def RunPlan.IsUser (plan : RunPlan) (n w : Nat) (holder : String) : Prop :=
  ∃ i < n, i % plan.workers = w ∧ holder = plan.openId i

theorem RunPlan.IsUser.mono {plan : RunPlan} {n m w : Nat} {holder : String} (hnm : n ≤ m)
    (h : plan.IsUser n w holder) : plan.IsUser m w holder := by
  obtain ⟨i, hi, hu⟩ := h
  exact ⟨i, Nat.lt_of_lt_of_le hi hnm, hu⟩

/-- The task works for one of the first `n` users, and a position it has read is that
user's. -/
def Task.ForUser (t : Task) (plan : RunPlan) (n : Nat) : Prop :=
  ∃ i < n, i % plan.workers = t.worker ∧ t.holder = plan.openId i ∧ ∀ k, t.phase = .loaded k → k = i

namespace Exec

variable {plan : RunPlan} {index : String → Int} {s s' : Exec} {a : DispatchAct} {n : Nat}

/-- Every holder in the run is where it belongs. -/
structure Housed (plan : RunPlan) (n : Nat) (s : Exec) : Prop where
  channel : ∀ w, ∀ holder ∈ s.userHolderChannel w, plan.IsUser n w holder
  hand : ∀ w holder, s.pc w = .holding holder → plan.IsUser n w holder
  task : ∀ t ∈ s.tasks, t.ForUser plan n

theorem Housed.mono {m : Nat} (h : s.Housed plan n) (hnm : n ≤ m) : s.Housed plan m :=
  { channel := fun w holder hh => (h.channel w holder hh).mono hnm
    hand := fun w holder hh => (h.hand w holder hh).mono hnm
    task := fun t ht => by
      obtain ⟨i, hi, hu⟩ := h.task t ht
      exact ⟨i, Nat.lt_of_lt_of_le hi hnm, hu⟩ }

theorem Housed.push {w : Nat} {holder : String} (h : s.Housed plan n)
    (hu : plan.IsUser n w holder) : (s.push w holder).Housed plan n := by
  refine ⟨?_, h.hand, h.task⟩
  intro w' holder' hh
  by_cases hw : w' = w
  · subst hw
    simp only [Exec.push, update_self, mem_append, mem_singleton] at hh
    rcases hh with hh | hh
    · exact h.channel w' holder' hh
    · exact hh ▸ hu
  · simp only [Exec.push, update_of_ne hw] at hh
    exact h.channel w' holder' hh

theorem Housed.setPc {w : Nat} {pc : WorkerPc} (h : s.Housed plan n)
    (hu : ∀ holder, pc = .holding holder → plan.IsUser n w holder) :
    (s.setPc w pc).Housed plan n := by
  refine ⟨h.channel, ?_, h.task⟩
  intro w' holder hh
  by_cases hw : w' = w
  · subst hw
    simp only [Exec.setPc, update_self] at hh
    exact hu holder hh
  · simp only [Exec.setPc, update_of_ne hw] at hh
    exact h.hand w' holder hh

theorem Housed.setPhase {t : Task} {phase : TaskPhase} (h : s.Housed plan n) (ht : t ∈ s.tasks)
    (hu : ∀ i < n, t.holder = plan.openId i → ∀ k, phase = .loaded k → k = i) :
    (s.setPhase t phase).Housed plan n := by
  refine ⟨h.channel, h.hand, ?_⟩
  intro t' ht'
  rcases mem_cons.mp ht' with ht' | ht'
  · obtain ⟨i, hi, hw, ho, _⟩ := h.task t ht
    subst ht'
    exact ⟨i, hi, hw, ho, hu i hi ho⟩
  · exact h.task t' (mem_of_mem_erase ht')

/-- The cells hold the positions stored so far, and every holder is where it belongs. -/
structure Placed (plan : RunPlan) (index : String → Int) (s : Exec) : Prop where
  le : plan.stored s.main ≤ plan.userCount
  cell : ∀ i < plan.stored s.main, index (plan.openId i) = i
  housed : s.Housed plan (plan.stored s.main)

theorem placed_init (plan : RunPlan) (index : String → Int) : Exec.init.Placed plan index :=
  { le := Nat.zero_le _
    cell := fun i hi => absurd hi (Nat.not_lt_zero i)
    housed :=
      { channel := fun _ _ hh => absurd hh not_mem_nil
        hand := fun _ _ hh => WorkerPc.noConfusion hh
        task := fun _ ht => absurd ht not_mem_nil } }

/-- A write elsewhere does no harm. -/
theorem Placed.frame {index' : String → Int} (h : s.Placed plan index)
    (hcell : ∀ i < plan.stored s.main, index' (plan.openId i) = index (plan.openId i)) :
    s.Placed plan index' :=
  ⟨h.le, fun i hi => (hcell i hi).trans (h.cell i hi), h.housed⟩

/-- What a send of user `i`'s holder from the setup needs. -/
theorem isUser_of_lt {i : Nat} (hi : i < n) : plan.IsUser n (i % plan.workers) (plan.openId i) :=
  ⟨i, hi, rfl, rfl⟩

/-- No step takes a holder out of its place. -/
theorem Placed.housed_step (hp : s.Placed plan index) (hs : s.Stepped plan index a s') :
    s'.Housed plan (plan.stored s.main) := by
  have hh := hp.housed
  cases hs with
  | store | setupDone | fillRound | start | cancel => exact ⟨hh.channel, hh.hand, hh.task⟩
  | @enqueue i hm =>
    have hi : i < plan.stored s.main := by rw [hm]; exact Nat.lt_succ_self i
    have hpush := hh.push (isUser_of_lt hi)
    exact ⟨hpush.channel, hpush.hand, hpush.task⟩
  | @fill round i hm hb hi =>
    have hi' : i < plan.stored s.main := by rw [hm]; exact hi
    have hpush := hh.push (isUser_of_lt hi')
    exact ⟨hpush.channel, hpush.hand, hpush.task⟩
  | leave | check | waitAll => exact hh.setPc fun _ h => WorkerPc.noConfusion h
  | @receive w holder rest hw hpc hq =>
    have hmem : ∀ h ∈ holder :: rest, plan.IsUser (plan.stored s.main) w h := by
      rw [← hq]
      exact hh.channel w
    have hset : (s.setPc w (.holding holder)).Housed plan (plan.stored s.main) := by
      refine hh.setPc fun h hpc' => ?_
      exact WorkerPc.holding.inj hpc' ▸ hmem holder mem_cons_self
    refine ⟨?_, hset.hand, hset.task⟩
    intro w' h' hh'
    by_cases hw' : w' = w
    · subst hw'
      simp only [update_self] at hh'
      exact hmem h' (mem_cons_of_mem holder hh')
    · simp only [update_of_ne hw'] at hh'
      exact hh.channel w' h' hh'
  | @runTask w holder hw hpc =>
    have hset : (s.setPc w (if i64 (s.runTaskCount w + 1) ≥ s.totalTaskCount w then .draining
        else .top)).Housed plan (plan.stored s.main) :=
      hh.setPc fun h hpc' => by split at hpc' <;> exact WorkerPc.noConfusion hpc'
    refine ⟨hh.channel, hset.hand, ?_⟩
    intro t ht
    rcases mem_cons.mp ht with ht | ht
    · obtain ⟨i, hi, hiw, ho⟩ := hh.hand w holder hpc
      subst ht
      exact ⟨i, hi, hiw, ho, fun k hk => TaskPhase.noConfusion hk⟩
    · exact hh.task t ht
  | @load t ht hphase =>
    refine hh.setPhase ht fun i hi ho k hk => ?_
    rw [← TaskPhase.loaded.inj hk, ho]
    exact hp.cell i hi
  | @add t i ht hphase hi =>
    have hset : (s.setPhase t (if i64 (s.dispatchTaskCount i + 1) ≤ plan.runTime then .sending
        else .closing)).Housed plan (plan.stored s.main) :=
      hh.setPhase ht fun _ _ _ k hk => by split at hk <;> exact TaskPhase.noConfusion hk
    exact ⟨hset.channel, hset.hand, hset.task⟩
  | @send t ht hphase hr =>
    obtain ⟨i, hi, hw, ho, _⟩ := hh.task t ht
    exact (hh.push ⟨i, hi, hw, ho⟩).setPhase ht fun _ _ _ k hk => TaskPhase.noConfusion hk
  | close =>
    exact ⟨hh.channel, hh.hand, fun t ht => hh.task t (mem_of_mem_erase ht)⟩

/-- A step stores the position of the next user, or it stores nothing and no more users
count as stored than before. -/
theorem Stepped.stored (hle : plan.stored s.main ≤ plan.userCount)
    (hs : s.Stepped plan index a s') :
    (∃ i < plan.userCount, s.main = .setup i ∧ s'.main = .enqueue i ∧
      s.writes plan a = some (plan.openId i, i32 i)) ∨
    (s.writes plan a = none ∧ plan.stored s'.main = plan.stored s.main) := by
  cases hs with
  | @store i hm hi => exact Or.inl ⟨i, hi, hm, rfl, by simp [writes, hm, hi]⟩
  | @setupDone i hm hi =>
    rw [hm] at hle
    have hle' : i ≤ plan.userCount := hle
    refine Or.inr ⟨by simp [writes, hm, hi], ?_⟩
    rw [hm]
    show plan.userCount = i
    omega
  | enqueue hm | fill hm | fillRound hm | start hm =>
    exact Or.inr ⟨by simp [writes, hm], by rw [hm]; rfl⟩
  | _ => exact Or.inr ⟨rfl, rfl⟩

/-- **The run's own steps keep every holder in its place**, as long as the positions fit
into `int32`. -/
theorem Placed.step (hU : plan.userCount ≤ 2 ^ 31) (hp : s.Placed plan index)
    (hs : s.Stepped plan index a s') :
    s'.Placed plan (storeIndex index (s.writes plan a)) := by
  have hhoused := hp.housed_step hs
  rcases hs.stored hp.le with ⟨i, hi, hm, hm', hw⟩ | ⟨hw, hstored⟩
  · rw [hm] at hhoused
    have hcell := hp.cell
    rw [hm] at hcell
    rw [hw]
    refine ⟨by rw [hm']; exact hi, ?_, by rw [hm']; exact hhoused.mono (Nat.le_succ i)⟩
    intro j hj
    rw [hm'] at hj
    show update index (plan.openId i) (i32 i) (plan.openId j) = j
    by_cases hij : j = i
    · rw [hij, update_self]
      exact i32_of_lt (by omega) (by omega)
    · have hji : j < i := by
        have hj' : j < i + 1 := hj
        omega
      rw [update_of_ne fun h => hij (plan.openId_inj j (by omega) i hi h)]
      exact hcell j hji
  · rw [hw]
    refine ⟨by rw [hstored]; exact hp.le, ?_, by rw [hstored]; exact hhoused⟩
    intro j hj
    rw [hstored] at hj
    exact hp.cell j hj

end Exec

end Robot.Case
