import Robot.Mode.Submission

/-!
# What a stop can and cannot rely on

Two things one would like of `handleStopTask`, and when they hold.

* **It acts on the live run** (`StopsActOnLive`): as long as the goroutine of a submission is
  running, the two maps name that submission under its report id. The id comes from the
  caller and nothing refuses one that is in use, so a second submission takes the entries over,
  and the goroutine that ends first deletes the other's cancel function; a delete takes the
  status away from under a running goroutine. `KeepsIdsApart` asks that submits and deletes
  leave the ids of live submissions alone, and it is exact (`stops_act_on_live_iff`).

* **The status is final** (`KeepsFinal`): what has left `running` does not change. A stop that
  has passed its check writes `stopped` whatever has happened since, and the goroutine, which
  the same stop has made to fail, writes `error` or `done` whatever is there. One of the two
  writes comes second and changes a final status. So a status is final when no stop passes its
  check, and on a run that has come to its end, only then (`status_final_iff`).
-/

namespace Robot.Mode

open Robot.Lib Function

variable {s t : SubmissionBook} {a : SubmitAction}

/-! ## Acting on the live run -/

/-- The maps name every submission whose goroutine is running. -/
def StopsActOnLive (s : SubmissionBook) : Prop :=
  ∀ n, (s.subs n).pc.isLive = true →
    s.tasks (s.subs n).report = some n ∧ s.taskCancels (s.subs n).report = some n

/-- No submit and no delete meets the id of a live submission, and a goroutine starts only
while its submission is the one in `tasks`. -/
structure KeepsIdsApart (s : SubmissionBook) (a : SubmitAction) : Prop where
  submit : ∀ report, a = .handleSubmitTask report → ∀ n, (s.subs n).pc.isLive = true →
    (s.subs n).report ≠ report
  start : ∀ n, a = .startGoroutine n → (s.subs n).pc = .registered →
    s.tasks (s.subs n).report = some n
  delete : ∀ report, a = .deleteReport report → ∀ n, (s.subs n).pc.isLive = true →
    (s.subs n).report ≠ report

variable {n : ℕ}

/-- A live submission was live before the step, and the step is not its last one, or its
goroutine starts with it. -/
theorem SubmitStepped.live (h : SubmitStepped s a t) (hlive : (t.subs n).pc.isLive = true) :
    (t.subs n).report = (s.subs n).report ∧
      ((s.subs n).pc.isLive = true ∧ a ≠ .dropCancel n ∨ a = .startGoroutine n) := by
  have hm := h.sub n
  generalize t.subs n = sub at hm hlive
  cases hm with
  | kept _ hn =>
    refine ⟨rfl, .inl ⟨hlive, ?_⟩⟩
    intro ha
    rw [ha] at hn
    exact hn rfl
  | submitted | dropped | ended => cases hlive
  | started hpc => exact ⟨rfl, .inr rfl⟩
  | distributed _ hpc | aggregated _ hpc | failed _ hpc | completed hpc =>
    refine ⟨rfl, .inl ⟨?_, nofun⟩⟩
    rw [hpc]
    rfl
  | cancelled | stopped => exact ⟨rfl, .inl ⟨hlive, nofun⟩⟩

/-- **One step** that keeps the ids apart. -/
theorem StopsActOnLive.step (hs : StopsActOnLive s) (ha : KeepsIdsApart s a)
    (h : s.step a = some t) : StopsActOnLive t := by
  have hstepped := SubmissionBook.stepped h
  intro n hlive
  obtain ⟨hreport, hbefore⟩ := hstepped.live hlive
  rw [hreport, hstepped.tasks, hstepped.cancels]
  rcases hbefore with ⟨hlive', hlast⟩ | rfl
  · obtain ⟨htask, hcancel⟩ := hs n hlive'
    refine ⟨?_, ?_⟩
    · unfold SubmissionBook.tasksAfter
      split
      · next report =>
        rw [update_of_ne (ha.submit report rfl n hlive')]
        exact htask
      · next report =>
        rw [update_of_ne (ha.delete report rfl n hlive')]
        exact htask
      · exact htask
    · -- two submissions with one id cannot both be the one in `tasks`
      have hother : ∀ m, s.tasks (s.subs m).report = some m →
          (s.subs n).report = (s.subs m).report → m = n := by
        intro m hm heq
        rw [heq, hm] at htask
        exact Option.some.inj htask
      unfold SubmissionBook.cancelsAfter
      split
      · next m =>
        have hpc := hstepped.registered.1
        rw [update_of_ne]
        · exact hcancel
        · intro heq
          have hmn := hother m (ha.start m rfl hpc) heq
          subst hmn
          rw [hpc] at hlive'
          cases hlive'
      · next m =>
        have hpc := hstepped.deferring
        rw [update_of_ne]
        · exact hcancel
        · intro heq
          have hm : (s.subs m).pc.isLive = true := by
            rw [hpc]
            rfl
          exact hlast (congrArg SubmitAction.dropCancel (hother m (hs m hm).1 heq))
      · exact hcancel
  · exact ⟨ha.start n rfl hstepped.registered.1, update_self ..⟩

/-- A submit or a delete under the id of a live submission takes its status out of `tasks`. -/
theorem not_actOnLive_of_taken (h : SubmitStepped s a t) (hn : n < s.count)
    (hlive : (s.subs n).pc.isLive = true)
    (ha : a = .handleSubmitTask (s.subs n).report ∨ a = .deleteReport (s.subs n).report) :
    ¬ StopsActOnLive t := by
  intro hgood
  have hsub : t.subs n = s.subs n := by
    have hm := h.sub n
    generalize t.subs n = sub at hm
    rcases ha with rfl | rfl
    · cases hm with
      | kept => rfl
      | submitted _ hn' => omega
    · cases hm with
      | kept => rfl
  have htask := (hgood n (hsub ▸ hlive)).1
  rw [hsub, h.tasks] at htask
  rcases ha with rfl | rfl
  · rw [show s.tasksAfter _ = update _ _ _ from rfl, update_self] at htask
    cases htask
    exact Nat.lt_irrefl _ hn
  · rw [show s.tasksAfter _ = update _ _ _ from rfl, update_self] at htask
    cases htask

/-- A goroutine that starts while another submission is in `tasks` is live without its entry. -/
theorem not_actOnLive_of_started (h : SubmitStepped s (.startGoroutine n) t)
    (htask : s.tasks (s.subs n).report ≠ some n) : ¬ StopsActOnLive t := by
  intro hgood
  have hsub := h.registered.2
  have hentry := (hgood n (by rw [hsub]; rfl)).1
  rw [hsub, h.tasks] at hentry
  exact htask hentry

/-- A step that does not keep the ids apart leaves a live submission without its entry. -/
theorem KeepsIdsApart.of_not (hs : Numbered s) (ha : ¬ KeepsIdsApart s a) :
    ∃ t, s.step a = some t ∧ ¬ StopsActOnLive t := by
  by_cases htaken : ∃ n, (s.subs n).pc.isLive = true ∧
      (a = .handleSubmitTask (s.subs n).report ∨ a = .deleteReport (s.subs n).report)
  · obtain ⟨n, hlive, hn⟩ := htaken
    have hborn : n < s.count := by
      refine hs.submitted n fun hpc => ?_
      rw [hpc] at hlive
      cases hlive
    obtain ⟨t, ht⟩ : ∃ t, s.step a = some t := by
      rcases hn with rfl | rfl
      · exact ⟨_, rfl⟩
      · exact ⟨_, rfl⟩
    exact ⟨t, ht, not_actOnLive_of_taken (SubmissionBook.stepped ht) hborn hlive hn⟩
  by_cases hstart : ∃ n, a = .startGoroutine n ∧ (s.subs n).pc = .registered ∧
      s.tasks (s.subs n).report ≠ some n
  · obtain ⟨n, rfl, hpc, htask⟩ := hstart
    obtain ⟨t, ht⟩ : ∃ t, s.step (.startGoroutine n) = some t := by
      simp [SubmissionBook.step, hpc]
    exact ⟨t, ht, not_actOnLive_of_started (SubmissionBook.stepped ht) htask⟩
  · refine absurd ⟨?_, ?_, ?_⟩ ha
    · intro report hr n hlive heq
      exact htaken ⟨n, hlive, .inl (heq ▸ hr)⟩
    · intro n hn hpc
      by_contra htask
      exact hstart ⟨n, hn, hpc, htask⟩
    · intro report hr n hlive heq
      exact htaken ⟨n, hlive, .inr (heq ▸ hr)⟩

theorem StopsActOnLive.init : StopsActOnLive .init := fun _ hlive => by cases hlive

/-- **A stop acts on the live run exactly when ids are kept apart**: in every state of a run the
two maps name each submission whose goroutine is running, if and only if no submit and no
delete of the run meets the id of a live submission and each goroutine starts while its
submission is the one in `tasks`. -/
theorem stops_act_on_live_iff (as : List SubmitAction) :
    Throughout SubmissionBook.step StopsActOnLive .init as ↔
      Along SubmissionBook.step KeepsIdsApart .init as := by
  constructor
  · exact along_of_throughout (fun _ _ _ hs => hs.step) (fun _ _ => KeepsIdsApart.of_not) as
      Numbered.init
  · exact throughout_of_inv (fun _ hs => hs) (fun _ _ _ hs ha => hs.step ha) as StopsActOnLive.init

/-- A second submission with the id of one that is still running. The first then ends, and its
deferred delete takes the cancel function of the second. -/
def idReused : List SubmitAction :=
  [.handleSubmitTask "r", .startGoroutine 0, .handleSubmitTask "r", .startGoroutine 1,
    .distributed 0 none, .aggregated 0 none, .writeOutcome 0, .dropCancel 0]

/-- The second submission is distributing, and no stop will find its cancel function. -/
theorem reused_id_loses_cancel :
    ∃ s, run SubmissionBook.step .init idReused = some s ∧
      (s.subs 1).pc = .distributing ∧ s.taskCancels (s.subs 1).report = none ∧
      ¬ StopsActOnLive s := by
  refine ⟨_, rfl, rfl, rfl, fun hgood => ?_⟩
  have hentry := (hgood 1 rfl).2
  cases hentry

/-! ## The status is final -/

/-- The step leaves the status of submission `n` alone once it is not `running`. -/
def KeepsFinal (n : ℕ) (s : SubmissionBook) (a : SubmitAction) : Prop :=
  ∀ t, s.step a = some t → n < s.count → (s.subs n).status ≠ .running →
    (t.subs n).status = (s.subs n).status

/-- The step is not a stop that sees submission `n` running. -/
def NoStopPasses (n : ℕ) (s : SubmissionBook) (a : SubmitAction) : Prop :=
  ∀ k cancel, a = .checkRunning k → s.stops k = .looked n cancel → (s.subs n).status ≠ .running

/-- No stop has seen submission `n` running, and its status is `running` until its goroutine
writes the outcome. -/
structure Unstopped (n : ℕ) (s : SubmissionBook) : Prop where
  stops : ∀ k, (s.stops k).accepted n = false
  running : (s.subs n).pc.isPending = true → (s.subs n).status = .running

theorem Unstopped.init (n : ℕ) : Unstopped n .init := ⟨fun _ => rfl, fun h => by cases h⟩

theorem Unstopped.not_cancelled (hs : Unstopped n s) (k : ℕ) : s.stops k ≠ .cancelled n := by
  intro hk
  have hstop := hs.stops k
  rw [hk] at hstop
  simp [StopPc.accepted] at hstop

theorem Unstopped.step (hs : Unstopped n s) (ha : NoStopPasses n s a)
    (h : s.step a = some t) : Unstopped n t := by
  have hstepped := SubmissionBook.stepped h
  refine ⟨?_, ?_⟩
  · intro k
    have hm := hstepped.stop k
    generalize t.stops k = pc at hm
    cases hm with
    | kept => exact hs.stops k
    | looked | notFound | notRunning => rfl
    | passed st cancel hk hst =>
      refine beq_eq_false_iff_ne.mpr fun hn => ?_
      subst hn
      exact ha k cancel rfl hk hst
    | cancelled st cancel hk =>
      have hbefore := hs.stops k
      rw [hk] at hbefore
      exact hbefore
    | written st hk =>
      have hbefore := hs.stops k
      rw [hk] at hbefore
      exact hbefore
  · have hm := hstepped.sub n
    generalize t.subs n = sub at hm
    intro hpending
    cases hm with
    | kept | cancelled => exact hs.running hpending
    | submitted => rfl
    | started hpc | distributed _ hpc | aggregated _ hpc =>
      refine hs.running ?_
      rw [hpc]
      rfl
    | failed | completed | dropped | ended => cases hpending
    | stopped k hk => exact absurd hk (hs.not_cancelled k)

/-- Without a stop that has seen it running, the one write of the outcome finds `running`. -/
theorem Unstopped.keepsFinal (hs : Unstopped n s) : KeepsFinal n s a := by
  intro t h hn hfinal
  have hm := (SubmissionBook.stepped h).sub n
  generalize t.subs n = sub at hm
  cases hm with
  | kept | started | distributed | aggregated | dropped | ended | cancelled => rfl
  | submitted _ hn' => omega
  | failed _ hpc | completed hpc =>
    refine absurd (hs.running ?_) hfinal
    rw [hpc]
    rfl
  | stopped k hk => exact absurd hk (hs.not_cancelled k)

/-- The goroutine has written its outcome. -/
def SubmitPc.wroteOutcome : SubmitPc → Bool
  | .deferring | .cancelling | .ended => true
  | .notSubmitted | .registered | .distributing | .aggregating | .failing _ | .completing => false

/-- A stop that has seen submission `n` running and has not written `stopped` yet. -/
def StopPc.underWay (n : ℕ) : StopPc → Bool
  | .passed st _ | .cancelled st => st == n
  | .looked _ _ | .written _ | .refused _ => false

/-- Each write that has been made to the status of submission `n` is still there. -/
structure WritesStand (n : ℕ) (s : SubmissionBook) : Prop where
  numbered : Numbered s
  outcome : (s.subs n).pc.wroteOutcome = true →
    (s.subs n).status = .error ∨ (s.subs n).status = .done
  written : ∀ k, s.stops k = .written n → n < s.count ∧ (s.subs n).status = .stopped

theorem WritesStand.init (n : ℕ) : WritesStand n .init :=
  ⟨Numbered.init, (fun h => by cases h), (fun _ h => by cases h)⟩

/-- The goroutine had written its outcome before, or writes it with this step. -/
theorem SubMoved.wroteOutcome {sub : Submission} (h : SubMoved s n a sub)
    (hpc : sub.pc.wroteOutcome = true) :
    (s.subs n).pc.wroteOutcome = true ∨ sub.status = .error ∨ sub.status = .done := by
  cases h with
  | kept | cancelled | stopped => exact .inl hpc
  | submitted | started => cases hpc
  | distributed err | aggregated err =>
    cases err with
    | none => cases hpc
    | some err => cases hpc
  | failed => exact .inr (.inl rfl)
  | completed => exact .inr (.inr rfl)
  | dropped hpc' | ended hpc' =>
    refine .inl ?_
    rw [hpc']
    rfl

theorem WritesStand.step (hs : WritesStand n s) (ha : KeepsFinal n s a) (h : s.step a = some t) :
    WritesStand n t := by
  have hstepped := SubmissionBook.stepped h
  refine ⟨hs.numbered.step h, ?_, ?_⟩
  · intro hpc
    rcases (hstepped.sub n).wroteOutcome hpc with hbefore | hnow
    · have hstatus := hs.outcome hbefore
      have hborn : n < s.count := by
        refine hs.numbered.submitted n fun hpc' => ?_
        rw [hpc'] at hbefore
        cases hbefore
      rw [ha t h hborn (by rcases hstatus with h' | h' <;> rw [h'] <;> nofun)]
      exact hstatus
    · exact hnow
  · intro k hk
    have hm := hstepped.stop k
    rw [hk] at hm
    generalize hpc : StopPc.written n = pc at hm
    cases hm with
    | kept =>
      obtain ⟨hborn, hstatus⟩ := hs.written k hpc.symm
      refine ⟨Nat.lt_of_lt_of_le hborn hstepped.count_le, ?_⟩
      rw [ha t h hborn (by rw [hstatus]; nofun)]
      exact hstatus
    | looked | notFound | passed | notRunning | cancelled => cases hpc
    | written st hk' =>
      cases hpc
      refine ⟨Nat.lt_of_lt_of_le (hs.numbered.cancelled k n hk') hstepped.count_le, ?_⟩
      simp only [SubmissionBook.step, hk'] at h
      cases h
      simp only [SubmissionBook.setStop, SubmissionBook.setSub, update_self]
      rfl

/-- A stop that has seen the submission running goes on to its write. -/
theorem SubmitStepped.accepted {k : ℕ} (h : SubmitStepped s a t) (hs : Numbered s)
    (hk : (s.stops k).accepted n = true) : (t.stops k).accepted n = true := by
  have hm := h.stop k
  generalize t.stops k = pc at hm
  cases hm with
  | kept => exact hk
  | looked _ _ hk' | notFound _ hk' =>
    rw [hs.requests k (Nat.le_of_eq hk'.symm)] at hk
    cases hk
  | passed _ _ hk' | notRunning _ _ hk' | cancelled _ _ hk' | written _ hk' =>
    rw [hk'] at hk
    first | exact hk | cases hk

/-- At the end of a run on which the status was final, no stop has seen the submission running:
its write and that of the goroutine would both be there. -/
theorem WritesStand.none_accepted {as : List SubmitAction} (hs : WritesStand n s)
    (hrun : run SubmissionBook.step s as = some t) (hfinal : Along SubmissionBook.step (KeepsFinal n) s as)
    (hended : (t.subs n).pc = .ended) (hstops : ∀ k, (t.stops k).underWay n = false) (k : ℕ) :
    (s.stops k).accepted n = false := by
  by_contra hk
  have hk' : (s.stops k).accepted n = true := by simpa using hk
  have hstep : ∀ s a s', WritesStand n s ∧ (s.stops k).accepted n = true → KeepsFinal n s a →
      s.step a = some s' → WritesStand n s' ∧ (s'.stops k).accepted n = true :=
    fun s a s' hs ha h =>
      ⟨hs.1.step ha h, (SubmissionBook.stepped h).accepted hs.1.numbered hs.2⟩
  obtain ⟨hstand, haccepted⟩ := run_inv hstep as ⟨hs, hk'⟩ hfinal hrun
  have hwritten : t.stops k = .written n := by
    have hnot := hstops k
    cases hpc : t.stops k with
    | written st =>
      rw [hpc] at haccepted
      rw [beq_iff_eq.mp haccepted]
    | passed st cancel | cancelled st =>
      rw [hpc] at haccepted hnot
      exact absurd (haccepted.symm.trans hnot) (by decide)
    | looked st cancel | refused msg =>
      rw [hpc] at haccepted
      cases haccepted
  have hstopped := (hstand.written k hwritten).2
  rcases hstand.outcome (by rw [hended]; rfl) with herror | hdone
  · rw [hstopped] at herror
    cases herror
  · rw [hstopped] at hdone
    cases hdone

theorem WritesStand.noStopPasses (as : List SubmitAction) :
    ∀ {s : SubmissionBook}, WritesStand n s → run SubmissionBook.step s as = some t →
      Along SubmissionBook.step (KeepsFinal n) s as → (t.subs n).pc = .ended →
      (∀ k, (t.stops k).underWay n = false) → Along SubmissionBook.step (NoStopPasses n) s as := by
  induction as with
  | nil => intro s _ _ _ _ _; trivial
  | cons a as ih =>
    intro s hs hrun hfinal hended hstops
    obtain ⟨m, hm, hrest⟩ := run_cons.mp hrun
    have hstand : WritesStand n m := hs.step hfinal.1 hm
    refine ⟨?_, ?_⟩
    · intro k cancel ha hk hrunning
      have hnone := hstand.none_accepted hrest (hfinal.2 m hm) hended hstops k
      subst ha
      simp only [SubmissionBook.step, hk, if_pos hrunning] at hm
      cases hm
      simp [SubmissionBook.setStop, StopPc.accepted] at hnone
    · intro m' hm'
      rw [hm] at hm'
      cases hm'
      exact ih hstand hrest (hfinal.2 m hm) hended hstops

/-- **The status of a submission is final exactly when no stop sees it running.** On every run on
which no stop passes its check for submission `n`, the status of `n` does not change once it
has left `running`. And on a run that has come to its end, with the goroutine of `n` ended and
no stop of `n` before its write, this is the only way. -/
theorem status_final_iff (n : ℕ) (as : List SubmitAction) :
    (Along SubmissionBook.step (NoStopPasses n) .init as →
      Along SubmissionBook.step (KeepsFinal n) .init as) ∧
    ∀ t, run SubmissionBook.step .init as = some t → (t.subs n).pc = .ended →
      (∀ k, (t.stops k).underWay n = false) →
      (Along SubmissionBook.step (KeepsFinal n) .init as ↔
        Along SubmissionBook.step (NoStopPasses n) .init as) := by
  have hif : Along SubmissionBook.step (NoStopPasses n) .init as →
      Along SubmissionBook.step (KeepsFinal n) .init as :=
    along_of_kept (fun _ _ _ hs ha => hs.step ha) (fun _ _ hs _ => hs.keepsFinal) as
      (Unstopped.init n)
  refine ⟨hif, ?_⟩
  intro t hrun hended hstops
  exact ⟨fun hfinal => (WritesStand.init n).noStopPasses as hrun hfinal hended hstops, hif⟩

/-- A stop comes while the lines are being distributed; the cancelled distribution fails. -/
def stoppedThenFails : List SubmitAction :=
  [.handleSubmitTask "r", .startGoroutine 0] ++ stopSteps "r" 0 ++
    [.distributed 0 (some "task cancelled")]

/-- The task was reported `stopped`, and the goroutine then makes it an `error`. -/
theorem stopped_becomes_error :
    ∃ s t, run SubmissionBook.step .init stoppedThenFails = some s ∧
      (s.subs 0).status = .stopped ∧ s.step (.writeOutcome 0) = some t ∧
      (t.subs 0).status = .error ∧ ¬ KeepsFinal 0 s (.writeOutcome 0) := by
  refine ⟨_, _, rfl, rfl, rfl, rfl, fun hfinal => ?_⟩
  have hkept := hfinal _ rfl (by decide) (by decide)
  cases hkept

end Robot.Mode
