import Robot.Case.TaskPool
import Robot.Lib.Machine
import Robot.Lib.Mutex

/-!
# A pooled case task has a single owner

The safety of the pool of `Case/TaskPool`. Each object has a ghost `holder`: nobody while it
is in the pool, the worker while it is being prepared, then the run it was registered for.
Every program point of the worker and of a run has a *stake*: an object, and what is claimed
about it there (`stake`, `Claim`). `Owned` says that all claims hold, that `finishLock` has
one holder, and that every callback was called by its own run.

* `owns_unique`: two goroutines never own one object, since an object has one holder;
* `move` is the one rule behind every step: a goroutine moves on, an object changes, and only
  the claims on that object are in question;
* `truncates` is the delicate step: a run cuts `t.onFinish` back after its callback has put
  the object into the pool, when the worker may have it already. The lock keeps the worker
  from registering before that (`Claim.released`);
* timers have no stake. A `TimeoutKill` that wins the flag would need one, which is what the
  condition `timeoutLoses` excludes.
-/

namespace Robot.Case

open Robot.Base Robot.Lib Function

/-! ## Stakes -/

/-- What a goroutine at some program point claims about its object. -/
inductive Claim where
  /-- It is meant for this one; `finished` and `onFinish` are so, if given. -/
  | owns (holder : Holder) (finished : Option Bool) (onFinish : Option (List Nat))
  /-- It has been put back, and nobody has registered on it since. -/
  | released
  /-- The program point is never reached. -/
  | never

def Claim.Holds (c : CaseObject) : Claim → Prop
  | .owns holder finished onFinish =>
    c.holder = holder ∧ (∀ b, finished = some b → c.base.finished = b) ∧
      ∀ l, onFinish = some l → c.onFinish = l
  | .released => ∀ k, c.holder ≠ .run k
  | .never => False

/-- The stake of each program point: an object and the claim on it. From the `append` on, the
worker holds the object for the run it is about to start. -/
def stake (runs : Nat) : PoolActor → PoolPc → Option (Nat × Claim)
  | .worker, .idle => none
  | .worker, .reset o => some (o, .owns .worker none none)
  | .worker, .load o | .worker, .lockInit o | .worker, .loadLocked o | .worker, .append o =>
    some (o, .owns .worker (some false) (some []))
  | .worker, .unlockInit o | .worker, .initTaskId o | .worker, .invoke o =>
    some (o, .owns (.run runs) (some false) (some [runs]))
  | .run _, .idle | .run _, .done => none
  | .run k, .hook o _ | .run k, .finish o .stop | .run k, .finish o .cas =>
    some (o, .owns (.run k) (some false) (some [k]))
  | .run k, .finish o .lock | .run k, .finish o (.loop 1) | .run k, .finish o (.put 0) =>
    some (o, .owns (.run k) (some true) (some [k]))
  | .run _, .finish o (.loop 0) | .run _, .finish o .unlock => some (o, .released)
  | .timer _, .idle | .timer _, .done | .timer _, .pending _ | .timer _, .stopped _
  | .timer _, .loadFinished _ | .timer _, .kill _ | .timer _, .look _ | .timer _, .push _
  | .timer _, .finish _ .stop | .timer _, .finish _ .cas => none
  | _, _ => some (0, .never)

/-- The claim of a stake holds of its object. -/
def Met (objects : Nat → CaseObject) (x : Option (Nat × Claim)) : Prop :=
  ∀ o claim, x = some (o, claim) → claim.Holds (objects o)

/-- Which program points are between `finishLock.Lock()` and `Unlock()` of object `o`. -/
def PoolPc.inside (o : Nat) : PoolPc → Bool
  | .loadLocked o' | .append o' | .unlockInit o' | .callInit o' true | .putInit o' true => o' == o
  | .finish o' (.loop _) | .finish o' (.put _) | .finish o' .unlock => o' == o
  | _ => false

/-- Nobody holds an object that is in the pool or not made yet. -/
def CaseObject.Free (c : CaseObject) : Prop :=
  (c.base.pooled = true ∨ c.made = false) → c.holder = .nobody

/-- **Every object is in one place**, and what the goroutines claim about theirs holds. -/
structure PoolState.Owned (s : PoolState) : Prop where
  free : ∀ o, (s.objects o).Free
  met : ∀ w, Met s.objects (stake s.runs w (s.pcs w))
  mutex : ∀ o, Guarded (PoolPc.inside o) (s.objects o).finishLock s.pcs
  later : ∀ k, s.runs ≤ k → s.pcs (.run k) = .idle
  calls : ∀ fn w, (fn, w) ∈ s.calls → w = .run fn

/-- The fields that claims are about agree. -/
structure CaseObject.Same (c c' : CaseObject) : Prop where
  holder : c'.holder = c.holder
  finished : c'.base.finished = c.base.finished
  onFinish : c'.onFinish = c.onFinish
  pooled : c'.base.pooled = c.base.pooled
  made : c'.made = c.made

variable {c : CaseObject} {o runs : Nat} {w : PoolActor} {pc : PoolPc}

theorem CaseObject.Same.holds {c' : CaseObject} (h : c.Same c') {claim : Claim}
    (hc : claim.Holds c) : claim.Holds c' := by
  cases claim with
  | owns holder finished onFinish =>
    refine ⟨h.holder.trans hc.1, fun b hb => ?_, fun l hl => ?_⟩
    · rw [h.finished]
      exact hc.2.1 b hb
    · rw [h.onFinish]
      exact hc.2.2 l hl
  | released =>
    intro k
    rw [h.holder]
    exact hc k
  | never => exact hc

theorem CaseObject.Same.free {c' : CaseObject} (h : c.Same c') (hc : c.Free) : c'.Free := by
  unfold CaseObject.Free
  rw [h.holder, h.pooled, h.made]
  exact hc

theorem same_of_send {b : TaskActionBase Unit} {x : TaskActionResumeData Unit}
    (h : c.base.send x = some b) : c.Same { c with base := b } := by
  unfold TaskActionBase.send at h
  split at h
  next => cases h; exact ⟨rfl, rfl, rfl, rfl, rfl⟩
  next => cases h

theorem same_of_receive {r : TaskActionResumeData Unit × TaskActionBase Unit}
    (h : c.base.receive = some r) : c.Same { c with base := r.2.clearAwaitData } := by
  unfold TaskActionBase.receive at h
  split at h
  next => cases h; exact ⟨rfl, rfl, rfl, rfl, rfl⟩
  next => cases h

/-- A change of one object concerns the claims on that object only. -/
theorem Met.update {objects : Nat → CaseObject} {x : Option (Nat × Claim)} (h : Met objects x)
    (hc : ∀ claim, x = some (o, claim) → claim.Holds (objects o) → claim.Holds c) :
    Met (update objects o c) x := by
  intro o' claim hx
  by_cases ho : o' = o
  · subst ho
    rw [update_self]
    exact hc claim hx (h o' claim hx)
  · rw [update_of_ne ho]
    exact h o' claim hx

/-- The worker owns an object for itself or for the next run, a run for itself. -/
theorem stake_owns {holder : Holder} {finished : Option Bool} {onFinish : Option (List Nat)}
    (h : stake runs w pc = some (o, .owns holder finished onFinish)) :
    (w = .worker ∧ (holder = .worker ∨ holder = .run runs)) ∨ ∃ k, w = .run k ∧ holder = .run k := by
  unfold stake at h
  split at h <;> cases h <;> simp

/-- The worker holds an object for itself only while nothing is registered on it. -/
theorem stake_worker {finished : Option Bool}
    {l : List Nat} (h : stake runs w pc = some (o, .owns .worker finished (some l))) :
    l = [] := by
  unfold stake at h
  split at h <;> cases h <;> rfl

/-- Who has released an object is still inside its lock. -/
theorem inside_of_released (h : stake runs w pc = some (o, .released)) : pc.inside o = true := by
  unfold stake at h
  split at h <;> cases h <;> exact beq_self_eq_true o

/-- Between two runs starting, the stakes of the runs and the timers do not change. -/
theorem stake_runs {runs' : Nat} (hw : w ≠ .worker) (pc : PoolPc) :
    stake runs w pc = stake runs' w pc := by
  unfold stake
  split <;> first | rfl | exact absurd rfl hw

namespace PoolState.Owned

variable {s s' : PoolState} {w : PoolActor} {k o : Nat} {holder : Holder} {f : Option Bool}
  {p pc : PoolPc} {c : CaseObject} {claim : Claim} (h : s.Owned)
include h

/-- What the program point of a goroutine claims. -/
theorem claim_holds (hp : s.pcs w = p) (hw : stake s.runs w p = some (o, claim)) :
    claim.Holds (s.objects o) :=
  h.met w o claim (hp ▸ hw)

/-- No two goroutines own one object. -/
theorem owns_unique {w' : PoolActor} {holder' : Holder}
    {f' : Option Bool} {l l' : Option (List Nat)}
    (hw : stake s.runs w (s.pcs w) = some (o, .owns holder f l))
    (hw' : stake s.runs w' (s.pcs w') = some (o, .owns holder' f' l')) : w = w' := by
  have hsame : holder = holder' := (h.met w _ _ hw).1.symm.trans (h.met w' _ _ hw').1
  -- a run that owns something has been started, so it is not the one the worker prepares
  have hstarted : ∀ k {g : Option Bool} {m : Option (List Nat)} {x : Holder},
      stake s.runs (.run k) (s.pcs (.run k)) = some (o, .owns x g m) → k ≠ s.runs := by
    intro k g m x hk he
    rw [h.later k he.ge] at hk
    cases hk
  rcases stake_owns hw with ⟨rfl, hh⟩ | ⟨k, rfl, hh⟩
  · rcases stake_owns hw' with ⟨rfl, -⟩ | ⟨k', rfl, hh'⟩
    · rfl
    · rcases hh with hh | hh
      · rw [hsame, hh'] at hh
        cases hh
      · rw [hsame, hh'] at hh
        exact absurd (Holder.run.inj hh) (hstarted k' hw')
  · rcases stake_owns hw' with ⟨rfl, hh'⟩ | ⟨k', rfl, hh'⟩
    · rcases hh' with hh' | hh'
      · rw [← hsame, hh] at hh'
        cases hh'
      · rw [← hsame, hh] at hh'
        exact absurd (Holder.run.inj hh') (hstarted k hw)
    · rw [hsame, hh'] at hh
      rw [Holder.run.inj hh]

/-- **The rule for one step**: goroutine `w` goes to `pc` and object `o` becomes `c`. What is
left to say is that `c` is well placed, that the new claim of `w` and the claims of the others
on `o` hold, and what the step does to the lock. -/
theorem move (hfree : c.Free)
    (hw : Met (update s.objects o c) (stake s.runs w pc))
    (hothers : ∀ w' claim, w' ≠ w → stake s.runs w' (s.pcs w') = some (o, claim) →
      claim.Holds (s.objects o) → claim.Holds c)
    (hmutex : Guarded (PoolPc.inside o) c.finishLock (update s.pcs w pc))
    (hside : ∀ o', o' ≠ o → pc.inside o' = (s.pcs w).inside o')
    (hlater : ∀ k, w = .run k → k < s.runs) : (s.move w pc o c).Owned where
  free := (forall_update_iff s.objects fun _ c => c.Free).mpr
    ⟨hfree, fun o' _ => h.free o'⟩
  met := (forall_update_iff s.pcs fun w pc =>
      Met (update s.objects o c) (stake s.runs w pc)).mpr
    ⟨hw, fun w' hw' => (h.met w').update fun claim => hothers w' claim hw'⟩
  mutex := by
    refine (forall_update_iff s.objects fun o' c' =>
      Guarded (PoolPc.inside o') c'.finishLock (update s.pcs w pc)).mpr
      ⟨hmutex, fun o' ho' => (h.mutex o').stay (hside o' ho')⟩
  later := by
    intro k hk
    show update s.pcs w pc (.run k) = .idle
    rw [update_of_ne]
    · exact h.later k hk
    · intro he
      exact absurd (hlater k he.symm) (Nat.not_lt.mpr hk)
  calls := h.calls

variable {l : Option (List Nat)}

/-- A step of the owner: only those who have released the object may still have a claim. -/
theorem others_of_owns (hw : stake s.runs w (s.pcs w) = some (o, .owns holder f l))
    (hreleased : ∀ w', w' ≠ w → stake s.runs w' (s.pcs w') = some (o, .released) →
      ∀ k, c.holder ≠ .run k) :
    ∀ w' claim, w' ≠ w → stake s.runs w' (s.pcs w') = some (o, claim) →
      claim.Holds (s.objects o) → claim.Holds c := by
  intro w' claim hne hs hc
  cases claim with
  | owns holder' f' l' => exact absurd (h.owns_unique hs hw) hne
  | released => exact hreleased w' hne hs
  | never => exact hc

/-- A run that has a stake has been started. -/
theorem started {x : Nat × Claim} (hp : s.pcs w = p) (hw : stake s.runs w p = some x) :
    ∀ k, w = .run k → k < s.runs := by
  intro k hk
  subst hk hp
  refine Nat.lt_of_not_le fun hle => ?_
  rw [h.later k hle] at hw
  cases hw

/-- A step of the owner of an object. -/
theorem owner_moves (hp : s.pcs w = p) (hw : stake s.runs w p = some (o, .owns holder f l))
    (hpc : stake s.runs w pc = some (o, claim)) (hclaim : claim.Holds c) (hfree : c.Free)
    (hreleased : ∀ w', w' ≠ w → stake s.runs w' (s.pcs w') = some (o, .released) →
      ∀ k, c.holder ≠ .run k)
    (hmutex : Guarded (PoolPc.inside o) c.finishLock (update s.pcs w pc))
    (hside : ∀ o', o' ≠ o → pc.inside o' = p.inside o') : (s.move w pc o c).Owned := by
  subst hp
  refine h.move hfree ?_ (h.others_of_owns hw hreleased) hmutex hside (h.started rfl hw)
  intro o' claim' hx
  rw [hpc] at hx
  cases hx
  rw [update_self]
  exact hclaim

/-- A step of the owner that leaves the object where it is. -/
theorem owner_keeps (hp : s.pcs w = p) (hw : stake s.runs w p = some (o, .owns holder f l))
    (hpc : stake s.runs w pc = some (o, claim)) (hclaim : claim.Holds c)
    (hholder : c.holder = (s.objects o).holder)
    (hpooled : c.base.pooled = true → (s.objects o).base.pooled = true)
    (hmade : c.made = (s.objects o).made)
    (hmutex : Guarded (PoolPc.inside o) c.finishLock (update s.pcs w pc))
    (hside : ∀ o', o' ≠ o → pc.inside o' = p.inside o') : (s.move w pc o c).Owned := by
  refine h.owner_moves hp hw hpc hclaim ?_ ?_ hmutex hside
  · intro hc
    rw [hholder]
    exact h.free o (hc.imp hpooled hmade.symm.trans)
  · intro w' _ hs k
    rw [hholder]
    exact h.met w' o _ hs k

/-- The same when the lock is left alone. -/
theorem owner_updates (hp : s.pcs w = p) (hw : stake s.runs w p = some (o, .owns holder f l))
    (hpc : stake s.runs w pc = some (o, claim)) (hclaim : claim.Holds c)
    (hholder : c.holder = (s.objects o).holder)
    (hpooled : c.base.pooled = true → (s.objects o).base.pooled = true)
    (hmade : c.made = (s.objects o).made) (hlock : c.finishLock = (s.objects o).finishLock)
    (hside : ∀ o', pc.inside o' = p.inside o') : (s.move w pc o c).Owned := by
  refine h.owner_keeps hp hw hpc hclaim hholder hpooled hmade ?_ fun o' _ => hside o'
  subst hp
  rw [hlock]
  exact (h.mutex o).stay (hside o)

/-- A step that no claim notices. -/
theorem quiet
    (hp : s.pcs w = p) (hc : (s.objects o).Same c) (hlock : c.finishLock = (s.objects o).finishLock)
    (hstake : stake s.runs w pc = stake s.runs w p) (hside : ∀ o', pc.inside o' = p.inside o')
    (hlater : ∀ k, w = .run k → k < s.runs) : (s.move w pc o c).Owned := by
  subst hp
  refine h.move (hc.free (h.free o)) ?_ (fun _ _ _ _ => hc.holds) ?_ (fun o' _ => hside o') hlater
  · rw [hstake]
    exact (h.met w).update fun _ _ => hc.holds
  · rw [hlock]
    exact (h.mutex o).stay (hside o)

/-- Going on without touching an object. -/
theorem goto (hp : s.pcs w = p)
    (hstake : stake s.runs w pc = stake s.runs w p) (hside : ∀ o', pc.inside o' = p.inside o')
    (hlater : ∀ k, w = .run k → k < s.runs) : (s.goto w pc).Owned := by
  have hmove : s.goto w pc = s.move w pc 0 (s.objects 0) := by
    unfold PoolState.goto PoolState.move
    rw [update_eq_self]
  rw [hmove]
  exact h.quiet hp ⟨rfl, rfl, rfl, rfl, rfl⟩ rfl hstake hside hlater

/-- Stopping a timer: no claim is about a timer. -/
theorem stopTimeout (o : Nat) :
    PoolState.Owned { s with pcs := s.stopTimeout o } := by
  have hpc : ∀ w, s.stopTimeout o w = s.pcs w ∨
      ∃ j o', w = .timer j ∧ s.pcs w = .pending o' ∧ s.stopTimeout o w = .stopped o' := by
    intro w
    unfold PoolState.stopTimeout
    split
    next j =>
      split
      next o' hj =>
        split
        next => exact .inr ⟨j, o', rfl, hj, rfl⟩
        next => exact .inl hj.symm
      next => exact .inl rfl
    next => exact .inl rfl
  refine ⟨h.free, fun w => ?_, fun o' => (h.mutex o').congr fun w => ?_, fun k hk => ?_, h.calls⟩
  · show Met s.objects (stake s.runs w (s.stopTimeout o w))
    rcases hpc w with he | ⟨j, o', rfl, -, he⟩
    · rw [he]
      exact h.met w
    · rw [he]
      nofun
  · show (s.stopTimeout o w).inside o' = (s.pcs w).inside o'
    rcases hpc w with he | ⟨j, o'', rfl, hj, he⟩
    · rw [he]
    · rw [he, hj]
      rfl
  · exact h.later k hk

/-! ## The steps -/

theorem get (hidle : s.pcs .worker = .idle)
    (hget : (s.objects o).base.pooled = true ∨ (s.objects o).made = false) :
    (s.move .worker (.reset o) o { s.objects o with
      base := { (s.objects o).base with pooled := false }, made := true, holder := .worker }).Owned := by
  have hnobody := h.free o hget
  refine h.move nofun ?_ ?_ ((h.mutex o).stay (by rw [hidle]; rfl)) (fun o' _ => by rw [hidle]; rfl)
    nofun
  · intro o' claim hx
    cases hx
    rw [update_self]
    exact ⟨rfl, nofun, nofun⟩
  · intro w' claim _ hs hc
    cases claim with
    | owns holder f l =>
      have hholder : holder = .nobody := hc.1.symm.trans hnobody
      rcases stake_owns hs with ⟨-, hw | hw⟩ | ⟨k, -, hw⟩ <;> rw [hholder] at hw <;> cases hw
    | released => nofun
    | never => exact hc

/-- `workerPool.Invoke(task)`: the object goes over to its run. -/
theorem invoke (hp : s.pcs .worker = .invoke o) :
    PoolState.Owned { (s.goto .worker .idle).goto (.run s.runs) (.hook o false) with
      runs := s.runs + 1 } where
  free := h.free
  met := by
    refine (forall_update_iff (update s.pcs .worker .idle) fun w pc =>
      Met s.objects (stake (s.runs + 1) w pc)).mpr ⟨?_, fun w _ => ?_⟩
    · intro o' claim hx
      cases hx
      exact h.met .worker o _ (by rw [hp]; rfl)
    · by_cases hw : w = .worker
      · rw [hw, update_self]
        nofun
      · rw [update_of_ne hw, stake_runs hw]
        exact h.met w
  mutex := by
    intro o'
    have hrun : PoolActor.run s.runs ≠ .worker := nofun
    have hworker : Guarded (PoolPc.inside o') (s.objects o').finishLock
        (update s.pcs .worker .idle) := (h.mutex o').stay (by rw [hp]; rfl)
    refine hworker.stay ?_
    rw [update_of_ne hrun, h.later s.runs (Nat.le_refl _)]
    rfl
  later := by
    intro k hk
    have hk' : s.runs + 1 ≤ k := hk
    have hrun : PoolActor.run k ≠ .worker := nofun
    have hne : PoolActor.run k ≠ .run s.runs := fun he => by
      have := PoolActor.run.inj he
      omega
    show update (update s.pcs .worker .idle) (.run s.runs) _ (.run k) = .idle
    rw [update_of_ne hne, update_of_ne hrun]
    exact h.later k (by omega)
  calls := h.calls

/-- The worker's loop body. -/
theorem workerStep (hs : s.workerStep = some s') : s'.Owned := by
  unfold PoolState.workerStep at hs
  split at hs
  next o hp =>
    obtain rfl := Option.some.inj hs
    have hc := h.claim_holds hp rfl
    exact (h.stopTimeout o).owner_updates hp rfl rfl
      ⟨hc.1, fun b hb => Option.some.inj hb, fun l hl => Option.some.inj hl⟩ rfl nofun rfl rfl
      (fun _ => rfl)
  next o hp =>
    have hc := h.claim_holds hp rfl
    rw [hc.2.1 false rfl] at hs
    obtain rfl := Option.some.inj hs
    exact h.goto hp rfl (fun _ => rfl) nofun
  next o hp =>
    have hc := h.claim_holds hp rfl
    obtain ⟨hlock, hs⟩ := Option.ite_none_left_eq_some.mp hs
    obtain rfl := Option.some.inj hs
    have hfree := h.mutex o
    rw [Bool.eq_false_iff.mpr hlock] at hfree
    exact h.owner_keeps hp rfl rfl hc rfl id rfl (hfree.enter .worker)
      (fun o' ho' => beq_eq_false_iff_ne.mpr ho'.symm)
  next o hp =>
    have hc := h.claim_holds hp rfl
    rw [hc.2.1 false rfl] at hs
    obtain rfl := Option.some.inj hs
    exact h.goto hp rfl (fun _ => rfl) nofun
  next o hp =>
    obtain rfl := Option.some.inj hs
    have hc := h.claim_holds hp rfl
    refine h.owner_moves hp rfl rfl ⟨rfl, hc.2.1, fun l hl => ?_⟩ ?_ ?_
      ((h.mutex o).stay (congrArg (PoolPc.inside o) hp).symm) (fun _ _ => rfl)
    · rw [hc.2.2 [] rfl]
      exact Option.some.inj hl
    · exact fun hfree => absurd ((h.free o hfree).symm.trans hc.1) nofun
    · intro w' hne hs'
      exact absurd ((h.mutex o).one w' .worker (inside_of_released hs')
        (by rw [hp]; exact beq_self_eq_true o)) hne
  next o locked hp => exact (h.claim_holds hp rfl).elim
  next o locked hp => exact (h.claim_holds hp rfl).elim
  next o hp =>
    obtain rfl := Option.some.inj hs
    have hc := h.claim_holds hp rfl
    exact h.owner_keeps hp rfl rfl hc rfl id rfl
      ((h.mutex o).leave (by rw [hp]; exact beq_self_eq_true o) rfl)
      (fun o' ho' => (beq_eq_false_iff_ne.mpr ho'.symm).symm)
  next o hp =>
    obtain rfl := Option.some.inj hs
    have hc := h.claim_holds hp rfl
    exact h.owner_updates hp rfl rfl ⟨hc.1, fun b hb => Option.some.inj hb, hc.2.2⟩ rfl id rfl rfl
      (fun _ => rfl)
  next o hp =>
    obtain rfl := Option.some.inj hs
    exact h.invoke hp
  next => cases hs

/-- A run calls its own callback. -/
theorem called (k : Nat) :
    PoolState.Owned { s with calls := s.calls ++ [(k, .run k)] } := by
  refine ⟨h.free, h.met, h.mutex, h.later, fun fn w hmem => ?_⟩
  rcases List.mem_append.mp hmem with hmem | hmem
  · exact h.calls fn w hmem
  · cases List.mem_singleton.mp hmem
    rfl

/-- `t.onFinish = t.onFinish[:0]` of a run whose object is back in the pool, or out of it again:
whoever holds it now has not registered anything. -/
theorem truncates (hp : s.pcs (.run k) = .finish o (.loop 0)) :
    (s.move (.run k) (.finish o .unlock) o { s.objects o with onFinish := [] }).Owned := by
  have hw : stake s.runs (.run k) (s.pcs (.run k)) = some (o, .released) := by rw [hp]; rfl
  have hreleased : ∀ k, (s.objects o).holder ≠ .run k := h.met _ o _ hw
  refine h.move (h.free o) ?_ ?_ ((h.mutex o).stay (congrArg (PoolPc.inside o) hp).symm) ?_
    (h.started rfl hw)
  · intro o' claim hx
    cases hx
    rw [update_self]
    exact hreleased
  · intro w' claim _ hs hc
    cases claim with
    | owns holder f l =>
      refine ⟨hc.1, hc.2.1, fun x hx => ?_⟩
      have hholder : holder = .worker := by
        rcases stake_owns hs with ⟨-, hh | hh⟩ | ⟨k', -, hh⟩
        · exact hh
        · exact absurd (hc.1.trans hh) (hreleased _)
        · exact absurd (hc.1.trans hh) (hreleased _)
      rw [hholder, hx] at hs
      exact (stake_worker hs).symm
    | released => exact hc
    | never => exact hc
  · intro o' _
    rw [hp]
    rfl

/-- `Finish` by the run itself. -/
theorem finishStep {pc : FinishAt}
    (hp : s.pcs (.run k) = .finish o pc) (hs : s.finishStep (.run k) o pc = some s') :
    s'.Owned := by
  cases pc with
  | stop =>
    obtain rfl := Option.some.inj hs
    exact (h.stopTimeout o).goto hp rfl (fun _ => rfl)
      (h.started hp rfl)
  | cas =>
    have hc := h.claim_holds hp rfl
    simp only [PoolState.finishStep, hc.2.1 false rfl, Bool.false_eq_true, if_false] at hs
    obtain rfl := Option.some.inj hs
    exact h.owner_updates hp rfl rfl ⟨hc.1, fun b hb => Option.some.inj hb, hc.2.2⟩ rfl id rfl rfl
      (fun _ => rfl)
  | lock =>
    have hc := h.claim_holds hp rfl
    obtain ⟨hlock, hs⟩ := Option.ite_none_left_eq_some.mp hs
    obtain rfl := Option.some.inj hs
    have hfree := h.mutex o
    rw [Bool.eq_false_iff.mpr hlock] at hfree
    have hlen : (s.objects o).onFinish.length = 1 := by rw [hc.2.2 [k] rfl]; rfl
    rw [hlen]
    exact h.owner_keeps hp rfl rfl hc rfl id rfl (hfree.enter (.run k))
      (fun o' ho' => beq_eq_false_iff_ne.mpr ho'.symm)
  | loop index =>
    match index with
    | 0 =>
      obtain rfl := Option.some.inj hs
      exact h.truncates hp
    | 1 =>
      have hc := h.claim_holds hp rfl
      simp only [PoolState.finishStep, hc.2.2 [k] rfl, List.getElem?_cons_zero] at hs
      obtain rfl := Option.some.inj hs
      have hput : (s.goto (.run k) (.finish o (.put 0))).Owned := h.goto hp rfl (fun _ => rfl)
        (h.started hp rfl)
      exact hput.called k
    | index + 2 => exact (h.claim_holds hp rfl).elim
  | put index =>
    match index with
    | 0 =>
      obtain rfl := Option.some.inj hs
      exact h.owner_moves hp rfl rfl nofun (fun _ => rfl) (fun _ _ _ => nofun)
        ((h.mutex o).stay (congrArg (PoolPc.inside o) hp).symm) (fun _ _ => rfl)
    | index + 1 => exact (h.claim_holds hp rfl).elim
  | unlock =>
    obtain rfl := Option.some.inj hs
    have hw : stake s.runs (.run k) (s.pcs (.run k)) = some (o, .released) := by rw [hp]; rfl
    refine h.move (h.free o) nofun ?_
      ((h.mutex o).leave (by rw [hp]; exact beq_self_eq_true o) rfl) ?_ (h.started rfl hw)
    · exact fun _ _ _ _ => CaseObject.Same.holds ⟨rfl, rfl, rfl, rfl, rfl⟩
    · intro o' ho'
      rw [hp]
      exact (beq_eq_false_iff_ne.mpr ho'.symm).symm

/-- A timer has no stake and is never inside a lock. -/
theorem timer_outside (j : Nat) :
    stake s.runs (.timer j) (s.pcs (.timer j)) = none ∧
      ∀ o, (s.pcs (.timer j)).inside o = false := by
  have hmet := h.met (.timer j)
  cases hpc : s.pcs (.timer j) with
  | idle | done | pending o | stopped o | loadFinished o | kill o | look o | push o =>
    exact ⟨rfl, fun _ => rfl⟩
  | finish o pc =>
    rw [hpc] at hmet
    cases pc with
    | stop | cas => exact ⟨rfl, fun _ => rfl⟩
    | _ => exact (hmet 0 .never rfl).elim
  | _ =>
    rw [hpc] at hmet
    exact (hmet 0 .never rfl).elim

/-- Steps of `TimeoutKill`, on the condition that its `Finish` loses. -/
theorem timerStep {j : Nat}
    (hP : timeoutLoses s (.go (.timer j)) = true) (hs : s.timerStep j = some s') : s'.Owned := by
  unfold PoolState.timerStep at hs
  split at hs
  next o hp =>
    split at hs <;> cases hs <;> exact h.goto hp rfl (fun _ => rfl) nofun
  next o hp =>
    simp only at hs
    split at hs <;> cases hs
    · exact h.goto hp rfl (fun _ => rfl) nofun
    · exact h.quiet hp ⟨rfl, rfl, rfl, rfl, rfl⟩ rfl rfl (fun _ => rfl) nofun
  next o hp =>
    split at hs <;> cases hs <;> exact h.goto hp rfl (fun _ => rfl) nofun
  next o hp =>
    obtain ⟨b, hb, rfl⟩ := Option.map_eq_some_iff.mp hs
    exact h.quiet hp (same_of_send hb) rfl rfl (fun _ => rfl) nofun
  next o pc hp =>
    cases pc with
    | stop =>
      obtain rfl := Option.some.inj hs
      have hp' : s.stopTimeout o (.timer j) = .finish o .stop := by
        simp only [PoolState.stopTimeout, hp]
      exact (h.stopTimeout o).goto hp' rfl (fun _ => rfl) nofun
    | cas =>
      simp only [timeoutLoses, hp] at hP
      simp only [PoolState.finishStep, hP, if_true] at hs
      obtain rfl := Option.some.inj hs
      exact h.goto hp rfl (fun _ => rfl) nofun
    | _ => exact (h.claim_holds hp rfl).elim
  next => cases hs

/-- `SetAwaitData` may arm a timer. -/
theorem setAwaitData (timeout : Int) (hp : s.pcs (.run k) = .hook o false)
    (awaitData : TaskActionAwaitData) : (s.setAwaitData timeout k o awaitData).Owned := by
  unfold PoolState.setAwaitData
  simp only
  split
  next =>
    obtain ⟨hstake, hside⟩ := h.timer_outside k
    exact h.quiet rfl ⟨rfl, rfl, rfl, rfl, rfl⟩ rfl hstake.symm (fun o' => (hside o').symm) nofun
  next =>
    exact h.quiet hp ⟨rfl, rfl, rfl, rfl, rfl⟩ rfl rfl (fun _ => rfl)
      (h.started hp rfl)

/-- **One step keeps every object in one place**, if no `TimeoutKill` wins the flag by it. -/
theorem step {timeout : Int} {a : PoolAct}
    (hP : timeoutLoses s a = true) (hs : s.step timeout a = some s') : s'.Owned := by
  have hstarted : ∀ {k o b}, s.pcs (.run k) = .hook o b → ∀ k', PoolActor.run k = .run k' →
      k' < s.runs := fun hp => h.started hp rfl
  cases a with simp only [PoolState.step] at hs
  | get o =>
    obtain ⟨hget, hs⟩ := Option.ite_none_right_eq_some.mp hs
    obtain rfl := Option.some.inj hs
    exact h.get hget.1 hget.2
  | go w =>
    cases w with
    | worker => exact h.workerStep hs
    | run k =>
      dsimp only at hs
      split at hs
      next o pc hp => exact h.finishStep hp hs
      next => cases hs
    | timer j => exact h.timerStep hP hs
  | fire j =>
    split at hs
    next o hp =>
      obtain rfl := Option.some.inj hs
      exact h.goto hp rfl (fun _ => rfl) nofun
    next => cases hs
  | setAwaitData k awaitData =>
    split at hs
    next o hp =>
      obtain rfl := Option.some.inj hs
      exact h.setAwaitData timeout hp awaitData
    next => cases hs
  | clearAwaitData k =>
    split at hs
    next o hp =>
      obtain rfl := Option.some.inj hs
      exact h.quiet hp ⟨rfl, rfl, rfl, rfl, rfl⟩ rfl rfl (fun _ => rfl) (hstarted hp)
    next => cases hs
  | yield k refused =>
    split at hs
    next o hp =>
      obtain rfl := Option.some.inj hs
      exact h.goto hp rfl (fun _ => rfl) (hstarted hp)
    next => cases hs
  | wake k =>
    split at hs
    next o hp =>
      obtain ⟨r, hr, rfl⟩ := Option.map_eq_some_iff.mp hs
      exact h.quiet hp (same_of_receive hr) rfl rfl (fun _ => rfl) (hstarted hp)
    next => cases hs
  | hookReturn k =>
    split at hs
    next o hp =>
      obtain rfl := Option.some.inj hs
      exact h.goto hp rfl (fun _ => rfl) (hstarted hp)
    next => cases hs
  | resume o awaitData =>
    split at hs
    next =>
      obtain ⟨b, hb, rfl⟩ := Option.map_eq_some_iff.mp hs
      have hmoved := h.quiet (w := .worker) rfl (same_of_send hb) rfl rfl (fun _ => rfl) nofun
      rw [PoolState.move, update_eq_self] at hmoved
      exact hmoved
    next =>
      obtain rfl := Option.some.inj hs
      exact h

omit h in
theorem init : PoolState.init.Owned where
  free := fun _ _ => rfl
  met := by
    intro w
    cases w <;> nofun
  mutex := fun _ => .init rfl
  later := fun _ _ => rfl
  calls := nofun

/-- A run that executes on an object owns it or has just released it. -/
theorem busy (hb : (s.pcs (.run k)).busyWith = some o) :
    (∃ f l, stake s.runs (.run k) (s.pcs (.run k)) = some (o, .owns (.run k) f l)) ∨
      stake s.runs (.run k) (s.pcs (.run k)) = some (o, .released) := by
  have hmet := h.met (.run k)
  cases hpc : s.pcs (.run k) with
  | hook o' b =>
    rw [hpc] at hb
    cases hb
    exact .inl ⟨_, _, rfl⟩
  | finish o' pc =>
    rw [hpc] at hb hmet
    cases hb
    match pc with
    | .stop | .cas | .lock | .loop 1 | .put 0 => exact .inl ⟨_, _, rfl⟩
    | .loop 0 | .unlock => exact .inr rfl
    | .loop (index + 2) => exact (hmet 0 .never rfl).elim
    | .put (index + 1) => exact (hmet 0 .never rfl).elim
  | _ =>
    rw [hpc] at hb
    cases hb

/-- Where every object is in one place, it has a single owner. -/
theorem singleOwner : SingleOwner s where
  returned := by
    intro k o b hp
    have hc := h.claim_holds hp rfl
    refine Bool.eq_false_iff.mpr fun hpooled => ?_
    exact absurd ((h.free o (.inl hpooled)).symm.trans hc.1) nofun
  alone := by
    intro k k' o hk hk'
    rcases h.busy hk with ⟨f, l, hw⟩ | hw
    · rcases h.busy hk' with ⟨f', l', hw'⟩ | hw'
      · exact PoolActor.run.inj (h.owns_unique hw hw')
      · exact absurd (h.met _ o _ hw).1 (h.met _ o _ hw' k)
    · rcases h.busy hk' with ⟨f', l', hw'⟩ | hw'
      · exact absurd (h.met _ o _ hw').1 (h.met _ o _ hw k')
      · exact PoolActor.run.inj
          ((h.mutex o).one _ _ (inside_of_released hw) (inside_of_released hw'))
  own := h.calls

end PoolState.Owned

/-- **A pooled task has a single owner**, in every interleaving of the worker, the runs and the
timers in which each `TimeoutKill` that reaches the `CompareAndSwap` of `Finish` finds the task
finished already. -/
theorem single_owner (timeout : Int) (as : List PoolAct)
    (h : Along (PoolState.step timeout) (fun s a => timeoutLoses s a = true) .init as) :
    Throughout (PoolState.step timeout) SingleOwner .init as :=
  throughout_of_inv (fun _ h => PoolState.Owned.singleOwner h)
    (fun _ _ _ h hP hs => PoolState.Owned.step h hP hs) as .init h

/-- The worker prepares object `0` and starts a run on it. -/
def prepares : List PoolAct := .get 0 :: List.replicate 8 (.go .worker)

/-- The run waits, the timer fires and wakes it, it ends; the worker takes the object again as
soon as it is in the pool, before `Finish` has given the lock back. -/
def reusedInTime : List PoolAct :=
  prepares ++ [.setAwaitData 0 ⟨.rpc, 1⟩, .yield 0 false, .fire 0] ++
    List.replicate 4 (.go (.timer 0)) ++ [.wake 0, .hookReturn 0] ++
    List.replicate 5 (.go (.run 0)) ++ [.get 0, .go .worker, .go .worker] ++
    List.replicate 2 (.go (.run 0)) ++ List.replicate 6 (.go .worker)

theorem reused_in_time_has_single_owner :
    (Lib.run (PoolState.step 5) .init reusedInTime).isSome = true ∧
      Throughout (PoolState.step 5) SingleOwner .init reusedInTime :=
  ⟨by decide +kernel, single_owner 5 _ (by decide +kernel)⟩

/-- The run waits, gets its answer and goes on working. Then its timer fires: the task is not
waiting, so `TimeoutKill` finishes it and the object goes back into the pool. The worker starts
run `1` on it, and when run `0` returns, its `Finish` calls the callback of run `1`. -/
def finishedUnderway : List PoolAct :=
  prepares ++ [.setAwaitData 0 ⟨.rpc, 1⟩, .yield 0 false, .resume 0 ⟨.rpc, 1⟩, .wake 0, .fire 0] ++
    List.replicate 10 (.go (.timer 0)) ++ prepares ++ [.hookReturn 0] ++
    List.replicate 4 (.go (.run 0))

theorem timeout_recycles_running_task :
    ¬ Throughout (PoolState.step 5) SingleOwner .init finishedUnderway := by
  intro h
  have hcalls : (Lib.run (PoolState.step 5) .init finishedUnderway).map (fun s => s.calls) =
      some [(0, .timer 0), (1, .run 0)] := by decide +kernel
  obtain ⟨s, hs, hc⟩ := Option.map_eq_some_iff.mp hcalls
  have hown := (throughout_last h hs).own 1 (.run 0) (by rw [hc]; simp)
  cases hown

end Robot.Case
