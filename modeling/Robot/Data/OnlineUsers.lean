import Mathlib
import Robot.Lib.Machine

/-!
# The gauge of online users

`data/user.go` counts the users that are logged in: `Login` adds one to `loginUserCount`,
`Logout` takes one off, and `OnlineUserCount` reads it. Whether a user *is* logged in is
another matter: `IsLogin` is `!Closed && Logined`, and `Closed` is also set by `Close`, which
`ReceiveHandler` calls when the connection is lost and which does not touch the count. Nor
is there a lock around the test of `IsLogin` and what follows it.

The machine has any users and any threads, and every statement of the four calls is a step.
`gauge_exact` says when the gauge is right: calls on one user do not overlap, `Login` is
called on a user that is not closed, and `Close` on one that is not logged in. The argument
keeps a ledger: `counted u` is what the calls on `u` have added to the gauge, so the gauge is
the sum of the ledger (`Paired.total`), and each statement keeps the ledger of its user
right (`Fits.step`).

The handlers that `Close` calls and the connection it closes are left out.
-/

namespace Robot.Data

open Robot.Lib Function

/-- The two flags of a `User` that `IsLogin` reads. -/
structure OnlineUser where
  closed : Bool
  logined : Bool
  deriving DecidableEq

/-- `IsLogin`. -/
def OnlineUser.isLogin (x : OnlineUser) : Bool := !x.closed && x.logined

/-- The calls on a user. -/
inductive GaugeOp where
  | login
  | logout
  | close
  deriving DecidableEq

/-- The statements of the calls. -/
inductive GaugePc where
  /-- `u.Closed.Load()` of `IsLogin` -/
  | closed
  /-- `u.Logined` of `IsLogin` -/
  | logined
  /-- `user.Logined = …` -/
  | set
  /-- `loginUserCount.Add(…)` -/
  | count
  /-- `user.Closed.CompareAndSwap(false, true)` -/
  | close
  deriving DecidableEq

/-- What a statement does: the flags, what it adds to the gauge, and the next statement,
`none` when the call returns. -/
def GaugeOp.step (x : OnlineUser) : GaugeOp → GaugePc → OnlineUser × Int × Option GaugePc
  | .login, .closed => (x, 0, if x.closed then some .set else some .logined)
  | .login, .logined => (x, 0, if x.logined then none else some .set)
  | .login, .set => ({ x with logined := true }, 0, some .count)
  | .login, .count => (x, 1, none)
  | .logout, .closed => (x, 0, if x.closed then none else some .logined)
  | .logout, .logined => (x, 0, if x.logined then some .set else none)
  | .logout, .set => ({ x with logined := false }, 0, some .count)
  | .logout, .count => (x, -1, some .close)
  | .logout, .close | .close, .close => ({ x with closed := true }, 0, none)
  -- the remaining pairs are no statements
  | _, pc => (x, 0, some pc)

/-- Where a call starts. -/
def GaugeOp.entry : GaugeOp → GaugePc
  | .login | .logout => .closed
  | .close => .close

variable {U T : Type}

/-- What a thread is doing: a statement of a call on a user, with the users `LogoutAllUsers`
still has to log out, or on the way to the next of them. -/
inductive GaugeThread (U : Type) where
  | idle
  | between (rest : List U)
  | inCall (op : GaugeOp) (pc : GaugePc) (u : U) (rest : List U)
  deriving DecidableEq

/-- The user a thread is in a call on. -/
def GaugeThread.on : GaugeThread U → Option U
  | .inCall _ _ u _ => some u
  | _ => none

/-- The user whose `Logout` a `LogoutAllUsers` calls next. -/
def GaugeThread.nextUser : GaugeThread U → Option U
  | .between (u :: _) => some u
  | _ => none

/-- `counted` is a record no step looks at: what the calls on each user have added to
`loginUserCount`. -/
structure GaugeState (U T : Type) where
  users : U → OnlineUser
  loginUserCount : Int
  threads : T → GaugeThread U
  counted : U → Int

inductive GaugeAct (U T : Type) where
  /-- a thread calls `Login`, `Logout` or `Close` -/
  | call (t : T) (op : GaugeOp) (u : U)
  /-- a thread calls `LogoutAllUsers`, with these users in the map -/
  | logoutAllUsers (t : T) (us : List U)
  /-- the next statement of a thread -/
  | go (t : T)

namespace GaugeState

/-- `OnlineUserCount`. -/
def onlineUserCount (s : GaugeState U T) : Int := s.loginUserCount

/-- All users are new, no thread is in a call. -/
def init : GaugeState U T :=
  { users := fun _ => ⟨false, false⟩, loginUserCount := 0, threads := fun _ => .idle,
    counted := fun _ => 0 }

variable [DecidableEq U] [DecidableEq T]

/-- One statement of a call on `u`. When the call returns, a `LogoutAllUsers` goes on. -/
def stepCall (s : GaugeState U T) (t : T) (op : GaugeOp) (pc : GaugePc) (u : U) (rest : List U) :
    GaugeState U T :=
  let (x, delta, next) := op.step (s.users u) pc
  { users := update s.users u x
    loginUserCount := s.loginUserCount + delta
    counted := update s.counted u (s.counted u + delta)
    threads := update s.threads t <|
      match next with
      | some pc' => .inCall op pc' u rest
      | none => .between rest }

/-- One step. -/
def step (s : GaugeState U T) : GaugeAct U T → Option (GaugeState U T)
  | .call t op u =>
    match s.threads t with
    | .idle => some { s with threads := update s.threads t (.inCall op op.entry u []) }
    | _ => none
  | .logoutAllUsers t us =>
    match s.threads t with
    | .idle => some { s with threads := update s.threads t (.between us) }
    | _ => none
  | .go t =>
    match s.threads t with
    | .idle => none
    | .between [] => some { s with threads := update s.threads t .idle }
    | .between (u :: rest) =>
      some { s with threads := update s.threads t (.inCall .logout .closed u rest) }
    | .inCall op pc u rest => some (s.stepCall t op pc u rest)

/-- The gauge is exact: when no call is in progress, it is the number of users that are
logged in. -/
def Exact [Fintype U] (s : GaugeState U T) : Prop :=
  (∀ t, s.threads t = .idle) →
    s.onlineUserCount = (Finset.univ.filter fun u => (s.users u).isLogin = true).card

/-- What a call asks of its user as it begins: no other call on it is in progress, `Login` finds
it open, and `Close` finds it not logged in. -/
structure MayCall (s : GaugeState U T) (op : GaugeOp) (u : U) : Prop where
  alone : ∀ t, (s.threads t).on ≠ some u
  login : op = .login → (s.users u).closed = false
  close : op = .close → (s.users u).isLogin = false

/-- The condition on a step: a call it begins may be made. -/
def Orderly (s : GaugeState U T) : GaugeAct U T → Prop
  | .call _ op u => s.MayCall op u
  | .logoutAllUsers _ _ => True
  | .go t => ∀ u ∈ (s.threads t).nextUser, s.MayCall .logout u

instance MayCall.decidable [Fintype T] (s : GaugeState U T) (op : GaugeOp) (u : U) :
    Decidable (s.MayCall op u) :=
  decidable_of_iff ((∀ t, (s.threads t).on ≠ some u) ∧
      (op = .login → (s.users u).closed = false) ∧ (op = .close → (s.users u).isLogin = false))
    ⟨fun h => ⟨h.1, h.2.1, h.2.2⟩, fun h => ⟨h.alone, h.login, h.close⟩⟩

instance Orderly.decidable [Fintype T] (s : GaugeState U T) :
    ∀ a, Decidable (s.Orderly a)
  | .call _ op u => inferInstanceAs (Decidable (s.MayCall op u))
  | .logoutAllUsers _ _ => inferInstanceAs (Decidable True)
  | .go t => inferInstanceAs (Decidable (∀ u ∈ (s.threads t).nextUser, s.MayCall .logout u))

end GaugeState

/-! ## One user's ledger -/

/-- What the gauge should count of a user. -/
def OnlineUser.online (x : OnlineUser) : Int := if x.isLogin then 1 else 0

/-- The flags and the ledger of a user while a call on it stands at `pc`. -/
def Fits (x : OnlineUser) (counted : Int) : GaugeOp → GaugePc → Prop
  | .login, .closed | .login, .logined => x.closed = false ∧ counted = x.online
  | .login, .set => x = ⟨false, false⟩ ∧ counted = 0
  -- logged in, not yet counted
  | .login, .count => x = ⟨false, true⟩ ∧ counted = 0
  | .logout, .closed => counted = x.online
  | .logout, .logined => x.closed = false ∧ counted = x.online
  | .logout, .set => x = ⟨false, true⟩ ∧ counted = 1
  -- logged out, still counted
  | .logout, .count => x.logined = false ∧ counted = 1
  | .logout, .close => x.logined = false ∧ counted = 0
  | .close, .close => x.isLogin = false ∧ counted = 0
  | _, _ => False

/-- Each statement leaves the ledger as the next one expects it, and right at the return. -/
theorem Fits.step {x : OnlineUser} {c : Int} {op : GaugeOp} {pc : GaugePc} (h : Fits x c op pc) :
    (∀ pc', (op.step x pc).2.2 = some pc' →
      Fits (op.step x pc).1 (c + (op.step x pc).2.1) op pc') ∧
    ((op.step x pc).2.2 = none → c + (op.step x pc).2.1 = (op.step x pc).1.online) := by
  obtain ⟨closed, logined⟩ := x
  cases op <;> cases pc <;> cases closed <;> cases logined <;>
    simp_all [Fits, GaugeOp.step, OnlineUser.online, OnlineUser.isLogin]

/-! ## The gauge is the sum of the ledger -/

/-- The ledger of the user a thread is in a call on. -/
def GaugeThread.Fits (users : U → OnlineUser) (counted : U → Int) : GaugeThread U → Prop
  | .inCall op pc u _ => Data.Fits (users u) (counted u) op pc
  | _ => True

theorem GaugeThread.Fits.of_off {users : U → OnlineUser} {counted : U → Int} {th : GaugeThread U}
    (h : th.on = none) : th.Fits users counted := by
  cases th with
  | inCall op pc u rest => cases h
  | _ => trivial

namespace GaugeState

/-- The gauge is the sum of the ledger, and the ledger is right up to the calls in progress. -/
structure Paired [Fintype U] (s : GaugeState U T) : Prop where
  total : s.loginUserCount = ∑ u, s.counted u
  alone : ∀ t t' u, (s.threads t).on = some u → (s.threads t').on = some u → t = t'
  fits : ∀ t, (s.threads t).Fits s.users s.counted
  rest : ∀ u, (∀ t, (s.threads t).on ≠ some u) → s.counted u = (s.users u).online

variable [Fintype U] {s : GaugeState U T}

theorem Paired.init : Paired (init : GaugeState U T) where
  total := by simp [GaugeState.init]
  alone := nofun
  fits := fun _ => trivial
  rest := fun _ _ => rfl

/-- With no call in progress the ledger is right, and the gauge counts the users that are
logged in. -/
theorem Paired.exact (h : Paired s) : Exact s := by
  intro hidle
  have hledger : ∀ u, s.counted u = if (s.users u).isLogin = true then 1 else 0 := by
    intro u
    refine h.rest u fun t ht => ?_
    rw [hidle t] at ht
    cases ht
  show s.loginUserCount = _
  rw [h.total, Finset.sum_congr rfl fun u _ => hledger u, Finset.sum_boole]

variable [DecidableEq T]

/-- A thread that is in no call, before and after. -/
theorem Paired.stays (h : Paired s) {t : T} {th : GaugeThread U} (ht : (s.threads t).on = none)
    (hth : th.on = none) : Paired { s with threads := update s.threads t th } := by
  have hon : ∀ t', (update s.threads t th t').on = (s.threads t').on := by
    intro t'
    by_cases ht' : t' = t
    · rw [ht', update_self, hth, ht]
    · rw [update_of_ne ht']
  refine ⟨h.total, fun t₁ t₂ u h₁ h₂ => ?_, ?_, fun u hu => ?_⟩
  · exact h.alone t₁ t₂ u ((hon t₁).symm.trans h₁) ((hon t₂).symm.trans h₂)
  · exact (forall_update_iff s.threads fun _ th => th.Fits s.users s.counted).mpr
      ⟨.of_off hth, fun t' _ => h.fits t'⟩
  · exact h.rest u fun t' => (hon t').symm ▸ hu t'

/-- A call that may be made begins. -/
theorem Paired.begins (h : Paired s) {t : T} {op : GaugeOp} {u : U} (hu : s.MayCall op u)
    (ht : (s.threads t).on = none) (rest : List U) :
    Paired { s with threads := update s.threads t (.inCall op op.entry u rest) } := by
  have hledger := h.rest u hu.alone
  have hon : ∀ t' v, (update s.threads t (.inCall op op.entry u rest) t').on = some v →
      (t' = t ∧ v = u) ∨ (t' ≠ t ∧ (s.threads t').on = some v) := by
    intro t' v hv
    by_cases ht' : t' = t
    · rw [ht', update_self] at hv
      exact .inl ⟨ht', (Option.some.inj hv).symm⟩
    · rw [update_of_ne ht'] at hv
      exact .inr ⟨ht', hv⟩
  refine ⟨h.total, fun t₁ t₂ v h₁ h₂ => ?_, ?_, fun v hv => ?_⟩
  · rcases hon t₁ v h₁ with ⟨e₁, rfl⟩ | ⟨-, g₁⟩
    · rcases hon t₂ v h₂ with ⟨e₂, -⟩ | ⟨-, g₂⟩
      · rw [e₁, e₂]
      · exact absurd g₂ (hu.alone t₂)
    · rcases hon t₂ v h₂ with ⟨-, rfl⟩ | ⟨-, g₂⟩
      · exact absurd g₁ (hu.alone t₁)
      · exact h.alone t₁ t₂ v g₁ g₂
  · refine (forall_update_iff s.threads fun _ th => th.Fits s.users s.counted).mpr
      ⟨?_, fun t' _ => h.fits t'⟩
    cases op with
    | login => exact ⟨hu.login rfl, hledger⟩
    | logout => exact hledger
    | close =>
      refine ⟨hu.close rfl, ?_⟩
      rw [hledger, OnlineUser.online, hu.close rfl]
      rfl
  · refine h.rest v fun t' ht' => ?_
    have hne : t' ≠ t := fun he => by
      rw [he, ht] at ht'
      cases ht'
    exact hv t' ((congrArg GaugeThread.on (update_of_ne hne ..)).trans ht')

variable [DecidableEq U]

/-- A thread in a call on `u` changes the flags of `u`, and the gauge and the ledger by the same
amount, and stays in the call or returns with the ledger right. -/
theorem Paired.moves (h : Paired s) {t : T} {u : U} {th : GaugeThread U} {x : OnlineUser}
    {delta : Int} (hu : (s.threads t).on = some u) (hth : th.on = some u ∨ th.on = none)
    (hfit : th.Fits (update s.users u x)
      (update s.counted u (s.counted u + delta)))
    (hret : th.on = none → s.counted u + delta = x.online) :
    Paired { users := update s.users u x
             loginUserCount := s.loginUserCount + delta
             counted := update s.counted u (s.counted u + delta)
             threads := update s.threads t th } := by
  -- the other threads are in calls on other users
  have hother : ∀ t' v, t' ≠ t → (s.threads t').on = some v → v ≠ u := by
    intro t' v hne hv he
    exact hne (h.alone t' t u (he ▸ hv) hu)
  have hon : ∀ t' v, (update s.threads t th t').on = some v →
      (s.threads t').on = some v := by
    intro t' v hv
    by_cases ht' : t' = t
    · rw [ht', update_self] at hv
      rcases hth with hth | hth <;> rw [hth] at hv
      · rw [ht', hu, hv]
      · cases hv
    · rwa [update_of_ne ht'] at hv
  refine ⟨?_, fun t₁ t₂ v h₁ h₂ => h.alone t₁ t₂ v (hon t₁ v h₁) (hon t₂ v h₂), ?_, ?_⟩
  · show s.loginUserCount + delta = ∑ v, update s.counted u (s.counted u + delta) v
    rw [h.total, Finset.sum_update_of_mem (Finset.mem_univ u), Finset.sdiff_singleton_eq_erase,
      ← Finset.add_sum_erase _ _ (Finset.mem_univ u)]
    ring
  · refine (forall_update_iff s.threads fun _ th => th.Fits (update s.users u x)
      (update s.counted u (s.counted u + delta))).mpr ⟨hfit, fun t' hne => ?_⟩
    have hold := h.fits t'
    cases hth' : s.threads t' with
    | inCall op pc v rest =>
      have hv : v ≠ u := hother t' v hne (by rw [hth']; rfl)
      rw [hth'] at hold
      show Fits (update s.users u x v) (update s.counted u _ v) op pc
      rw [update_of_ne hv, update_of_ne hv]
      exact hold
    | _ => trivial
  · intro v hv
    show update s.counted u _ v = (update s.users u x v).online
    by_cases hvu : v = u
    · subst hvu
      rw [update_self, update_self]
      refine hret (hth.resolve_left fun hth => hv t ?_)
      show (update s.threads t th t).on = some v
      rw [update_self]
      exact hth
    · rw [update_of_ne hvu, update_of_ne hvu]
      refine h.rest v fun t' ht' => ?_
      by_cases he : t' = t
      · rw [he, hu] at ht'
        exact hvu (Option.some.inj ht').symm
      · exact hv t' ((congrArg GaugeThread.on (update_of_ne he ..)).trans ht')

/-- One statement of a call. -/
theorem Paired.stepCall (h : Paired s) {t : T} {op : GaugeOp} {pc : GaugePc} {u : U}
    {rest : List U} (ht : s.threads t = .inCall op pc u rest) :
    Paired (s.stepCall t op pc u rest) := by
  have hu : (s.threads t).on = some u := by rw [ht]; rfl
  have hfit : Fits (s.users u) (s.counted u) op pc := by
    have := h.fits t
    rwa [ht] at this
  obtain ⟨hgoes, hreturns⟩ := hfit.step
  unfold GaugeState.stepCall
  generalize op.step (s.users u) pc = r at hgoes hreturns
  obtain ⟨x, delta, next⟩ := r
  cases next with
  | some pc' =>
    refine h.moves hu (.inl rfl) ?_ nofun
    show Fits (update s.users u x u) (update s.counted u _ u) op pc'
    rw [update_self, update_self]
    exact hgoes pc' rfl
  | none => exact h.moves hu (.inr rfl) trivial (fun _ => hreturns rfl)

/-- **One step keeps the books**, if the call it begins may be made. -/
theorem Paired.step (h : Paired s) {s' : GaugeState U T} {a : GaugeAct U T} (hP : s.Orderly a)
    (hs : s.step a = some s') : Paired s' := by
  cases a with simp only [GaugeState.step] at hs
  | call t op u =>
    split at hs
    next ht =>
      obtain rfl := Option.some.inj hs
      exact h.begins hP (by rw [ht]; rfl) []
    next => cases hs
  | logoutAllUsers t us =>
    split at hs
    next ht =>
      obtain rfl := Option.some.inj hs
      exact h.stays (by rw [ht]; rfl) rfl
    next => cases hs
  | go t =>
    split at hs
    next => cases hs
    next ht =>
      obtain rfl := Option.some.inj hs
      exact h.stays (by rw [ht]; rfl) rfl
    next u rest ht =>
      obtain rfl := Option.some.inj hs
      exact h.begins (hP u (by rw [ht]; rfl)) (by rw [ht]; rfl) rest
    next op pc u rest ht =>
      obtain rfl := Option.some.inj hs
      exact h.stepCall ht

/-- **The gauge is exact** for any number of users and any interleaving in which calls on one
user do not overlap, `Login` finds its user open and `Close` finds its user not logged in. -/
theorem gauge_exact (as : List (GaugeAct U T)) (h : Along step Orderly init as) :
    Throughout step Exact (init : GaugeState U T) as :=
  throughout_of_inv (fun _ h => Paired.exact h) (fun _ _ _ h hP hs => Paired.step h hP hs) as
    Paired.init h

/-- Two threads log a user in each, then one of them calls `LogoutAllUsers`. -/
def twoLogins : List (GaugeAct Bool Bool) :=
  [.call true .login true, .call false .login false] ++
    (List.replicate 4 [.go true, .go false]).flatten ++ [.go true, .go false] ++
    .logoutAllUsers true [false, true] :: List.replicate 13 (.go true)

theorem two_logins_counted :
    (Lib.run step init twoLogins).isSome = true ∧ Throughout step Exact init twoLogins :=
  ⟨by decide +kernel, gauge_exact _ (by decide +kernel)⟩

/-- A user logs in; then the connection is lost and `ReceiveHandler` closes the user. -/
def connectionLost : List (GaugeAct Unit Unit) :=
  .call () .login () :: List.replicate 5 (.go ()) ++ [.call () .close (), .go (), .go ()]

/-- Nobody is logged in any more, and the gauge says one. -/
theorem lost_user_stays_counted : ¬ Throughout step Exact init connectionLost := by
  intro h
  have hend : (Lib.run step init connectionLost).map (fun s =>
      (s.threads (), s.onlineUserCount, (s.users ()).isLogin)) = some (.idle, 1, false) := by
    decide +kernel
  obtain ⟨s, hs, he⟩ := Option.map_eq_some_iff.mp hend
  have hexact := throughout_last h hs fun _ => congrArg Prod.fst he
  have hcount : s.onlineUserCount = 1 := congrArg (fun p => p.2.1) he
  have hlogin : (s.users ()).isLogin = false := congrArg (fun p => p.2.2) he
  rw [hcount] at hexact
  simp [hlogin] at hexact

end GaugeState

end Robot.Data
