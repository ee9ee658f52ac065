import Robot.Lib.Machine
import Robot.Lib.OneShot
import Robot.Case.Params

/-!
# The line loop of the master

`distributeAndWait` (`mode/master/distributor.go`) goes over the parsed lines
`repeatedTime` times. Each line is launched in a goroutine of its own with a result channel
of capacity `1`, appended to `bgTasks`; after a line without `&`, and at the end of each
round, `waitBackground` receives from the channels in order. It returns on the first
breaking failure (an error of a line with `ErrorBreak`), which the loop returns at once, and
clears the list otherwise. Before each line the context is looked at: when it is done the
loop drains what is launched and returns.

The loop of solo mode is built the same way but goes on after a breaking failure; this one
stops, which is why it keeps its promises for every order and outcome of the completions
(`foreground_lines_are_barriers`). The whole argument is one invariant, `OnCourse`: as long
as no breaking failure was received, `bgTasks` is exactly the launched lines whose results
are still to be received, oldest first, and everything up to the latest foreground line has
been received.

The case index is a natural number: it counts launches, and `2 ^ 63` of them do not happen.
-/

namespace Robot.Mode

open Robot.Lib Function Robot.Case List

/-! ## The loop -/

/-- The `bgResult` of a line. -/
structure LineResult where
  err : Option String
  errorBreak : Bool
  caseName : String
  caseIndex : ℕ

/-- The failure that `waitBackground` returns on. -/
def LineResult.breaks (res : LineResult) : Bool :=
  res.err.isSome && res.errorBreak

/-- `fmt.Errorf("task error at Control[%d][%s]: %v", …)`. -/
def LineResult.message (res : LineResult) : String :=
  "task error at Control[" ++ toString res.caseIndex ++ "][" ++ res.caseName ++ "]: " ++
    res.err.getD "<nil>"

/-- What the goroutine of a line sends when the line ended with `err`. -/
def lineResult (caseIndex : ℕ) (line : CaseFileLine) (err : Option String) : LineResult where
  err := err
  errorBreak := line.errorBreak
  caseName := if line.isControl then "@" ++ line.control.name else line.stress.caseName
  caseIndex := caseIndex

/-- Which call of `waitBackground`: after a line without `&`, at the end of the round, or on
the way out when the context is done. -/
inductive WaitFor where
  | foreground
  | endOfRound
  | cancelled

/-- The loop: at a line, inside `waitBackground` with the channels still to receive from, or
past its `return`. -/
inductive DistributePc where
  | line
  | wait (rest : List ℕ) (why : WaitFor)
  | returned (err : Option String)

structure DistributeConfig where
  lines : List CaseFileLine
  repeatedTime : Int

/-- The turns of the round loop. -/
def DistributeConfig.rounds (cfg : DistributeConfig) : ℕ := cfg.repeatedTime.toNat

/-- `caseIndex := round*len(lines) + i`. -/
def DistributeConfig.caseIndex (cfg : DistributeConfig) (at_ : ℕ × ℕ) : ℕ :=
  at_.1 * cfg.lines.length + at_.2

/-- The loop and its result channels, by case index. `launches` (round and line of each
launch) and `observed` (a wait has received a breaking failure) are history: no step reads
them. -/
structure DistributeState where
  round : ℕ
  i : ℕ
  pc : DistributePc
  bgTasks : List ℕ
  chans : ℕ → OneShot CaseFileLine LineResult
  ctxDone : Bool
  launches : List (ℕ × ℕ)
  observed : Bool

inductive DistributeAction where
  | main
  | complete (caseIndex : ℕ) (err : Option String)
  | cancel

variable (cfg : DistributeConfig)

/-- Where the loop starts: a file without lines is an error, and with no round to go through
the loop is over at once. -/
def distributeInit : DistributeState where
  round := 0
  i := 0
  pc := if cfg.lines = [] then .returned (some "no case lines found")
    else if cfg.rounds = 0 then .returned none else .line
  bgTasks := []
  chans := fun _ => .unmade
  ctxDone := false
  launches := []
  observed := false

/-- What `return` gives when `waitBackground` has met a breaking failure: on the way out its
error is dropped. -/
def WaitFor.error (res : LineResult) : WaitFor → String
  | .foreground | .endOfRound => res.message
  | .cancelled => "task cancelled"

/-- Where the loop goes when `waitBackground` has received everything. -/
def afterWaitBackground (st : DistributeState) : WaitFor → DistributeState
  | .foreground => { st with i := st.i + 1, pc := .line }
  | .endOfRound =>
    if st.round + 1 < cfg.rounds then { st with round := st.round + 1, i := 0, pc := .line }
    else { st with pc := .returned none }
  | .cancelled => { st with pc := .returned (some "task cancelled") }

/-- Launch the line at `st.i`, and wait if it is a foreground line. -/
def launchLine (st : DistributeState) (line : CaseFileLine) : DistributeState :=
  let idx := cfg.caseIndex (st.round, st.i)
  let bgTasks := st.bgTasks ++ [idx]
  let st' := { st with
    bgTasks := bgTasks
    chans := update st.chans idx (.running line)
    launches := st.launches ++ [(st.round, st.i)] }
  if line.backgroundRunning then { st' with i := st.i + 1 }
  else { st' with pc := .wait bgTasks .foreground }

/-- One step of the loop, a launched line ending with or without an error, or the context
being cancelled. `none` while the loop is blocked on a channel. -/
def distributeStep (st : DistributeState) : DistributeAction → Option DistributeState
  | .main =>
    match st.pc with
    | .line =>
      match cfg.lines[st.i]? with
      | some line =>
        if st.ctxDone then some { st with pc := .wait st.bgTasks .cancelled }
        else some (launchLine cfg st line)
      | none => some { st with pc := .wait st.bgTasks .endOfRound }
    | .wait [] why => some (afterWaitBackground cfg { st with bgTasks := [] } why)
    | .wait (idx :: rest) why =>
      match st.chans idx with
      | .ready res =>
        let chans := update st.chans idx (.drained res)
        if res.breaks then
          some { st with chans := chans, observed := true, pc := .returned (some (why.error res)) }
        else some { st with chans := chans, pc := .wait rest why }
      | _ => none
    | .returned _ => none
  | .complete idx err =>
    match st.chans idx with
    | .running line =>
      some { st with chans := update st.chans idx (.ready (lineResult idx line err)) }
    | _ => none
  | .cancel => some { st with ctxDone := true }

/-! ## The promises -/

/-- A launch in `st` is clear: all lines of earlier rounds, and in this round all lines up to
any earlier foreground line, have completed, and no wait has received a breaking failure. -/
structure ClearToLaunch (st : DistributeState) : Prop where
  earlier : ∀ p ∈ st.launches, p.1 ≠ st.round → (st.chans (cfg.caseIndex p)).completed = true
  barrier : ∀ p ∈ st.launches, ∀ f line, p.1 = st.round → p.2 ≤ f → f < st.i →
    cfg.lines[f]? = some line → line.backgroundRunning = false →
    (st.chans (cfg.caseIndex p)).completed = true
  unseen : st.observed = false

/-- A step that launches a line starts from a state that is clear. -/
def LaunchesClear (st : DistributeState) (a : DistributeAction) : Prop :=
  ∀ st', distributeStep cfg st a = some st' → st'.launches ≠ st.launches → ClearToLaunch cfg st

/-- Each line was launched once a round, and each launched line has completed, without an
error if it is a line with `ErrorBreak`. -/
structure AllServed (st : DistributeState) : Prop where
  launched : ∀ j < cfg.lines.length,
    st.launches.countP (fun p => p.2 == j) = cfg.rounds
  completed : ∀ p ∈ st.launches, ∃ line err, cfg.lines[p.2]? = some line ∧
    st.chans (cfg.caseIndex p) = .drained (lineResult (cfg.caseIndex p) line err) ∧
    (line.errorBreak = true → err = none)

/-! ## What a step can do -/

/-- The steps of the machine, one constructor a branch. -/
inductive DistributeMoved (st : DistributeState) : DistributeAction → DistributeState → Prop
  | leave {line : CaseFileLine} (hpc : st.pc = .line) (hline : cfg.lines[st.i]? = some line)
      (hctx : st.ctxDone = true) :
      DistributeMoved st .main { st with pc := .wait st.bgTasks .cancelled }
  | launch {line : CaseFileLine} (hpc : st.pc = .line) (hline : cfg.lines[st.i]? = some line)
      (hctx : st.ctxDone = false) : DistributeMoved st .main (launchLine cfg st line)
  | roundOver (hpc : st.pc = .line) (hline : cfg.lines[st.i]? = none) :
      DistributeMoved st .main { st with pc := .wait st.bgTasks .endOfRound }
  | waited {why : WaitFor} (hpc : st.pc = .wait [] why) :
      DistributeMoved st .main (afterWaitBackground cfg { st with bgTasks := [] } why)
  | broke {idx : ℕ} {rest : List ℕ} {why : WaitFor} {res : LineResult}
      (hpc : st.pc = .wait (idx :: rest) why) (hch : st.chans idx = .ready res)
      (hres : res.breaks = true) :
      DistributeMoved st .main
        { st with
          chans := update st.chans idx (.drained res)
          observed := true
          pc := .returned (some (why.error res)) }
  | received {idx : ℕ} {rest : List ℕ} {why : WaitFor} {res : LineResult}
      (hpc : st.pc = .wait (idx :: rest) why) (hch : st.chans idx = .ready res)
      (hres : res.breaks = false) :
      DistributeMoved st .main
        { st with chans := update st.chans idx (.drained res), pc := .wait rest why }
  | completed {idx : ℕ} {line : CaseFileLine} {err : Option String}
      (hch : st.chans idx = .running line) :
      DistributeMoved st (.complete idx err)
        { st with chans := update st.chans idx (.ready (lineResult idx line err)) }
  | cancelled : DistributeMoved st .cancel { st with ctxDone := true }

variable {cfg}
variable {st st' : DistributeState} {a : DistributeAction} {m L : ℕ}

@[simp] theorem caseIndex_mk (round i : ℕ) :
    cfg.caseIndex (round, i) = round * cfg.lines.length + i := rfl

theorem distributeStep_moved (h : distributeStep cfg st a = some st') :
    DistributeMoved cfg st a st' := by
  cases a with
  | main =>
    unfold distributeStep at h
    dsimp only at h
    split at h
    · next hpc =>
      split at h
      · next line hline =>
        split at h
        · next hctx =>
          cases h
          exact .leave hpc hline hctx
        · next hctx =>
          cases h
          exact .launch hpc hline (by simpa using hctx)
      · next hline =>
        cases h
        exact .roundOver hpc hline
    · next why hpc =>
      cases h
      exact .waited hpc
    · next idx rest why hpc =>
      split at h
      · next res hch =>
        split at h
        · next hres =>
          cases h
          exact .broke hpc hch hres
        · next hres =>
          cases h
          exact .received hpc hch (by simpa using hres)
      · cases h
    · cases h
  | complete idx err =>
    unfold distributeStep at h
    dsimp only at h
    split at h
    · next line hch =>
      cases h
      exact .completed hch
    · cases h
  | cancel =>
    cases h
    exact .cancelled

@[simp] theorem afterWaitBackground_launches (why : WaitFor) :
    (afterWaitBackground cfg st why).launches = st.launches := by
  cases why with
  | foreground => rfl
  | endOfRound =>
    simp only [afterWaitBackground]
    split
    · rfl
    · rfl
  | cancelled => rfl

/-- Only the launching step lengthens the history. -/
theorem DistributeMoved.of_launches (h : DistributeMoved cfg st a st')
    (hne : st'.launches ≠ st.launches) :
    ∃ line, st.pc = .line ∧ cfg.lines[st.i]? = some line ∧ st.ctxDone = false ∧
      st' = launchLine cfg st line := by
  cases h with
  | launch hpc hline hctx => exact ⟨_, hpc, hline, hctx, rfl⟩
  | waited hpc => exact absurd (afterWaitBackground_launches _) hne
  | leave | roundOver | broke | received | completed | cancelled => exact absurd rfl hne

/-! ## The invariant -/

/-- The line with case index `k`. -/
def DistributeConfig.LineAt (cfg : DistributeConfig) (k : ℕ) (line : CaseFileLine) : Prop :=
  cfg.lines[k % cfg.lines.length]? = some line

/-- A result that the line with case index `k` can send. -/
def DistributeConfig.ResultAt (cfg : DistributeConfig) (k : ℕ) (res : LineResult) : Prop :=
  ∃ line err, cfg.LineAt k line ∧ res = lineResult k line err

/-- One that the loop goes on from. -/
def DistributeConfig.CalmAt (cfg : DistributeConfig) (k : ℕ) (res : LineResult) : Prop :=
  cfg.ResultAt k res ∧ res.breaks = false

/-- Before any breaking failure is received: `L` lines are launched, in order, and the
results of the first `m` received. -/
structure Launched (cfg : DistributeConfig) (st : DistributeState) (m L : ℕ) : Prop where
  chans : InOrder cfg.LineAt cfg.ResultAt cfg.CalmAt st.chans m L
  order : st.launches.map cfg.caseIndex = List.range L
  inside : ∀ p ∈ st.launches, p.2 < cfg.lines.length
  unseen : st.observed = false

/-- Inside a round: the rounds before are received, and all up to the latest foreground
line that the loop is past. -/
structure InRound (cfg : DistributeConfig) (st : DistributeState) (m : ℕ) : Prop where
  round : st.round < cfg.rounds
  bound : st.i ≤ cfg.lines.length
  start : st.round * cfg.lines.length ≤ m
  barrier : ∀ f line, f < st.i → cfg.lines[f]? = some line → line.backgroundRunning = false →
    cfg.caseIndex (st.round, f) < m

/-- What the loop has left to receive at its program point: the launched lines without the
received ones, oldest first. -/
inductive Left (cfg : DistributeConfig) (st : DistributeState) (m L : ℕ) : Prop
  | line (hpc : st.pc = .line) (hbg : st.bgTasks = List.range' m (L - m))
      (hL : L = cfg.caseIndex (st.round, st.i)) (hin : InRound cfg st m)
  | foreground (hpc : st.pc = .wait (List.range' m (L - m)) .foreground)
      (hL : L = cfg.caseIndex (st.round, st.i + 1)) (hlt : st.i < cfg.lines.length)
      (hin : InRound cfg st m)
  | endOfRound (hpc : st.pc = .wait (List.range' m (L - m)) .endOfRound)
      (hL : L = cfg.caseIndex (st.round, cfg.lines.length)) (hin : InRound cfg st m)
  | cancelled (hpc : st.pc = .wait (List.range' m (L - m)) .cancelled)
  | finished (hpc : st.pc = .returned none) (hm : m = L) (hL : L = cfg.rounds * cfg.lines.length)

/-- The loop has returned an error, or no breaking failure has been received. -/
def OnCourse (cfg : DistributeConfig) (st : DistributeState) : Prop :=
  (∃ err, st.pc = .returned (some err)) ∨ ∃ m L, Launched cfg st m L ∧ Left cfg st m L

theorem onCourse_init : OnCourse cfg (distributeInit cfg) := by
  by_cases hlines : cfg.lines = []
  · exact .inl ⟨_, if_pos hlines⟩
  · have hst : Launched cfg (distributeInit cfg) 0 0 :=
      ⟨InOrder.init, rfl, fun p hp => absurd hp not_mem_nil, rfl⟩
    have hpc : (distributeInit cfg).pc = if cfg.rounds = 0 then .returned none else .line :=
      if_neg hlines
    by_cases hrounds : cfg.rounds = 0
    · rw [if_pos hrounds] at hpc
      exact .inr ⟨0, 0, hst, .finished hpc rfl (by rw [hrounds, Nat.zero_mul])⟩
    · rw [if_neg hrounds] at hpc
      refine .inr ⟨0, 0, hst, .line hpc rfl (by simp [DistributeConfig.caseIndex, distributeInit]) ?_⟩
      refine ⟨Nat.pos_of_ne_zero hrounds, Nat.zero_le _, ?_, ?_⟩
      · show 0 * _ ≤ 0
        omega
      · intro f line hf
        exact absurd hf (Nat.not_lt_zero f)

/-- A launch in order is clear: what precedes the barrier has been received. -/
theorem InRound.clear (hl : Launched cfg st m L) (hin : InRound cfg st m)
    (hL : L = cfg.caseIndex (st.round, st.i)) : ClearToLaunch cfg st := by
  have hdone : ∀ k < m, (st.chans k).completed = true := by
    intro k hk
    obtain ⟨res, hres, -⟩ := hl.chans.drained k hk
    rw [hres]
    rfl
  -- a launched line is numbered below `L`, so it belongs to this round or an earlier one
  have hround : ∀ p ∈ st.launches, p.1 ≤ st.round := by
    intro p hp
    have hlt : p.1 * cfg.lines.length + p.2 < st.round * cfg.lines.length + st.i := by
      rw [← caseIndex_mk st.round, ← hL, ← mem_range, ← hl.order]
      exact mem_map_of_mem hp
    have hi := hin.bound
    by_contra hgt
    have hmul : (st.round + 1) * cfg.lines.length ≤ p.1 * cfg.lines.length :=
      Nat.mul_le_mul_right _ (by omega)
    rw [Nat.succ_mul] at hmul
    omega
  refine ⟨?_, ?_, hl.unseen⟩
  · intro p hp hne
    apply hdone
    have hle := hround p hp
    have hj := hl.inside p hp
    have hmul : (p.1 + 1) * cfg.lines.length ≤ st.round * cfg.lines.length :=
      Nat.mul_le_mul_right _ (by omega)
    have hstart := hin.start
    rw [Nat.succ_mul] at hmul
    unfold DistributeConfig.caseIndex
    omega
  · intro p hp f line hr hj hf hline hfore
    apply hdone
    have hbar := hin.barrier f line hf hline hfore
    rw [caseIndex_mk] at hbar
    unfold DistributeConfig.caseIndex
    rw [hr]
    omega

theorem OnCourse.launchesClear (h : OnCourse cfg st) : LaunchesClear cfg st a := by
  intro st' hst' hne
  obtain ⟨line, hpc, -, -, -⟩ := (distributeStep_moved hst').of_launches hne
  rcases h with ⟨err, herr⟩ | ⟨m, L, hl, hleft⟩
  · rw [hpc] at herr
    cases herr
  · cases hleft with
    | line _ _ hL hin => exact hin.clear hl hL
    | foreground hw | endOfRound hw | cancelled hw | finished hw =>
      rw [hpc] at hw
      cases hw

/-! ## A step keeps it -/

/-- The loop moves, the channels and the history stay. -/
theorem Launched.of_eq (h : Launched cfg st m L) (hch : st'.chans = st.chans)
    (hla : st'.launches = st.launches) (hob : st'.observed = st.observed) :
    Launched cfg st' m L where
  chans := hch ▸ h.chans
  order := hla ▸ h.order
  inside := hla ▸ h.inside
  unseen := hob ▸ h.unseen

theorem InRound.of_eq (h : InRound cfg st m) (hr : st'.round = st.round) (hi : st'.i = st.i) :
    InRound cfg st' m where
  round := hr ▸ h.round
  bound := hi ▸ h.bound
  start := hr ▸ h.start
  barrier := by
    rw [hr, hi]
    exact h.barrier

theorem InRound.mono (h : InRound cfg st m) {m' : ℕ} (hle : m ≤ m') : InRound cfg st m' where
  round := h.round
  bound := h.bound
  start := Nat.le_trans h.start hle
  barrier f line hf hline hfore := Nat.lt_of_lt_of_le (h.barrier f line hf hline hfore) hle

/-- The line at `st.i` has the case index of its launch. -/
theorem lineAt_caseIndex {round i : ℕ} {line : CaseFileLine} (hline : cfg.lines[i]? = some line) :
    cfg.LineAt (cfg.caseIndex (round, i)) line := by
  have hlt : i < cfg.lines.length := (List.getElem?_eq_some_iff.mp hline).1
  have hmod : cfg.caseIndex (round, i) % cfg.lines.length = i := by
    rw [caseIndex_mk, Nat.mul_comm, Nat.mul_add_mod, Nat.mod_eq_of_lt hlt]
  unfold DistributeConfig.LineAt
  rw [hmod, hline]

/-- A launch adds the next case index. -/
theorem Launched.launch {line : CaseFileLine} (h : Launched cfg st m L)
    (hline : cfg.lines[st.i]? = some line) (hL : L = cfg.caseIndex (st.round, st.i)) :
    Launched cfg (launchLine cfg st line) m (L + 1) := by
  have hlt : st.i < cfg.lines.length := (List.getElem?_eq_some_iff.mp hline).1
  have hch : (launchLine cfg st line).chans = update st.chans L (.running line) := by
    rw [hL]
    unfold launchLine
    split
    · rfl
    · rfl
  have hla : (launchLine cfg st line).launches = st.launches ++ [(st.round, st.i)] := by
    unfold launchLine
    split
    · rfl
    · rfl
  have hob : (launchLine cfg st line).observed = st.observed := by
    unfold launchLine
    split
    · rfl
    · rfl
  refine ⟨?_, ?_, ?_, ?_⟩
  · rw [hch]
    exact h.chans.launch (hL ▸ lineAt_caseIndex hline)
  · rw [hla, map_append, h.order, map_cons, map_nil, ← hL, range_succ]
  · intro p hp
    rw [hla, mem_append, mem_singleton] at hp
    rcases hp with hp | hp
    · exact h.inside p hp
    · rw [hp]
      exact hlt
  · rw [hob]
    exact h.unseen

/-- At a line: a background line leaves the loop at the next one, a foreground line in the
wait for everything launched. -/
theorem Left.launch {line : CaseFileLine} (hline : cfg.lines[st.i]? = some line)
    (hpc : st.pc = .line) (hle : m ≤ L) (hbg : st.bgTasks = List.range' m (L - m))
    (hL : L = cfg.caseIndex (st.round, st.i)) (hin : InRound cfg st m) :
    Left cfg (launchLine cfg st line) m (L + 1) := by
  have hlt : st.i < cfg.lines.length := (List.getElem?_eq_some_iff.mp hline).1
  have hnext : st.bgTasks ++ [L] = List.range' m (L + 1 - m) := by
    rw [hbg, Nat.succ_sub hle, range'_1_concat, Nat.add_sub_cancel' hle]
  have hL' : L + 1 = cfg.caseIndex (st.round, st.i + 1) := by
    rw [hL]
    rfl
  unfold launchLine
  dsimp only
  rw [← hL, hnext]
  split
  · next hback =>
    refine .line hpc rfl hL' ⟨hin.round, hlt, hin.start, ?_⟩
    intro f line' hf hline' hfore
    -- the line just launched is no barrier
    rcases Nat.lt_succ_iff_lt_or_eq.mp hf with hlt' | heq
    · exact hin.barrier f line' hlt' hline' hfore
    · rw [heq, hline] at hline'
      cases hline'
      rw [hback] at hfore
      cases hfore
  · exact .foreground rfl hL' hlt (hin.of_eq rfl rfl)

/-- The last result is in: a foreground line is now a barrier, a round is complete. -/
theorem Left.waited {why : WaitFor} (hl : Launched cfg st m L) (h : Left cfg st m L)
    (hpc : st.pc = .wait [] why) :
    OnCourse cfg (afterWaitBackground cfg { st with bgTasks := [] } why) := by
  have hle := hl.chans.le
  have hall : ∀ {w : WaitFor}, st.pc = .wait (List.range' m (L - m)) w → m = L ∧ why = w := by
    intro w hw
    rw [hw, DistributePc.wait.injEq, range'_eq_nil_iff] at hpc
    exact ⟨by omega, hpc.2.symm⟩
  cases h with
  | line hw | finished hw =>
    rw [hw] at hpc
    cases hpc
  | cancelled hw =>
    obtain ⟨-, rfl⟩ := hall hw
    exact .inl ⟨_, rfl⟩
  | foreground hw hL hlt hin =>
    obtain ⟨rfl, rfl⟩ := hall hw
    refine .inr ⟨m, m, hl.of_eq rfl rfl rfl, .line rfl ?_ hL ⟨hin.round, hlt, hin.start, ?_⟩⟩
    · rw [Nat.sub_self]
      rfl
    · intro f line hf _ _
      rw [hL]
      exact Nat.add_lt_add_left hf _
  | endOfRound hw hL hin =>
    obtain ⟨rfl, rfl⟩ := hall hw
    have hend : m = (st.round + 1) * cfg.lines.length := by
      rw [hL, Nat.succ_mul]
      rfl
    unfold afterWaitBackground
    dsimp only
    split
    · next hmore =>
      refine .inr ⟨m, m, hl.of_eq rfl rfl rfl, .line rfl ?_ hend ⟨hmore, Nat.zero_le _, ?_, ?_⟩⟩
      · rw [Nat.sub_self]
        rfl
      · exact Nat.le_of_eq hend.symm
      · intro f line hf
        exact absurd hf (Nat.not_lt_zero f)
    · next hlast =>
      have hrounds : st.round + 1 = cfg.rounds := by
        have := hin.round
        omega
      exact .inr ⟨m, m, hl.of_eq rfl rfl rfl, .finished rfl rfl (hrounds ▸ hend)⟩

/-- What is waited for next is the oldest line not received yet. -/
theorem range'_head {idx : ℕ} {rest : List ℕ} (h : List.range' m (L - m) = idx :: rest) :
    idx = m ∧ m < L ∧ rest = List.range' (m + 1) (L - (m + 1)) := by
  cases hlen : L - m with
  | zero =>
    rw [hlen] at h
    cases h
  | succ c =>
    rw [hlen, range'_succ, List.cons.injEq] at h
    refine ⟨h.1.symm, by omega, ?_⟩
    rw [← h.2]
    congr 1
    omega

theorem Left.received {idx : ℕ} {rest : List ℕ} {why : WaitFor} {res : LineResult}
    (hl : Launched cfg st m L) (h : Left cfg st m L) (hpc : st.pc = .wait (idx :: rest) why)
    (hch : st.chans idx = .ready res) (hres : res.breaks = false) :
    OnCourse cfg
      { st with chans := update st.chans idx (.drained res), pc := .wait rest why } := by
  have hnext : ∀ {w : WaitFor}, st.pc = .wait (List.range' m (L - m)) w →
      why = w ∧ idx = m ∧ m < L ∧ rest = List.range' (m + 1) (L - (m + 1)) := by
    intro w hw
    rw [hw, DistributePc.wait.injEq] at hpc
    exact ⟨hpc.2.symm, range'_head hpc.1⟩
  have hmoved : idx = m → m < L → Launched cfg
      { st with chans := update st.chans idx (.drained res), pc := .wait rest why }
      (m + 1) L := by
    intro hm hlt
    subst hm
    exact ⟨hl.chans.receive hch hlt fun hP => ⟨hP, hres⟩, hl.order, hl.inside, hl.unseen⟩
  have hsucc : m ≤ m + 1 := Nat.le_succ m
  cases h with
  | line hw | finished hw =>
    rw [hw] at hpc
    cases hpc
  | foreground hw hL hlt hin =>
    obtain ⟨rfl, hm, hlt', rfl⟩ := hnext hw
    exact .inr ⟨m + 1, L, hmoved hm hlt', .foreground rfl hL hlt ((hin.mono hsucc).of_eq rfl rfl)⟩
  | endOfRound hw hL hin =>
    obtain ⟨rfl, hm, hlt', rfl⟩ := hnext hw
    exact .inr ⟨m + 1, L, hmoved hm hlt', .endOfRound rfl hL ((hin.mono hsucc).of_eq rfl rfl)⟩
  | cancelled hw =>
    obtain ⟨rfl, hm, hlt', rfl⟩ := hnext hw
    exact .inr ⟨m + 1, L, hmoved hm hlt', .cancelled rfl⟩

/-- What the loop has left does not depend on the channels or the context. -/
theorem Left.of_eq (h : Left cfg st m L) (hpc : st'.pc = st.pc) (hr : st'.round = st.round)
    (hi : st'.i = st.i) (hbg : st'.bgTasks = st.bgTasks) : Left cfg st' m L := by
  cases h with
  | line hw hb hL hin =>
    exact .line (hpc.trans hw) (hbg.trans hb) (by rw [hr, hi]; exact hL) (hin.of_eq hr hi)
  | foreground hw hL hlt hin =>
    exact .foreground (hpc.trans hw) (by rw [hr, hi]; exact hL) (hi ▸ hlt) (hin.of_eq hr hi)
  | endOfRound hw hL hin =>
    exact .endOfRound (hpc.trans hw) (by rw [hr]; exact hL) (hin.of_eq hr hi)
  | cancelled hw => exact .cancelled (hpc.trans hw)
  | finished hw hm hL => exact .finished (hpc.trans hw) hm hL

/-- **One step** of the loop, of a line or of the context keeps the invariant. -/
theorem OnCourse.step (h : OnCourse cfg st) (hstep : distributeStep cfg st a = some st') :
    OnCourse cfg st' := by
  have hmoved := distributeStep_moved hstep
  rcases h with ⟨err, herr⟩ | ⟨m, L, hl, hleft⟩
  · -- past its `return` the loop does nothing more; lines may still end
    cases hmoved with
    | leave hpc | launch hpc | roundOver hpc | waited hpc | broke hpc | received hpc =>
      rw [herr] at hpc
      cases hpc
    | completed | cancelled => exact .inl ⟨err, herr⟩
  · cases hmoved with
    | leave hpc hline hctx =>
      cases hleft with
      | line _ hbg hL hin =>
        exact .inr ⟨m, L, hl.of_eq rfl rfl rfl, .cancelled (congrArg (DistributePc.wait · _) hbg)⟩
      | foreground hw | endOfRound hw | cancelled hw | finished hw =>
        rw [hpc] at hw
        cases hw
    | launch hpc hline hctx =>
      cases hleft with
      | line _ hbg hL hin =>
        exact .inr ⟨m, L + 1, hl.launch hline hL, .launch hline hpc hl.chans.le hbg hL hin⟩
      | foreground hw | endOfRound hw | cancelled hw | finished hw =>
        rw [hpc] at hw
        cases hw
    | roundOver hpc hline =>
      cases hleft with
      | line _ hbg hL hin =>
        have hi : st.i = cfg.lines.length :=
          Nat.le_antisymm hin.bound (List.getElem?_eq_none_iff.mp hline)
        refine .inr ⟨m, L, hl.of_eq rfl rfl rfl, .endOfRound ?_ (hi ▸ hL) (hin.of_eq rfl rfl)⟩
        exact congrArg (DistributePc.wait · _) hbg
      | foreground hw | endOfRound hw | cancelled hw | finished hw =>
        rw [hpc] at hw
        cases hw
    | waited hpc => exact hleft.waited hl hpc
    | broke hpc hch hres => exact .inl ⟨_, rfl⟩
    | received hpc hch hres => exact hleft.received hl hpc hch hres
    | completed hch =>
      refine .inr ⟨m, L, ⟨?_, hl.order, hl.inside, hl.unseen⟩, hleft.of_eq rfl rfl rfl rfl⟩
      exact hl.chans.complete hch fun hJ => ⟨_, _, hJ, rfl⟩
    | cancelled => exact .inr ⟨m, L, hl.of_eq rfl rfl rfl, hleft.of_eq rfl rfl rfl rfl⟩

/-! ## A whole run -/

/-- Of the first `n` rounds' case indices, `n` are of line `j`. -/
theorem countP_mod_range {len j : ℕ} (hj : j < len) (n : ℕ) :
    (List.range (n * len)).countP (fun k => k % len == j) = n := by
  induction n with
  | zero => simp
  | succ n ih =>
    have hrow : (List.range len).countP (fun k => (n * len + k) % len == j) = 1 := by
      have hcongr : (List.range len).countP (fun k => (n * len + k) % len == j) =
          (List.range len).count j := by
        apply countP_congr
        intro k hk
        rw [Nat.mul_comm, Nat.mul_add_mod, Nat.mod_eq_of_lt (mem_range.mp hk)]
      rw [hcongr, count_eq_one_of_mem nodup_range (mem_range.mpr hj)]
    rw [Nat.succ_mul, range_add, countP_append, ih, countP_map]
    exact congrArg (n + ·) hrow

/-- A line has one case index in each round. -/
theorem Launched.count (h : Launched cfg st m (cfg.rounds * cfg.lines.length)) {j : ℕ}
    (hj : j < cfg.lines.length) : st.launches.countP (fun p => p.2 == j) = cfg.rounds := by
  have hmod : ∀ p ∈ st.launches, (p.2 == j) = (cfg.caseIndex p % cfg.lines.length == j) := by
    intro p hp
    have hlt := h.inside p hp
    unfold DistributeConfig.caseIndex
    rw [Nat.mul_comm, Nat.mul_add_mod, Nat.mod_eq_of_lt hlt]
  calc st.launches.countP (fun p => p.2 == j)
      = st.launches.countP (fun p => cfg.caseIndex p % cfg.lines.length == j) :=
        countP_congr fun p hp => by rw [hmod p hp]
    _ = (st.launches.map cfg.caseIndex).countP (fun k => k % cfg.lines.length == j) := by
        rw [countP_map]
        rfl
    _ = cfg.rounds := by rw [h.order, countP_mod_range hj]

theorem OnCourse.allServed (h : OnCourse cfg st) (hpc : st.pc = .returned none) :
    AllServed cfg st := by
  rcases h with ⟨err, herr⟩ | ⟨m, L, hl, hleft⟩
  · rw [hpc] at herr
    cases herr
  · cases hleft with
    | line hw | foreground hw | endOfRound hw | cancelled hw =>
      rw [hpc] at hw
      cases hw
    | finished _ hm hL =>
      subst hm hL
      refine ⟨fun j hj => hl.count hj, ?_⟩
      intro p hp
      have hlt : cfg.caseIndex p < cfg.rounds * cfg.lines.length := by
        rw [← mem_range, ← hl.order]
        exact mem_map_of_mem hp
      obtain ⟨res, hres, ⟨line, err, hline, rfl⟩, hcalm⟩ := hl.chans.drained _ hlt
      refine ⟨line, err, ?_, hres, ?_⟩
      · have hat : cfg.LineAt (cfg.caseIndex (p.1, p.2)) _ :=
          lineAt_caseIndex (List.getElem?_eq_getElem (hl.inside p hp))
        rw [List.getElem?_eq_getElem (hl.inside p hp), ← hat]
        exact hline
      · intro hbreak
        have hnone : (err.isSome && line.errorBreak) = false := hcalm
        rw [hbreak, Bool.and_true, Option.isSome_eq_false_iff, Option.isNone_iff_eq_none] at hnone
        exact hnone

/-- **Foreground lines are barriers.** Whatever the lines, the number of rounds, and the order
and outcome of the completions, and whenever the context is cancelled: the loop launches a
line only when everything up to the latest earlier foreground line, and every earlier round,
has completed and no wait has received a breaking failure; and if it returns without an
error, each line was launched once a round, every launched line has completed, and none with
`ErrorBreak` failed. -/
theorem foreground_lines_are_barriers (cfg : DistributeConfig) (as : List DistributeAction) :
    Along (distributeStep cfg) (LaunchesClear cfg) (distributeInit cfg) as ∧
    ∀ st, run (distributeStep cfg) (distributeInit cfg) as = some st →
      st.pc = .returned none → AllServed cfg st := by
  refine ⟨?_, ?_⟩
  · exact along_of_inv (fun _ _ _ h => h.step) (fun _ _ h => h.launchesClear) as onCourse_init
  · intro st hrun hpc
    exact OnCourse.allServed (run_inv_all (fun _ _ _ h => h.step) as onCourse_init hrun) hpc

/-- A background line and a foreground line after it, once. -/
def loginThenSync : DistributeConfig where
  lines :=
    [⟨false, true, ⟨"login", 0, true, "", 0, 10, 0, 0, 0, []⟩, ⟨"", 0, false, false, []⟩⟩,
      ⟨true, false, ⟨"", 0, false, "", 0, 0, 0, 0, 0, []⟩, ⟨"sync", 0, false, false, []⟩⟩]
  repeatedTime := 1

/-- The foreground line ends first and fails, the background line after it. -/
def loginThenSyncRun : List DistributeAction :=
  [.main, .main, .complete 1 (some "timeout"), .complete 0 none] ++ List.replicate 5 .main

/-- The loop still waits for both and returns without an error: the line that failed is not
one with `ErrorBreak`. -/
theorem login_then_sync_served :
    ∃ st, run (distributeStep loginThenSync) (distributeInit loginThenSync) loginThenSyncRun =
      some st ∧ st.launches = [(0, 0), (0, 1)] ∧ AllServed loginThenSync st :=
  ⟨_, rfl, rfl, (foreground_lines_are_barriers loginThenSync loginThenSyncRun).2 _ rfl rfl⟩

end Robot.Mode
