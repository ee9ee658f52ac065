import Robot.Mode.Solo

/-!
# Solo mode: the condition is exact

The converse of the previous file: when the first breaking failure is not `BreaksLast`,
some completion order goes wrong. The order is built, not searched for:

* up to the breaking line every launched line finishes at once, so every wait succeeds
  and the loop arrives there (`reach_settled`);
* if another line is launched before the wait, it is left running; the wait returns at
  the breaking result and never reaches it (`bad_unfinished`);
* after the early return the front of `bgTasks` is drained for good, so the next line that
  is not skipped either waits on it, or runs in the background and is still running when
  the loop ends (`bad_after_break`).
-/

namespace Robot.Mode

open Robot.Lib Function Robot.Case List

variable {cfg : SoloConfig}

/-- Some completion order leads from `st` to a bad state. -/
def GoesWrong (cfg : SoloConfig) (st : SoloState) : Prop :=
  ∃ st', Reaches (soloStep cfg) st st' ∧ ¬ SoloGood st'

variable {st : SoloState} {L idx m round : Nat} {rest : List Nat} {e : Bool} {line : CaseFileLine}

theorem GoesWrong.main {st' : SoloState} (hstep : mainStep cfg st = some st')
    (h : GoesWrong cfg st') : GoesWrong cfg st := by
  obtain ⟨t, hreach, hbad⟩ := h
  exact ⟨t, hreach.head .main hstep, hbad⟩

theorem GoesWrong.reach {st' : SoloState} (hr : Reaches (soloStep cfg) st st')
    (h : GoesWrong cfg st') : GoesWrong cfg st := by
  obtain ⟨t, hreach, hbad⟩ := h
  exact ⟨t, hr.trans hreach, hbad⟩

theorem goesWrong_drained
    (hpc : st.pc = .wait (idx :: rest) e) {res : BgResult} (hd : st.chans idx = .drained res) :
    GoesWrong cfg st :=
  ⟨st, .refl st, fun hg => hg.1 idx rest e hpc res hd⟩

theorem goesWrong_running {b : Bool} (hpc : st.pc = .finished)
    (hr : st.chans idx = .running b) : GoesWrong cfg st :=
  ⟨st, .refl st, fun hg => hg.2 hpc idx b hr⟩

/-! ## Blocks of line numbers -/

/-- A block of line numbers, cut at one of them. -/
theorem range'_cut {b : Nat} (hle : m ≤ b) (hlt : b < L) :
    List.range' m (L - m) = List.range' m (b - m) ++ b :: List.range' (b + 1) (L - (b + 1)) := by
  have hsplit : L - m = (b - m) + (L - (b + 1) + 1) := by omega
  have hmid : m + (b - m) = b := by omega
  rw [hsplit, ← range'_append_1, hmid, range'_succ]

theorem range'_snoc (hle : m ≤ L) :
    List.range' m (L - m) ++ [L] = List.range' m (L + 1 - m) := by
  rw [Nat.succ_sub hle, range'_1_concat]
  congr 2
  omega

theorem range'_front (hle : m ≤ L) :
    List.range' m (L + 1 - m) = m :: List.range' (m + 1) (L - m) := by
  rw [Nat.succ_sub hle, range'_succ]

/-! ## Single steps of the main goroutine -/

/-- The state after line `line` has been launched as number `idx`. -/
def launched (st : SoloState) (line : CaseFileLine) (idx : Nat) : SoloState :=
  if line.backgroundRunning then
    { st with i := st.i + 1, bgTasks := st.bgTasks ++ [idx],
              chans := update st.chans idx (.running line.errorBreak) }
  else
    { st with pc := .wait (st.bgTasks ++ [idx]) false, bgTasks := st.bgTasks ++ [idx],
              chans := update st.chans idx (.running line.errorBreak) }

theorem mainStep_launch (hpc : st.pc = .line) (hline : cfg.lines[st.i]? = some line)
    (hgo : (st.abortRemaining && shouldSkipAfterBreakingFailure line) = false) :
    mainStep cfg st = some (launched st line (st.round * cfg.lines.length + st.i)) := by
  unfold mainStep launched
  simp only [hpc, hline, hgo, Bool.false_eq_true, if_false]
  split <;> rfl

theorem mainStep_receive (hpc : st.pc = .wait (idx :: rest) e)
    (hready : st.chans idx = .ready (cfg.result idx)) :
    mainStep cfg st = if cfg.breaks idx then
        some (afterWait cfg { st with
          chans := update st.chans idx (.drained (cfg.result idx)), abortRemaining := true } e)
      else some { st with chans := update st.chans idx (.drained (cfg.result idx)), pc := .wait rest e } := by
  unfold mainStep
  simp only [hpc, hready]
  rfl

/-- The state after a wait has received from the channels `m, …, m + c - 1`. -/
def waited (cfg : SoloConfig) (st : SoloState) (m c : Nat) (rest : List Nat) (e : Bool) : SoloState :=
  { st with
    pc := .wait rest e
    chans := fun k => if m ≤ k ∧ k < m + c then .drained (cfg.result k) else st.chans k }

/-- A wait runs through finished lines that do not break. -/
theorem reaches_waited : ∀ (c : Nat) {st : SoloState} {m : Nat} {rest : List Nat} {e : Bool},
    st.pc = .wait (List.range' m c ++ rest) e →
    (∀ k, m ≤ k → k < m + c → st.chans k = .ready (cfg.result k)) →
    (∀ k, m ≤ k → k < m + c → cfg.breaks k = false) →
    Reaches (soloStep cfg) st (waited cfg st m c rest e) := by
  intro c
  induction c with
  | zero =>
    intro st m rest e hpc _ _
    have hsame : waited cfg st m 0 rest e = st := by
      unfold waited
      rw [range'_zero, nil_append] at hpc
      have hchans : (fun k => if m ≤ k ∧ k < m + 0 then .drained (cfg.result k) else st.chans k) = st.chans := by
        funext k
        exact if_neg (by omega)
      rw [hchans, ← hpc]
    rw [hsame]
    exact .refl st
  | succ c ih =>
    intro st m rest e hpc hready hquiet
    rw [range'_succ, cons_append] at hpc
    have hfirst := mainStep_receive hpc (hready m (by omega) (by omega))
    rw [hquiet m (by omega) (by omega), if_neg (by simp)] at hfirst
    refine Reaches.head .main hfirst ?_
    -- the channels drained one by one are those drained together
    have hjoin : waited cfg
        { st with
          chans := update st.chans m (.drained (cfg.result m))
          pc := .wait (List.range' (m + 1) c ++ rest) e }
        (m + 1) c rest e = waited cfg st m (c + 1) rest e := by
      unfold waited
      simp only [SoloState.mk.injEq, true_and]
      funext k
      by_cases he : k = m
      · subst he
        rw [if_neg (by omega), if_pos (by omega), update_self]
      · rw [update_of_ne he]
        by_cases hin : m + 1 ≤ k ∧ k < m + 1 + c
        · rw [if_pos hin, if_pos (by omega)]
        · rw [if_neg hin, if_neg (by omega)]
    rw [← hjoin]
    refine ih rfl ?_ (fun k hk1 hk2 => hquiet k (by omega) (by omega))
    intro k hk1 hk2
    show update st.chans m _ k = _
    rw [update_of_ne (by omega)]
    exact hready k (by omega) (by omega)

/-! ## Arriving at the breaking line -/

/-- At line `i` of a round, before any breaking failure, with every launched line finished. -/
structure Settled (cfg : SoloConfig) (st : SoloState) (round i m : Nat) : Prop where
  pc : st.pc = .line
  abort : st.abortRemaining = false
  hround : st.round = round
  hi : st.i = i
  le : m ≤ round * cfg.lines.length + i
  bg : st.bgTasks = List.range' m (round * cfg.lines.length + i - m)
  ready : ∀ k, m ≤ k → k < round * cfg.lines.length + i →
    st.chans k = .ready (cfg.result k)
  unmade : ∀ k, round * cfg.lines.length + i ≤ k → st.chans k = .unmade

/-- Launching line `i` and letting it finish at once. -/
theorem Settled.launch {i : Nat}
    (h : Settled cfg st round i m) (hline : cfg.lines[i]? = some line) :
    ∃ st', Reaches (soloStep cfg) st st' ∧ st'.abortRemaining = false ∧ st'.round = round ∧
      st'.bgTasks = List.range' m (round * cfg.lines.length + i - m) ++
        [round * cfg.lines.length + i] ∧ (∀ k, m ≤ k → k ≤ round * cfg.lines.length + i →
        st'.chans k = .ready (cfg.result k)) ∧
      (∀ k, round * cfg.lines.length + i < k → st'.chans k = .unmade) ∧
      (line.backgroundRunning = true → st'.pc = .line ∧ st'.i = i + 1) ∧
      (line.backgroundRunning = false → st'.pc = .wait st'.bgTasks false ∧ st'.i = i) := by
  obtain ⟨hpc, habort, hround, hi, hle, hbg, hready, hunmade⟩ := h
  subst hround hi
  have hstep := mainStep_launch hpc hline (by rw [habort]; rfl)
  generalize hL : st.round * cfg.lines.length + st.i = L at *
  have hflag : cfg.breakFlag L = line.errorBreak := by rw [← hL]; exact breakFlag_at hline
  have hrun : (launched st line L).chans = update st.chans L (.running (cfg.breakFlag L)) := by
    unfold launched
    rw [hflag]
    split <;> rfl
  have hdone : soloStep cfg (launched st line L) (.complete L) = some
      { launched st line L with
        chans := update (launched st line L).chans L
          (.ready (cfg.result L)) } := by
    have hat : (launched st line L).chans L = .running (cfg.breakFlag L) := by
      rw [hrun, update_self]
    simp only [soloStep, hat]
    rfl
  refine ⟨_, (Reaches.refl _).head (.complete L) hdone |>.head .main hstep, ?_, ?_, ?_, ?_, ?_, ?_, ?_⟩
  · unfold launched; split <;> exact habort
  · unfold launched; split <;> rfl
  · unfold launched; split <;> (show st.bgTasks ++ [L] = _; rw [hbg])
  · intro k hk1 hk2
    show update (launched st line L).chans L _ k = _
    by_cases he : k = L
    · rw [he, update_self]
    · rw [update_of_ne he, hrun, update_of_ne he]
      exact hready k hk1 (by omega)
  · intro k hk
    show update (launched st line L).chans L _ k = _
    rw [update_of_ne (by omega), hrun, update_of_ne (by omega)]
    exact hunmade k (by omega)
  · intro hback
    unfold launched
    rw [if_pos hback]
    exact ⟨hpc, rfl⟩
  · intro hfore
    unfold launched
    rw [if_neg (by simp [hfore])]
    exact ⟨rfl, rfl⟩

/-- A line that does not break is passed, wait included. -/
theorem Settled.next {i : Nat} (h : Settled cfg st round i m) (hline : cfg.lines[i]? = some line)
    (hquiet : ∀ k < round * cfg.lines.length + (i + 1), cfg.breaks k = false) :
    ∃ st' m', Reaches (soloStep cfg) st st' ∧ Settled cfg st' round (i + 1) m' := by
  have hle := h.le
  obtain ⟨st', hreach, habort, hround, hbg, hready, hunmade, hback, hfore⟩ := h.launch hline
  rw [range'_snoc hle, Nat.add_assoc] at hbg
  cases hb : line.backgroundRunning with
  | true =>
    obtain ⟨hpc, hi⟩ := hback hb
    exact ⟨st', m, hreach, hpc, habort, hround, hi, by omega, hbg,
      fun k hk1 hk2 => hready k hk1 (by omega), fun k hk => hunmade k (by omega)⟩
  | false =>
    obtain ⟨hpc, hi⟩ := hfore hb
    generalize hc : round * cfg.lines.length + (i + 1) - m = c at hbg
    have hdrain : Reaches (soloStep cfg) st' (waited cfg st' m c [] false) :=
      reaches_waited c (by rw [hpc, hbg, append_nil])
        (fun k hk1 hk2 => hready k hk1 (by omega)) (fun k _ hk2 => hquiet k (by omega))
    have hnext : soloStep cfg (waited cfg st' m c [] false) .main
        = some (afterWait cfg { waited cfg st' m c [] false with bgTasks := [] } false) := rfl
    refine ⟨_, round * cfg.lines.length + (i + 1),
      hreach.trans (hdrain.trans ((Reaches.refl _).head .main hnext)), ?_⟩
    refine ⟨rfl, habort, hround, congrArg (· + 1) hi, Nat.le_refl _, ?_, ?_, ?_⟩
    · rw [Nat.sub_self]
      rfl
    · intro k hk1 hk2
      omega
    · intro k hk
      show (if m ≤ k ∧ k < m + c then OneShot.drained (cfg.result k) else st'.chans k) = _
      rw [if_neg (by omega)]
      exact hunmade k (by omega)

/-- The end of a round without a breaking failure. -/
theorem Settled.nextRound
    (h : Settled cfg st round cfg.lines.length m) (hr : round + 1 < cfg.rounds)
    (hquiet : ∀ k < (round + 1) * cfg.lines.length, cfg.breaks k = false) :
    ∃ st' m', Reaches (soloStep cfg) st st' ∧ Settled cfg st' (round + 1) 0 m' := by
  obtain ⟨hpc, habort, hround, hi, hle, hbg, hready, hunmade⟩ := h
  have hmul : (round + 1) * cfg.lines.length
      = round * cfg.lines.length + cfg.lines.length := Nat.succ_mul _ _
  generalize hc : round * cfg.lines.length + cfg.lines.length - m = c at hbg
  have hend : mainStep cfg st = some { st with pc := .wait st.bgTasks true } := by
    unfold mainStep
    simp only [hpc, hi, List.getElem?_eq_none (Nat.le_refl _), habort, Bool.false_eq_true, if_false]
  have hdrain : Reaches (soloStep cfg) { st with pc := .wait st.bgTasks true }
      (waited cfg { st with pc := .wait st.bgTasks true } m c [] true) :=
    reaches_waited c (by rw [append_nil]; exact congrArg (SoloPc.wait · true) hbg)
      (fun k hk1 hk2 => hready k hk1 (by omega)) (fun k _ hk2 => hquiet k (by omega))
  have hnext : soloStep cfg (waited cfg { st with pc := .wait st.bgTasks true } m c [] true) .main
      = some (afterWait cfg
          { waited cfg { st with pc := .wait st.bgTasks true } m c [] true with bgTasks := [] } true) :=
    rfl
  have hgo : afterWait cfg
      { waited cfg { st with pc := .wait st.bgTasks true } m c [] true with bgTasks := [] } true
      = { waited cfg { st with pc := .wait st.bgTasks true } m c [] true with
          bgTasks := [], round := round + 1, i := 0, pc := .line } := by
    unfold afterWait waited
    simp only [if_true, habort, hround, hr, Bool.false_eq_true, if_false]
  rw [hgo] at hnext
  refine ⟨_, (round + 1) * cfg.lines.length,
    Reaches.head .main hend (hdrain.trans ((Reaches.refl _).head .main hnext)), ?_⟩
  refine ⟨rfl, habort, rfl, rfl, Nat.le_refl _, ?_, ?_, ?_⟩
  · show [] = List.range' _ ((round + 1) * cfg.lines.length + 0 - (round + 1) * cfg.lines.length)
    simp
  · intro k hk1 hk2
    omega
  · intro k hk
    show (if m ≤ k ∧ k < m + c then OneShot.drained (cfg.result k) else st.chans k) = _
    rw [if_neg (by omega)]
    exact hunmade k (by omega)

/-- Within a round: any line up to which nothing breaks is reached. -/
theorem Settled.advance (h : Settled cfg st round 0 m) :
    ∀ i ≤ cfg.lines.length, (∀ k < round * cfg.lines.length + i, cfg.breaks k = false) →
      ∃ st' m', Reaches (soloStep cfg) st st' ∧ Settled cfg st' round i m' := by
  intro i
  induction i with
  | zero => intro _ _; exact ⟨st, m, .refl st, h⟩
  | succ i ih =>
    intro hi hquiet
    obtain ⟨st₁, m₁, hr₁, hs₁⟩ := ih (by omega) (fun k hk => hquiet k (by omega))
    obtain ⟨line, hline⟩ : ∃ line, cfg.lines[i]? = some line :=
      ⟨_, List.getElem?_eq_getElem (by omega)⟩
    obtain ⟨st₂, m₂, hr₂, hs₂⟩ := hs₁.next hline hquiet
    exact ⟨st₂, m₂, hr₁.trans hr₂, hs₂⟩

/-- **The loop arrives** at every line of every round up to which nothing breaks. -/
theorem reach_settled : ∀ round < cfg.rounds, ∀ i ≤ cfg.lines.length,
    (∀ k < round * cfg.lines.length + i, cfg.breaks k = false) →
    ∃ st m, Reaches (soloStep cfg) soloInit st ∧ Settled cfg st round i m := by
  intro round
  induction round with
  | zero =>
    intro _ i hi hquiet
    have hinit : Settled cfg soloInit 0 0 0 :=
      ⟨rfl, rfl, rfl, rfl, Nat.zero_le _, by simp [soloInit], fun k _ hk => by omega,
        fun _ _ => rfl⟩
    exact hinit.advance i hi hquiet
  | succ round ih =>
    intro hround i hi hquiet
    have hmul : (round + 1) * cfg.lines.length
      = round * cfg.lines.length + cfg.lines.length := Nat.succ_mul _ _
    obtain ⟨st₁, m₁, hr₁, hs₁⟩ := ih (by omega) cfg.lines.length (Nat.le_refl _)
      (fun k hk => hquiet k (by omega))
    obtain ⟨st₂, m₂, hr₂, hs₂⟩ := hs₁.nextRound hround (fun k hk => hquiet k (by omega))
    obtain ⟨st₃, m₃, hr₃, hs₃⟩ := hs₂.advance i hi hquiet
    exact ⟨st₃, m₃, hr₁.trans (hr₂.trans hr₃), hs₃⟩

/-! ## After the early return -/

/-- After the early return the front of `bgTasks` is drained. If a line is still running, or
one is still to be launched, the rest of the round goes wrong. -/
theorem bad_after_break : ∀ (d : Nat) {st : SoloState} {front : Nat} {tasks : List Nat},
    cfg.lines.length - st.i = d → st.pc = .line → st.abortRemaining = true →
    st.bgTasks = front :: tasks → (∃ res, st.chans front = .drained res) →
    (∀ k, st.round * cfg.lines.length + st.i ≤ k → st.chans k = .unmade) →
    ((∃ k b, st.chans k = .running b) ∨
      ∃ j line, st.i ≤ j ∧ cfg.lines[j]? = some line ∧
        shouldSkipAfterBreakingFailure line = false) →
    GoesWrong cfg st := by
  intro d
  induction d with
  | zero =>
    intro st front tasks hd hpc habort hbg hfront hunmade hleft
    have hline : cfg.lines[st.i]? = none := List.getElem?_eq_none (by omega)
    have hend : mainStep cfg st = some { st with pc := .finished } := by
      unfold mainStep
      simp only [hpc, hline, habort, if_true]
    refine GoesWrong.main hend ?_
    rcases hleft with ⟨k, b, hrun⟩ | ⟨j, line, hj, hline', -⟩
    · exact goesWrong_running rfl hrun
    · rw [List.getElem?_eq_none (by omega)] at hline'
      simp at hline'
  | succ d ih =>
    intro st front tasks hd hpc habort hbg hfront hunmade hleft
    obtain ⟨line, hline⟩ : ∃ line, cfg.lines[st.i]? = some line :=
      ⟨_, List.getElem?_eq_getElem (by omega)⟩
    cases hskip : shouldSkipAfterBreakingFailure line with
    | true =>
      have hstep : mainStep cfg st = some { st with i := st.i + 1 } := by
        unfold mainStep
        simp only [hpc, hline, habort, hskip, Bool.and_self, if_true]
      refine GoesWrong.main hstep
        (ih (by show _ - (st.i + 1) = d; omega) hpc habort hbg hfront ?_ ?_)
      · intro k hk
        exact hunmade k (by change st.round * cfg.lines.length + (st.i + 1) ≤ k at hk; omega)
      · rcases hleft with hrun | ⟨j, line', hj, hline', hgo⟩
        · exact Or.inl hrun
        · refine Or.inr ⟨j, line', ?_, hline', hgo⟩
          show st.i + 1 ≤ j
          rcases Nat.lt_or_ge st.i j with hlt | hge
          · exact hlt
          · have hji : j = st.i := by omega
            rw [hji, hline, Option.some.injEq] at hline'
            rw [← hline', hskip] at hgo
            simp at hgo
    | false =>
      have hidx := hunmade (st.round * cfg.lines.length + st.i) (Nat.le_refl _)
      have hstep := mainStep_launch hpc hline (by rw [hskip, Bool.and_false])
      generalize hL : st.round * cfg.lines.length + st.i = L at *
      obtain ⟨res, hfront⟩ := hfront
      have hne : front ≠ L := by
        intro he
        rw [he, hidx] at hfront
        simp at hfront
      have hbg' : st.bgTasks ++ [L] = front :: (tasks ++ [L]) := by rw [hbg, cons_append]
      have hfront' : update st.chans L (.running line.errorBreak) front = .drained res := by
        rw [update_of_ne hne]
        exact hfront
      refine GoesWrong.main hstep ?_
      unfold launched
      cases hb : line.backgroundRunning with
      | true =>
        rw [if_pos rfl]
        refine ih (by show _ - (st.i + 1) = d; omega) hpc habort hbg' ⟨res, hfront'⟩ ?_
          (Or.inl ⟨L, line.errorBreak, update_self ..⟩)
        intro k hk
        change st.round * cfg.lines.length + (st.i + 1) ≤ k at hk
        show update st.chans L _ k = _
        rw [update_of_ne (by omega)]
        exact hunmade k (by omega)
      | false =>
        rw [if_neg (by simp)]
        exact goesWrong_drained (congrArg (SoloPc.wait · false) hbg') hfront'

/-! ## A line left running -/

/-- The breaking line `b` has finished but is not the last one launched before its wait, and
the line after it never finishes. -/
structure Unfinished (cfg : SoloConfig) (st : SoloState) (m b : Nat) : Prop where
  pc : st.pc = .line
  abort : st.abortRemaining = false
  bound : st.i ≤ cfg.lines.length
  le : m ≤ b
  bg : st.bgTasks = List.range' m (st.round * cfg.lines.length + st.i - m)
  ready : ∀ k, m ≤ k → k ≤ b → st.chans k = .ready (cfg.result k)
  unmade : ∀ k, st.round * cfg.lines.length + st.i ≤ k → st.chans k = .unmade
  quiet : ∀ k < b, cfg.breaks k = false
  breaks : cfg.breaks b = true
  left : (b + 1 < st.round * cfg.lines.length + st.i ∧ ∃ e, st.chans (b + 1) = .running e) ∨
    (b + 1 = st.round * cfg.lines.length + st.i ∧ st.i < cfg.lines.length)

/-- The wait over `m, …, b, b + 1, …` returns at `b`. -/
theorem reaches_break (st : SoloState) {b : Nat} (hle : m ≤ b)
    (hpc : st.pc = .wait (List.range' m (b - m) ++ b :: rest) e)
    (hready : ∀ k, m ≤ k → k ≤ b → st.chans k = .ready (cfg.result k))
    (hquiet : ∀ k < b, cfg.breaks k = false) (hbreak : cfg.breaks b = true) :
    ∃ st', Reaches (soloStep cfg) st (afterWait cfg st' e) ∧ st'.abortRemaining = true ∧
      st'.round = st.round ∧ st'.i = st.i ∧ st'.bgTasks = st.bgTasks ∧
      (∃ res, st'.chans m = .drained res) ∧ ∀ k, b < k → st'.chans k = st.chans k := by
  have hdrain : Reaches (soloStep cfg) st (waited cfg st m (b - m) (b :: rest) e) :=
    reaches_waited (b - m) hpc (fun k hk1 hk2 => hready k hk1 (by omega))
      (fun k _ hk2 => hquiet k (by omega))
  have hat : (waited cfg st m (b - m) (b :: rest) e).chans b
      = .ready (cfg.result b) := by
    show (if m ≤ b ∧ b < m + (b - m) then OneShot.drained (cfg.result b) else st.chans b) = _
    rw [if_neg (by omega)]
    exact hready b hle (Nat.le_refl b)
  have hlast : mainStep cfg (waited cfg st m (b - m) (b :: rest) e) = _ := mainStep_receive rfl hat
  rw [hbreak, if_pos rfl] at hlast
  refine ⟨_, hdrain.trans ((Reaches.refl _).head .main hlast), rfl, rfl, rfl, rfl, ?_, ?_⟩
  · refine ⟨cfg.result m, ?_⟩
    show update (waited cfg st m (b - m) (b :: rest) e).chans b (.drained (cfg.result b)) m = _
    by_cases he : m = b
    · rw [he, update_self]
    · rw [update_of_ne he]
      exact if_pos (by omega)
  · intro k hk
    show update (waited cfg st m (b - m) (b :: rest) e).chans b _ k = st.chans k
    rw [update_of_ne (by omega)]
    exact if_neg (by omega)

/-- **The line after a breaking one is forgotten**, wherever the wait comes. -/
theorem bad_unfinished : ∀ (d : Nat) {st : SoloState} {m b : Nat},
    cfg.lines.length - st.i = d → Unfinished cfg st m b → GoesWrong cfg st := by
  intro d
  induction d with
  | zero =>
    intro st m b hd h
    have hbound := h.bound
    obtain ⟨hlt, e, hrun⟩ := h.left.resolve_right (fun hr => by omega)
    have hline : cfg.lines[st.i]? = none := List.getElem?_eq_none (by omega)
    have hend : mainStep cfg st = some { st with pc := .wait st.bgTasks true } := by
      unfold mainStep
      simp only [h.pc, hline, h.abort, Bool.false_eq_true, if_false]
    refine GoesWrong.main hend ?_
    have hcut := h.bg.trans (range'_cut h.le (show b < _ by omega))
    obtain ⟨st', hreach, habort, -, -, -, -, hsame⟩ := reaches_break
      { st with pc := .wait st.bgTasks true } h.le (congrArg (SoloPc.wait · true) hcut) h.ready h.quiet h.breaks
    refine GoesWrong.reach hreach ?_
    have hfin : afterWait cfg st' true = { st' with pc := .finished } := by
      unfold afterWait
      simp only [if_true, habort]
    rw [hfin]
    exact goesWrong_running rfl ((hsame (b + 1) (by omega)).trans hrun)
  | succ d ih =>
    intro st m b hd h
    obtain ⟨line, hline⟩ : ∃ line, cfg.lines[st.i]? = some line :=
      ⟨_, List.getElem?_eq_getElem (by omega)⟩
    obtain ⟨hpc, habort, hbound, hle, hbg, hready, hunmade, hquiet, hbreaks, hleft⟩ := h
    have hstep := mainStep_launch hpc hline (by rw [habort]; rfl)
    generalize hL : st.round * cfg.lines.length + st.i = L at *
    -- launching line `L` leaves the lines up to `b` finished and line `b + 1` running
    have hready' : ∀ k, m ≤ k → k ≤ b → update st.chans L (.running line.errorBreak) k
        = .ready (cfg.result k) := by
      intro k hk1 hk2
      rw [update_of_ne (by omega)]
      exact hready k hk1 hk2
    have hrun' : ∃ e, update st.chans L (.running line.errorBreak) (b + 1) = .running e := by
      by_cases he : b + 1 = L
      · exact ⟨line.errorBreak, by rw [he, update_self]⟩
      · obtain ⟨-, e, hrun⟩ := hleft.resolve_right (fun hr => he hr.1)
        exact ⟨e, by rw [update_of_ne he]; exact hrun⟩
    have hunmade' : ∀ k, L + 1 ≤ k →
        update st.chans L (.running line.errorBreak) k = .unmade := by
      intro k hk
      rw [update_of_ne (by omega)]
      exact hunmade k (by omega)
    have hbg' : st.bgTasks ++ [L] = List.range' m (L + 1 - m) := by
      rw [hbg]
      exact range'_snoc (by omega)
    refine GoesWrong.main hstep ?_
    unfold launched
    cases hb : line.backgroundRunning with
    | true =>
      rw [if_pos rfl]
      have hnext : st.round * cfg.lines.length + (st.i + 1) = L + 1 := by omega
      refine ih (by show _ - (st.i + 1) = d; omega)
        ⟨hpc, habort, by show st.i + 1 ≤ _; omega, hle, ?_, hready', ?_, hquiet, hbreaks,
          Or.inl ⟨?_, hrun'⟩⟩
      · show st.bgTasks ++ [L] = List.range' m (st.round * cfg.lines.length + (st.i + 1) - m)
        rw [hnext]
        exact hbg'
      · intro k hk
        exact hunmade' k (by rw [← hnext]; exact hk)
      · show b + 1 < st.round * cfg.lines.length + (st.i + 1)
        omega
    | false =>
      rw [if_neg (by simp)]
      have hcut := hbg'.trans (range'_cut hle (show b < L + 1 by omega))
      obtain ⟨st', hreach, habort', hround', hi', hbgs', hfront, hsame⟩ := reaches_break
        { st with
          pc := .wait (st.bgTasks ++ [L]) false
          bgTasks := st.bgTasks ++ [L]
          chans := update st.chans L (.running line.errorBreak) }
        hle (congrArg (SoloPc.wait · false) hcut) hready' hquiet hbreaks
      refine GoesWrong.reach hreach ?_
      refine bad_after_break _ rfl rfl habort'
        (hbgs'.trans (hbg'.trans (range'_front (show m ≤ L by omega)))) hfront ?_ (Or.inl ?_)
      · intro k hk
        change st'.round * cfg.lines.length + (st'.i + 1) ≤ k at hk
        rw [hround', hi'] at hk
        change st.round * cfg.lines.length + (st.i + 1) ≤ k at hk
        exact (hsame k (by omega)).trans (hunmade' k (by omega))
      · obtain ⟨e, he⟩ := hrun'
        exact ⟨b + 1, e, (hsame (b + 1) (by omega)).trans he⟩

/-! ## The result -/

/-- **A run that is not `BreaksLast` can go wrong.** -/
theorem goesWrong_of_not_breaksLast (h : ¬ BreaksLast cfg) : GoesWrong cfg soloInit := by
  unfold BreaksLast at h
  push Not at h
  obtain ⟨round, i, line, hround, hline, hbreak, hquiet, hbad⟩ := h
  have hi : i < cfg.lines.length := (List.getElem?_eq_some_iff.mp hline).1
  obtain ⟨st, m, hreach, hs⟩ := reach_settled round hround i (by omega) hquiet
  refine GoesWrong.reach hreach ?_
  have hle := hs.le
  obtain ⟨st', hreach', habort, hround', hbg, hready, hunmade, hback, hfore⟩ := hs.launch hline
  refine GoesWrong.reach hreach' ?_
  cases hb : line.backgroundRunning with
  | true =>
    obtain ⟨hpc, hi'⟩ := hback hb
    by_cases hend : i + 1 = cfg.lines.length
    · -- a background line at the end of the round leaves nothing to skip
      obtain ⟨j, line', hj, hline', -⟩ := hbad (Or.inr hend)
      have := (List.getElem?_eq_some_iff.mp hline').1
      omega
    · have hidx : st'.round * cfg.lines.length + st'.i = round * cfg.lines.length + i + 1 := by
        rw [hround', hi']
        omega
      refine bad_unfinished _ rfl (m := m) (b := round * cfg.lines.length + i)
        ⟨hpc, habort, by omega, hle, ?_, hready, ?_, hquiet, hbreak, Or.inr ⟨hidx.symm, by omega⟩⟩
      · rw [hbg, hidx]
        exact range'_snoc hle
      · intro k hk
        exact hunmade k (by omega)
  | false =>
    obtain ⟨hpc, hi'⟩ := hfore hb
    obtain ⟨j, line', hj, hline', hgo⟩ := hbad (Or.inl hb)
    obtain ⟨st₂, hreach₂, habort₂, hround₂, hi₂, hbg₂, hfront, hsame⟩ := reaches_break st' hle
      (by rw [hpc, hbg]) hready hquiet hbreak
    refine GoesWrong.reach hreach₂ ?_
    refine bad_after_break _ rfl rfl habort₂
      (hbg₂.trans (hbg.trans ((range'_snoc hle).trans (range'_front hle))))
      hfront ?_ (Or.inr ⟨j, line', ?_, hline', by simpa using hgo⟩)
    · intro k hk
      change st₂.round * cfg.lines.length + (st₂.i + 1) ≤ k at hk
      rw [hround₂, hi₂, hround', hi'] at hk
      exact (hsame k (by omega)).trans (hunmade k (by omega))
    · show st₂.i + 1 ≤ j
      rw [hi₂, hi']
      omega

/-- **When solo mode waits for each line exactly once.** For a case file, a repeat count and
the outcomes of the launched lines: in every completion order no receive is attempted
on a drained channel and the loop ends with every launched line finished, if and only
if the first breaking failure is the last line launched before its wait and the rest of
its round is skipped. -/
theorem solo_waits_once_iff (cfg : SoloConfig) :
    (∀ acts st, run (soloStep cfg) soloInit acts = some st → SoloGood st) ↔ BreaksLast cfg := by
  constructor
  · intro hgood
    refine Classical.byContradiction fun hnot => ?_
    obtain ⟨st, ⟨acts, hrun⟩, hbad⟩ := goesWrong_of_not_breaksLast hnot
    exact hbad (hgood acts st hrun)
  · intro hcond acts st hrun
    obtain ⟨m, L, hc, hs⟩ : OnTrack cfg st := run_inv_all
      (fun s a s' (h : OnTrack cfg s) hstep => h.step hcond hstep) acts onTrack_init hrun
    exact hc.good hs

/-- A stress line with `ErrorBreak` that fails, then a control line without it. -/
def breakThenControl : SoloConfig :=
  { lines :=
      [⟨false, false, ⟨"login", 0, true, "robot", 0, 1, 0, 1, 1, []⟩, ⟨"", 0, false, false, []⟩⟩,
       ⟨true, false, ⟨"", 0, false, "", 0, 0, 0, 0, 0, []⟩, ⟨"sleep", 0, false, false, []⟩⟩]
    repeatedTime := 1
    outcome := fun idx => if idx = 0 then some "login failed" else none }

/-- The control line is launched, and its wait starts at the channel of line `0`, from which
the first wait has already received. -/
theorem breakThenControl_waits_twice :
    ∃ st, run (soloStep breakThenControl) soloInit [.main, .complete 0, .main, .main] = some st ∧
      st.pc = .wait [0, 1] false ∧ st.chans 0 = .drained ⟨some "login failed", true⟩ ∧ ¬ SoloGood st :=
  ⟨_, rfl, rfl, rfl, fun hgood => hgood.1 0 [1] false rfl _ rfl⟩

end Robot.Mode
