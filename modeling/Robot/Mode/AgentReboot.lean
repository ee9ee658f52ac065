import Mathlib

/-!
# A rebooted agent and its arguments

`execSelf` of `mode/agent/agent.go` starts the process again with its own arguments, and
`injectFlagArg` appends `-agent-id` with the agent's ID unless an argument looks like that flag
already. The new process reads the arguments with the package `flag`: flags end at the first argument
that is none, or at `--`, and a flag may take the next argument as its value, whatever it looks like.

The agent keeps its ID if and only if the first process has read one, from its arguments or its
configuration, or if the arguments are flags to their end and none looks like `agent-id`
(`keeps_identity_iff`). A generated ID is lost otherwise: `-agent-id` with an empty value stays as it
is, and what is appended behind a positional argument is not read.
-/

namespace Robot.Mode

open List

/-! ## The package `flag` -/

/-- What an argument is to `parseOne`. -/
inductive FlagArg where
  | positional
  | terminator
  | badSyntax
  | flag (name : String) (value : Option String)

/-- A name, and a value behind the first `=`. -/
def readName (name : List Char) : FlagArg :=
  if name.head? = none ∨ name.head? = some '-' ∨ name.head? = some '=' then .badSyntax
  else .flag (String.ofList (name.takeWhile (· ≠ '=')))
    ((name.dropWhile (· ≠ '=')).tail?.map String.ofList)

def readFlag (s : String) : FlagArg :=
  match s.toList with
  | ['-', '-'] => .terminator
  | '-' :: '-' :: name => readName name
  | '-' :: c :: name => readName (c :: name)
  | _ => .positional

/-- `FlagSet.formal`: whether a flag is defined and is boolean, and which values its `Set` takes. -/
structure FlagSet where
  isBool : String → Option Bool
  accepts : String → String → Bool
  agentID : isBool "agent-id" = some false
  anyID : ∀ value, accepts "agent-id" value = true

namespace FlagSet

/-- The values set, in order, and the arguments from where `Parse` stops, `--` included. -/
structure Parsed where
  assigned : List (String × String)
  rest : List String

/-- `flag.Value.Set(value)`, and the rest of the arguments. -/
def assign (fs : FlagSet) (name value : String) (more : Except String Parsed) : Except String Parsed :=
  if fs.accepts name value then more.map fun p => { p with assigned := (name, value) :: p.assigned }
  else .error ("invalid value for flag -" ++ name)

/-- `FlagSet.Parse`. -/
def parse (fs : FlagSet) : List String → Except String Parsed
  | [] => .ok ⟨[], []⟩
  | s :: args =>
    match readFlag s with
    | .positional | .terminator => .ok ⟨[], s :: args⟩
    | .badSyntax => .error ("bad flag syntax: " ++ s)
    | .flag name value =>
      match fs.isBool name, value, args with
      | none, _, _ => .error ("flag provided but not defined: -" ++ name)
      | some _, some value, args => fs.assign name value (fs.parse args)
      | some true, none, args => fs.assign name "true" (fs.parse args)
      | some false, none, value :: args => fs.assign name value (fs.parse args)
      | some false, none, [] => .error ("flag needs an argument: -" ++ name)

variable {fs : FlagSet} {args : List String} {p : Parsed}

/-- Values set before others. -/
def Parsed.after (p : Parsed) (assigned : List (String × String)) : Parsed :=
  { p with assigned := assigned ++ p.assigned }

theorem assign_ok {name value : String} {more : Except String Parsed}
    (h : fs.assign name value more = .ok p) :
    fs.accepts name value = true ∧ ∃ q, more = .ok q ∧ p = q.after [(name, value)] := by
  unfold assign at h
  split at h
  next haccepts =>
    cases more with
    | error e => cases h
    | ok q => exact ⟨haccepts, q, rfl, (Except.ok.inj h).symm⟩
  · cases h

/-- What becomes of more arguments: they are read if the flags go on to the end, and left over
otherwise. -/
def withMore (fs : FlagSet) (p : Parsed) (more : List String) : Except String Parsed :=
  if p.rest = [] then (fs.parse more).map (·.after p.assigned) else .ok ⟨p.assigned, p.rest ++ more⟩

theorem assign_append {name value : String} {more : List String}
    (ih : ∀ {p}, fs.parse args = .ok p → fs.parse (args ++ more) = fs.withMore p more)
    (h : fs.assign name value (fs.parse args) = .ok p) :
    fs.assign name value (fs.parse (args ++ more)) = fs.withMore p more := by
  obtain ⟨haccepts, q, hq, rfl⟩ := assign_ok h
  rw [ih hq, assign, if_pos haccepts]
  show Except.map (fun p => Parsed.after p [(name, value)]) _ = _
  unfold withMore
  by_cases hrest : q.rest = []
  · rw [if_pos hrest, if_pos (show (q.after [(name, value)]).rest = [] from hrest)]
    cases fs.parse more <;> rfl
  · rw [if_neg hrest, if_neg (show ¬ (q.after [(name, value)]).rest = [] from hrest)]
    rfl

/-- **More arguments.** -/
theorem parse_append (more : List String) (h : fs.parse args = .ok p) :
    fs.parse (args ++ more) = fs.withMore p more := by
  fun_induction fs.parse args generalizing p with
  | case1 =>
    cases h
    show fs.parse more = Except.map _ (fs.parse more)
    cases fs.parse more <;> rfl
  | case2 s args hread | case3 s args hread =>
    cases h
    simp only [cons_append, parse, hread]
    rfl
  | case4 | case5 | case9 => cases h
  | case6 s name b value args hbool hread ih | case7 s name args hbool hread ih
  | case8 s name value args hbool hread ih =>
    simp only [cons_append, parse, hread, hbool]
    exact assign_append ih h

/-- The injected arguments. -/
theorem parse_agentID (fs : FlagSet) (value : String) :
    fs.parse ["-agent-id", value] = .ok ⟨[("agent-id", value)], []⟩ := by
  have hread : readFlag "-agent-id" = .flag "agent-id" none := by rfl
  simp only [parse, hread, fs.agentID, assign, fs.anyID, if_true]
  rfl

end FlagSet

/-! ## The agent -/

/-- `injectFlagArg`'s test of an argument. -/
def looksLike (name arg : String) : Bool :=
  decide (arg = "-" ++ name ∨ arg = "--" ++ name ∨ ("-" ++ name ++ "=").toList <+: arg.toList ∨
    ("--" ++ name ++ "=").toList <+: arg.toList)

def injectFlagArg (args : List String) (name value : String) : List String :=
  if args.any (looksLike name) then args else args ++ ["-" ++ name, value]

/-- The value of `agent-id` after parsing; it was `configured` before. -/
def agentIDFlag (configured : String) (p : FlagSet.Parsed) : String :=
  ((p.assigned.filter fun x => x.1 = "agent-id").getLast?.map Prod.snd).getD configured

/-- `cfg.AgentID` after `NewAgent`. -/
def newAgentID (host : String) (pid : Nat) (flag : String) : String :=
  if flag = "" then "agent-" ++ host ++ "-" ++ toString pid else flag

/-- The process started with the arguments is, once rebooted, started with its own ID. -/
def KeepsIdentity (fs : FlagSet) (configured host : String) (pid : Nat) (args : List String)
    (p : FlagSet.Parsed) : Prop :=
  let agentID := newAgentID host pid (agentIDFlag configured p)
  ∃ p', fs.parse (injectFlagArg args "agent-id" agentID) = .ok p' ∧ agentIDFlag configured p' = agentID

theorem agentIDFlag_concat (configured : String) (assigned : List (String × String)) (value : String)
    (rest : List String) :
    agentIDFlag configured ⟨assigned ++ [("agent-id", value)], rest⟩ = value := by
  unfold agentIDFlag
  dsimp only
  rw [filter_append, filter_cons_of_pos rfl, filter_nil, getLast?_concat]
  rfl

/-- An ID that is read stays; a missing one is generated. -/
theorem eq_newAgentID_iff (host : String) (pid : Nat) {flag : String} :
    flag = newAgentID host pid flag ↔ flag ≠ "" := by
  unfold newAgentID
  split
  next h =>
    subst h
    refine ⟨fun he => ?_, fun h => absurd rfl h⟩
    have hlist := congrArg String.toList he
    simp at hlist
  next h => exact ⟨fun _ => h, fun _ => rfl⟩

/-- **A rebooted agent keeps its ID** if and only if one was read, or the arguments are flags to the end
and none looks like `agent-id`. -/
theorem keeps_identity_iff (fs : FlagSet) (configured host : String) (pid : Nat) {args : List String}
    {p : FlagSet.Parsed} (h : fs.parse args = .ok p) :
    KeepsIdentity fs configured host pid args p ↔ agentIDFlag configured p ≠ "" ∨
      (∀ arg ∈ args, looksLike "agent-id" arg = false) ∧ p.rest = [] := by
  unfold KeepsIdentity injectFlagArg
  dsimp only
  -- arguments that are not read leave the flag as it is
  have hsame : ∀ {args' p'}, fs.parse args' = .ok p' → p'.assigned = p.assigned →
      ((∃ p', fs.parse args' = .ok p' ∧ agentIDFlag configured p' =
        newAgentID host pid (agentIDFlag configured p)) ↔ agentIDFlag configured p ≠ "") := by
    intro args' p' hp' hassigned
    have hflag : agentIDFlag configured p' = agentIDFlag configured p := by
      unfold agentIDFlag
      rw [hassigned]
    rw [← eq_newAgentID_iff host pid]
    constructor
    · intro ⟨q, hq, hid⟩
      rw [hp'] at hq
      cases hq
      rwa [hflag] at hid
    · exact fun hid => ⟨p', hp', hflag.trans hid⟩
  split
  next hany =>
    rw [hsame h rfl, or_iff_left]
    intro ⟨hnone, _⟩
    obtain ⟨arg, harg, hlooks⟩ := any_eq_true.mp hany
    rw [hnone arg harg] at hlooks
    cases hlooks
  next hany =>
    have hmore := FlagSet.parse_append ["-" ++ "agent-id", newAgentID host pid (agentIDFlag configured p)] h
    unfold FlagSet.withMore at hmore
    by_cases hrest : p.rest = []
    · rw [if_pos hrest] at hmore
      have hinjected := hmore.trans (congrArg _ (FlagSet.parse_agentID fs _))
      refine ⟨fun _ => .inr ⟨fun arg harg => ?_, hrest⟩, fun _ => ⟨_, hinjected, agentIDFlag_concat ..⟩⟩
      exact Bool.eq_false_iff.mpr fun hlooks => hany (any_eq_true.mpr ⟨arg, harg, hlooks⟩)
    · rw [if_neg hrest] at hmore
      rw [hsame hmore rfl, or_iff_left fun hcond => hrest hcond.2]

/-- The two flags of an agent with values. -/
def agentFlags : FlagSet where
  isBool name := if name = "agent-id" ∨ name = "mode" then some false else none
  accepts _ _ := true
  agentID := rfl
  anyID _ := rfl

theorem generated_id_kept :
    KeepsIdentity agentFlags "" "host" 7 ["-mode", "agent"] ⟨[("mode", "agent")], []⟩ :=
  (keeps_identity_iff agentFlags "" "host" 7 rfl).mpr (.inr ⟨by decide, rfl⟩)

/-- `-mode agent run`: the appended flag stands behind a positional argument. -/
theorem generated_id_lost :
    agentFlags.parse ["-mode", "agent", "run"] = .ok ⟨[("mode", "agent")], ["run"]⟩ ∧
      ¬ KeepsIdentity agentFlags "" "host" 7 ["-mode", "agent", "run"] ⟨[("mode", "agent")], ["run"]⟩ := by
  refine ⟨rfl, fun ⟨p', hp', hid⟩ => ?_⟩
  have hparse : agentFlags.parse ["-mode", "agent", "run", "-agent-id", "agent-host-7"] =
      .ok ⟨[("mode", "agent")], ["run", "-agent-id", "agent-host-7"]⟩ := rfl
  rw [show injectFlagArg _ _ _ = ["-mode", "agent", "run", "-agent-id", "agent-host-7"] by decide,
    hparse] at hp'
  cases hp'
  exact absurd hid (by decide)

end Robot.Mode
