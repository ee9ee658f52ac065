import Robot.Lib.Trie

/-!
# Commands by their words

`utils/readline.go` keeps commands in a tree by the words of their paths, in lower case, and
`FindCommand` follows a command line down as far as there are nodes. `RegisterUserCommand` of
`cmd/user.go` puts a command into that tree and into one of its own, where scripted user commands are
looked up by `GetUserCommandFunc`, with the words as they are.

So the two lookups are the same walk with different keys. They agree on a command line if and only if
letter case makes no difference for it: a prefix that leads to a node in one tree does so in the other,
and the longest of them was registered last in the same spelling (`resolve_alike_iff`).
`strings.ToLower` is a parameter. Of a node only the children and the function are kept.
-/

namespace Robot.Cmd

open Robot.Lib List

variable {φ : Type}

/-- `RegisterCommand`. -/
def registerCommand (lower : String → String) (root : Trie String φ) (path : List String) (fn : φ) :
    Trie String φ :=
  root.register (path.map lower) fn

/-- `FindCommand`, on the words of the line: the arguments and the node. -/
def findCommand (lower : String → String) : List String → Trie String φ → List String × Trie String φ
  | [], node => ([], node)
  | arg :: args, node =>
    if node.children.length = 0 then (arg :: args, node)
    else
      match node.child (lower arg) with
      | none => (arg :: args, node)
      | some next => findCommand lower args next

/-- The test for children is not needed. -/
theorem findCommand_eq (lower : String → String) (args : List String) (node : Trie String φ) :
    findCommand lower args node = node.descend lower args := by
  induction args generalizing node with
  | nil => rfl
  | cons arg args ih =>
    unfold findCommand Trie.descend
    split
    next hnone =>
      have hchild : node.child (lower arg) = none := by
        unfold Trie.child
        rw [length_eq_zero_iff.mp hnone]
        rfl
      rw [hchild]
    next =>
      cases node.child (lower arg) with
      | none => rfl
      | some next => exact ih next

structure CommandTrees (φ : Type) where
  commands : Trie String φ
  userCommands : Trie String φ

/-- `RegisterUserCommand`; the command's wrapper stands for the command. -/
def registerUserCommand (lower : String → String) (trees : CommandTrees φ) (reg : List String × φ) :
    CommandTrees φ where
  commands := registerCommand lower trees.commands reg.1 reg.2
  userCommands := trees.userCommands.register reg.1 reg.2

/-- `GetUserCommandFunc`. -/
def getUserCommandFunc (path : List String) (root : Trie String φ) : List String × Option φ :=
  let found := root.descend id path
  (found.1, found.2.value)

/-- The trees after some registrations. -/
def registered (lower : String → String) (regs : List (List String × φ)) : CommandTrees φ :=
  regs.foldl (registerUserCommand lower) ⟨.empty, .empty⟩

/-- Both lookups find the same function, or none, and leave the same arguments. -/
def ResolveAlike (lower : String → String) (regs : List (List String × φ)) (tokens : List String) : Prop :=
  let found := findCommand lower tokens (registered lower regs).commands
  (found.1, found.2.value) = getUserCommandFunc tokens (registered lower regs).userCommands

/-! ## Both are one walk -/

/-- The paths by their keys. -/
def keyed (key : String → String) (regs : List (List String × φ)) : List (List String × Option φ) :=
  regs.map fun r => (r.1.map key, some r.2)

theorem emptyLeaves_keyed (key : String → String) (regs : List (List String × φ)) :
    Trie.EmptyLeaves (keyed key regs) := by
  intro e he hnone
  obtain ⟨r, -, rfl⟩ := mem_map.mp he
  cases hnone

/-- The words are a prefix of a registered path, by their keys. -/
def Leads (key : String → String) (regs : List (List String × φ)) (words : List String) : Prop :=
  words = [] ∨ ∃ r ∈ regs, words.map key <+: r.1.map key

theorem registered_trees (lower : String → String) (regs : List (List String × φ)) :
    (registered lower regs).commands = Trie.build (keyed lower regs) ∧
      (registered lower regs).userCommands = Trie.build (keyed id regs) := by
  unfold registered Trie.build keyed
  simp only [foldl_map, map_id]
  induction regs using reverseRecOn with
  | nil => exact ⟨rfl, rfl⟩
  | append_singleton regs r ih =>
    simp only [foldl_append, foldl_cons, foldl_nil]
    exact ⟨congrArg (Trie.register (r.1.map lower) r.2) ih.1, congrArg (Trie.register r.1 r.2) ih.2⟩

/-- **One lookup**: the longest prefix that leads somewhere, and what was registered for it last. -/
theorem descend_keyed (key : String → String) (regs : List (List String × φ)) (tokens : List String) :
    ∃ n ≤ tokens.length, Leads key regs (tokens.take n) ∧
      (∀ m, n < m → m ≤ tokens.length → ¬ Leads key regs (tokens.take m)) ∧
      ((Trie.build (keyed key regs)).descend key tokens).1 = tokens.drop n ∧
      ((Trie.build (keyed key regs)).descend key tokens).2.value =
        Trie.lastFor (keyed key regs) ((tokens.take n).map key) := by
  have hleads (words : List String) : Leads key regs words ↔
      words.map key = [] ∨ ∃ r ∈ keyed key regs, words.map key <+: r.1 := by
    simp only [Leads, keyed, map_eq_nil_iff, mem_map, exists_exists_and_eq_and]
  obtain ⟨n, hn, hrest, hsee, hmax⟩ := Trie.descend_spec key tokens (Trie.build (keyed key regs))
  rw [Trie.see_build (emptyLeaves_keyed key regs)] at hsee
  split at hsee
  next h =>
    refine ⟨n, hn, (hleads _).mpr h, fun m hm hle hm' => ?_, hrest, (Option.some.inj hsee).symm⟩
    have hnone := hmax m hm hle
    rw [Trie.see_build (emptyLeaves_keyed key regs), if_pos ((hleads _).mp hm')] at hnone
    cases hnone
  · cases hsee

/-- Letter case makes no difference for these words. -/
structure CaseAside (lower : String → String) (regs : List (List String × φ)) (tokens : List String) :
    Prop where
  leads : ∀ n ≤ tokens.length, Leads lower regs (tokens.take n) → Leads id regs (tokens.take n)
  last : ∀ n ≤ tokens.length, Leads id regs (tokens.take n) →
    (∀ m, n < m → m ≤ tokens.length → ¬ Leads id regs (tokens.take m)) →
      Trie.lastFor (keyed lower regs) ((tokens.take n).map lower) =
        Trie.lastFor (keyed id regs) ((tokens.take n).map id)

theorem Leads.lower {lower : String → String} {regs : List (List String × φ)} {words : List String}
    (h : Leads id regs words) : Leads lower regs words := by
  rcases h with h | ⟨r, hr, hpre⟩
  · exact .inl h
  · rw [map_id, map_id] at hpre
    exact .inr ⟨r, hr, hpre.map lower⟩

theorem Leads.take {key : String → String} {regs : List (List String × φ)} {words : List String} {m n : ℕ}
    (h : Leads key regs (words.take n)) (hle : m ≤ n) : Leads key regs (words.take m) := by
  have hpre : words.take m <+: words.take n := take_prefix_take_left hle
  rcases h with h | ⟨r, hr, h⟩
  · exact .inl (prefix_nil.mp (h ▸ hpre))
  · exact .inr ⟨r, hr, (hpre.map key).trans h⟩

/-- **Interactive and scripted commands resolve alike** if and only if letter case makes no
difference. -/
theorem resolve_alike_iff (lower : String → String) (regs : List (List String × φ))
    (tokens : List String) : ResolveAlike lower regs tokens ↔ CaseAside lower regs tokens := by
  obtain ⟨n, hn, hleads, hmax, hrest, hvalue⟩ := descend_keyed lower regs tokens
  obtain ⟨n', hn', hleads', hmax', hrest', hvalue'⟩ := descend_keyed id regs tokens
  unfold ResolveAlike getUserCommandFunc
  dsimp only
  rw [findCommand_eq, (registered_trees lower regs).1, (registered_trees lower regs).2, hrest, hvalue,
    hrest', hvalue', Prod.mk.injEq]
  constructor
  · intro ⟨hdrop, hlast⟩
    have hlen := congrArg List.length hdrop
    rw [length_drop, length_drop] at hlen
    have hsame : n = n' := by omega
    subst hsame
    refine ⟨fun m hm hlow => ?_, fun m hm hid hlongest => ?_⟩
    · exact hleads'.take (Nat.not_lt.mp fun hlt => hmax m hlt hm hlow)
    · have hmn : m = n := by
        have hle := Nat.not_lt.mp fun hlt => hmax' m hlt hm hid
        have hge := Nat.not_lt.mp fun hlt => hlongest n hlt hn hleads'
        omega
      rw [hmn]
      exact hlast
  · intro h
    have hle := Nat.not_lt.mp fun hlt => hmax' n hlt hn (h.leads n hn hleads)
    have hge := Nat.not_lt.mp fun hlt => hmax n' hlt hn' hleads'.lower
    have hsame : n = n' := by omega
    subst hsame
    exact ⟨rfl, h.last n hn hleads' hmax'⟩

def asciiLower (s : String) : String := String.ofList (s.toList.map Char.toLower)

theorem login_not_alike : ¬ ResolveAlike asciiLower [(["Login"], 0)] ["login"] := by
  unfold ResolveAlike
  decide

end Robot.Cmd
