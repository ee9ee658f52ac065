import Mathlib

/-!
# Glob patterns

The patterns of `KEYS` and `SCAN MATCH`: `*` is any text, `?` any character, `[a-c]` one of a class
and `[^a-c]` none of it, and a backslash takes the character after it literally, inside a class too.
A pattern is read into tokens once, and a text is matched against the tokens. A class that is not
closed goes on to the end of the pattern.

All that is proved is what a pattern that begins with plain characters matches (`glob_append`): the
texts that begin with them and go on with a match of the rest. Whoever puts an identifier into a
pattern has to know which of its characters are plain.
-/

namespace Robot.Lib

open List

inductive GlobToken where
  | star
  | any
  | oneOf (negated : Bool) (ranges : List (Char × Char))
  | lit (c : Char)
deriving DecidableEq

/-- The one character of a token; the star is not one. -/
def GlobToken.accepts : GlobToken → Char → Bool
  | .star, _ => false
  | .any, _ => true
  | .oneOf negated ranges, c =>
    (ranges.any fun r => decide (min r.1 r.2 ≤ c ∧ c ≤ max r.1 r.2)) != negated
  | .lit d, c => c == d

/-- The tokens of a pattern. Inside a class the first argument holds what was read of it. -/
def globTokens : Option (Bool × List (Char × Char)) → List Char → List GlobToken
  | none, [] => []
  | none, '*' :: p => .star :: globTokens none p
  | none, '?' :: p => .any :: globTokens none p
  | none, '[' :: '^' :: p => globTokens (some (true, [])) p
  | none, '[' :: p => globTokens (some (false, [])) p
  | none, '\\' :: c :: p => .lit c :: globTokens none p
  | none, c :: p => .lit c :: globTokens none p
  | some (negated, ranges), [] => [.oneOf negated ranges]
  | some (negated, ranges), '\\' :: c :: p => globTokens (some (negated, ranges ++ [(c, c)])) p
  | some (negated, ranges), ']' :: p => .oneOf negated ranges :: globTokens none p
  | some (negated, ranges), c :: '-' :: d :: p => globTokens (some (negated, ranges ++ [(c, d)])) p
  | some (negated, ranges), c :: p => globTokens (some (negated, ranges ++ [(c, c)])) p

def globMatch : List GlobToken → List Char → Bool
  | [], s => s.isEmpty
  | .star :: ts, s => s.tails.any (globMatch ts)
  | _ :: _, [] => false
  | t :: ts, c :: s => t.accepts c && globMatch ts s

/-- The text matches the pattern. -/
def glob (pattern s : List Char) : Bool := globMatch (globTokens none pattern) s

example : glob "h[^a-c]?l\\*o*".toList "hell*o, world".toList = true := by decide

/-- A character without a meaning of its own. -/
def PlainChar (c : Char) : Prop := c ∉ ['*', '?', '[', '\\']

instance PlainChar.decidable (c : Char) : Decidable (PlainChar c) :=
  inferInstanceAs (Decidable (c ∉ ['*', '?', '[', '\\']))

theorem globTokens_cons {c : Char} (h : PlainChar c) (p : List Char) :
    globTokens none (c :: p) = .lit c :: globTokens none p := by
  simp only [PlainChar, mem_cons, not_mem_nil, or_false, not_or] at h
  obtain ⟨hstar, hany, hclass, hescape⟩ := h
  rw [globTokens]
  · exact hstar
  · exact hany
  · exact fun _ hc => absurd hc hclass
  · exact hclass
  · exact fun _ _ hc => absurd hc hescape

theorem globMatch_lit (c : Char) (ts : List GlobToken) (s : List Char) :
    globMatch (.lit c :: ts) s = true ↔ ∃ s', s = c :: s' ∧ globMatch ts s' = true := by
  cases s with
  | nil => exact ⟨nofun, nofun⟩
  | cons d s =>
    show ((d == c) && globMatch ts s) = true ↔ _
    rw [Bool.and_eq_true, beq_iff_eq]
    constructor
    · intro ⟨hd, hs⟩
      exact ⟨s, by rw [hd], hs⟩
    · intro ⟨s', hs, hm⟩
      obtain ⟨rfl, rfl⟩ := List.cons.inj hs
      exact ⟨rfl, hm⟩

/-- **A pattern that begins with plain characters.** -/
theorem glob_append (l : List Char) (h : ∀ c ∈ l, PlainChar c) (p s : List Char) :
    glob (l ++ p) s = true ↔ ∃ s', s = l ++ s' ∧ glob p s' = true := by
  unfold glob
  induction l generalizing s with
  | nil =>
    refine ⟨fun hs => ⟨s, rfl, hs⟩, fun ⟨s', hs, hm⟩ => ?_⟩
    rw [hs]
    exact hm
  | cons c l ih =>
    rw [cons_append, globTokens_cons (h c mem_cons_self), globMatch_lit]
    have ih' := ih fun d hd => h d (mem_cons_of_mem c hd)
    constructor
    · intro ⟨t, ht, hm⟩
      obtain ⟨s', hs', hm'⟩ := (ih' t).mp hm
      exact ⟨s', by rw [ht, hs']; rfl, hm'⟩
    · intro ⟨s', hs', hm⟩
      exact ⟨l ++ s', hs', (ih' _).mpr ⟨s', rfl, hm⟩⟩

/-- The star alone. -/
theorem glob_star (s : List Char) : glob ['*'] s = true := by
  show s.tails.any (globMatch []) = true
  exact any_eq_true.mpr ⟨[], (mem_tails _ _).mpr nil_suffix, rfl⟩

end Robot.Lib
