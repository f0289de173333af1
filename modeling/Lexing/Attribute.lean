import Lexing.History

/-!
# Attributes

An attribute says what value a token gets from the match that it was made of. It sees the history
of the match and one input symbol, which is the last symbol of the match.
-/

namespace Lexing

/-- A rule for the value of a token. -/
inductive Attribute where
  /-- The value of the input symbol. -/
  | input
  | constant (value : Value)
  /-- The texts of the matched symbols, joined. -/
  | concat
  /-- The values of the matched symbols, as a list. -/
  | collect
  | function (f : History → Symbol → Value)
  deriving Inhabited

namespace Attribute

/-- The value that the attribute gives to a match. -/
def evaluate (a : Attribute) (history : History) (input : Symbol) : Value :=
  match a with
  | .input => input.value
  | .constant value => value
  | .concat => .text history.text
  | .collect => .list (history.symbols.map (·.value))
  | .function f => f history input

end Attribute

end Lexing
