/-!
# Modes

A pass reads either raw text or the tokens of an earlier pass.
-/

namespace Lexing

/-- What the symbols of a pass are made from. -/
inductive Mode where
  /-- Characters and runs of plain text. -/
  | character
  /-- Tokens of an earlier pass. -/
  | token
  deriving DecidableEq, Inhabited, Repr

namespace Mode

/-- The name of a mode. -/
def name : Mode → String
  | character => "character"
  | token => "token"

/-- The mode called `s`. Character mode also goes by the name `string`. -/
def ofName? (s : String) : Option Mode :=
  if s = "character" ∨ s = "string" then some character
  else if s = "token" then some token
  else none

@[simp] theorem ofName?_name (m : Mode) : ofName? m.name = some m := by
  cases m <;> decide

end Mode

end Lexing
