import Lexing.Attribute
import Lexing.Text.Quoted

/-!
# Descriptions of values and attributes

The one-line form in which a value or an attribute is shown to someone who inspects a lexicon.
Texts are quoted, so no value can be mistaken for another. A function has no form of its own.
-/

namespace Lexing

open Text (quote)

namespace Position

/-- The fields of a position, by name. -/
def describe (p : Position) : String :=
  let file := match p.file with
    | some file => s!"Some({quote file})"
    | none => "None"
  s!"SourceMeta \x7b file: {file}, line: {p.line}, column: {p.column} \x7d"

/-- A position that may be missing. -/
def describe? : Option Position → String
  | some p => s!"Some({p.describe})"
  | none => "None"

end Position

namespace Value

mutual

/-- A value by its constructor and parts. -/
def describe : Value → String
  | absent => "None"
  | text content => s!"Text({quote content})"
  | token kind value position =>
    s!"Token(Token \x7b kind: {quote kind}, value: {describe value}, " ++
      s!"meta: {Position.describe? position} \x7d)"
  | list items => s!"List([{describeAll items}])"

/-- Several values, separated by commas. -/
def describeAll : List Value → String
  | [] => ""
  | [v] => describe v
  | v :: vs => s!"{describe v}, {describeAll vs}"

end

end Value

/-- An attribute by its constructor and value. -/
def Attribute.describe : Attribute → String
  | .input => "Input"
  | .constant value => s!"Constant({value.describe})"
  | .concat => "Concat"
  | .collect => "Collect"
  | .function _ => "Function(..)"

end Lexing
