import Lexing.Lexeme

/-!
# Lexicons

A lexicon is a default lexeme and a list of lexemes with patterns, all for one mode. A lexeme is
referred to by its place: the default lexeme is number 0 and the others follow in the order in
which they were registered, which matters where two of them meet.
-/

namespace Lexing

/-- The place of a lexeme in its lexicon. -/
abbrev LexemeId := Nat

/-- The number of the default lexeme. -/
def defaultId : LexemeId := 0

/-- An ordered set of lexemes headed by the default one. -/
structure Lexicon where
  mode : Mode
  defaultLexeme : Lexeme
  patternLexemes : List Lexeme
  deriving Inhabited

namespace Lexicon

/-- All lexemes, each at the place that its number says. -/
def lexemes (l : Lexicon) : List Lexeme :=
  l.defaultLexeme :: l.patternLexemes

def size (l : Lexicon) : Nat :=
  l.lexemes.length

def lexeme? (l : Lexicon) (id : LexemeId) : Option Lexeme :=
  l.lexemes[id]?

/-- The elements of all patterns, in order. -/
def elements (l : Lexicon) : List Pattern.Element :=
  l.patternLexemes.flatMap fun lexeme => Pattern.Item.elementsOf lexeme.items

/-- Whether some pattern asks for `symbol`, inverted or not. -/
def mentions (l : Lexicon) (symbol : Tag) : Bool :=
  l.elements.any (·.symbol == symbol)

/-! ## Special characters -/

/-- The character that a tag consists of, if there is just one. -/
def singleChar? (tag : Tag) : Option Char :=
  match tag.toList with
  | [c] => some c
  | _ => none

/-- The characters that the patterns name as symbols, each once, in the order of first use. -/
def specialChars (l : Lexicon) : List Char :=
  (l.elements.filterMap (singleChar? ·.symbol)).eraseDups

@[simp] theorem lexeme?_defaultId (l : Lexicon) : l.lexeme? defaultId = some l.defaultLexeme :=
  rfl

end Lexicon

end Lexing
