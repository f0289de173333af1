import Lexing.Mode

/-!
# Configurations

What a tokenizer is told besides its lexicon.
-/

namespace Lexing

/-- Which characters of a text become symbols of their own. -/
inductive SpecialChars where
  /-- None: every chunk of text is one symbol. -/
  | none
  | explicit (chars : List Char)
  /-- Those that the patterns of the lexicon name. -/
  | fromLexicon
  deriving DecidableEq, Inhabited, Repr

structure Config where
  mode : Mode := .character
  /-- Of no effect in token mode. -/
  specialChars : SpecialChars := .none
  /-- The file that positions refer to. -/
  file? : Option String := Option.none
  deriving DecidableEq, Inhabited, Repr

end Lexing
