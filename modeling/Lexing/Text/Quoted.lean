import Lexing.Text.Unprintable

/-!
# Quoted text

A text is quoted by writing it between two delimiters, with an escape for each character that
would end the quotation, start an escape, or not be seen. Messages quote the names that they
mention, and the drawing of a table quotes its labels, so that any text fits on one line.
-/

namespace Lexing.Text

/-- The hexadecimal escape of a character: its code point in lowercase digits, without padding,
between braces. -/
def escapeCode (c : Char) : List Char :=
  ['\\', 'u', '\x7b'] ++ Nat.toDigits 16 c.toNat ++ ['\x7d']

/-- How one character is written inside a quotation closed by `delimiter`. -/
def escape (delimiter c : Char) : List Char :=
  if c = '\x00' then ['\\', '0']
  else if c = '\t' then ['\\', 't']
  else if c = '\r' then ['\\', 'r']
  else if c = '\n' then ['\\', 'n']
  else if c = '\\' ∨ c = delimiter then ['\\', c]
  else if isUnprintable c then escapeCode c
  else [c]

/-- A text in double quotes. -/
def quote (s : String) : String :=
  String.ofList ('"' :: (s.toList.flatMap (escape '"') ++ ['"']))

/-- One character in single quotes. -/
def quoteChar (c : Char) : String :=
  String.ofList ('\'' :: (escape '\'' c ++ ['\'']))

end Lexing.Text
