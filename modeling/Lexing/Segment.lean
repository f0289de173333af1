import Lexing.Symbol

/-!
# Segments

Before a text is read it is cut into segments: each special character stands alone, and what lies
between two of them is one run of plain text.
-/

namespace Lexing

/-- A piece of a text. -/
inductive Segment where
  | text (run : String)
  | special (c : Char)
  deriving DecidableEq, Inhabited, Repr

namespace Segment

/-- The characters of the piece. -/
def content : Segment → String
  | text run => run
  | special c => c.toString

/-- The length of the piece in bytes of UTF-8. -/
def utf8Length (s : Segment) : Nat :=
  s.content.utf8ByteSize

/-- The symbol that the piece is read as. -/
def symbol : Segment → Symbol
  | text run => .text run
  | special c => .special c

/-- Puts one character before the segments of what follows it. A plain character joins a run of
plain text that begins there. -/
def prependChar (specials : List Char) (c : Char) (segments : List Segment) : List Segment :=
  if specials.contains c then
    special c :: segments
  else
    match segments with
    | text run :: rest => text (c.toString ++ run) :: rest
    | _ => text c.toString :: segments

/-- The segments of a text. -/
def split (specials : List Char) (text : String) : List Segment :=
  text.toList.foldr (prependChar specials) []

end Segment

end Lexing
