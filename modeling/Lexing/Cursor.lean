import Lexing.Token

/-!
# Cursors

A cursor follows a text and knows the line and the column of what comes next. A line ends at a
line feed, at a carriage return, or at a carriage return and a line feed together. Since the two
of them may arrive separately, the cursor starts a new line at the carriage return and then
remembers to let one line feed pass.

Lines are counted from zero, columns in bytes of UTF-8 from the start of the line. Both stop at
the largest number that there is room for.
-/

namespace Lexing

/-- The sum, or the largest number that fits if the sum does not. -/
def addSaturating (a : UInt32) (n : Nat) : UInt32 :=
  UInt32.ofNat (min (a.toNat + n) (UInt32.size - 1))

theorem toNat_addSaturating (a : UInt32) (n : Nat) :
    (addSaturating a n).toNat = min (a.toNat + n) (UInt32.size - 1) := by
  rw [addSaturating, UInt32.toNat_ofNat_of_lt']
  simp only [UInt32.size]
  omega

/-- A place in a stream of text. -/
structure Cursor where
  line : UInt32 := 0
  column : UInt32 := 0
  /-- The last character was a carriage return. -/
  afterReturn : Bool := false
  deriving DecidableEq, Inhabited, Repr

namespace Cursor

/-- The start of the next line. -/
def newline (c : Cursor) : Cursor :=
  { line := addSaturating c.line 1 }

/-- The cursor after one character. -/
def advanceChar (c : Cursor) (x : Char) : Cursor :=
  if x = '\n' then
    if c.afterReturn then { c with afterReturn := false } else c.newline
  else if x = '\r' then
    { c.newline with afterReturn := true }
  else
    { c with column := addSaturating c.column x.utf8Size, afterReturn := false }

/-- The cursor after a text. -/
def advance (c : Cursor) (text : String) : Cursor :=
  text.toList.foldl advanceChar c

/-- The position of what comes next. -/
def position (c : Cursor) (file : Option String) : Position :=
  { file, line := c.line, column := c.column }

@[simp] theorem advance_append (c : Cursor) (s t : String) :
    c.advance (s ++ t) = (c.advance s).advance t := by
  simp [advance]

end Cursor

end Lexing
