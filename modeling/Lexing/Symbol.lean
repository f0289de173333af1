import Lexing.Token

/-!
# Symbols

Symbols are what an automaton reads. Patterns look at the tag alone; value and position are only
carried along.
-/

namespace Lexing

/-- One unit of input of an automaton. -/
structure Symbol where
  tag : Tag
  value : Value
  position : Option Position := none
  deriving Inhabited

namespace Symbol

/-- A run of plain text. -/
def text (s : String) : Symbol :=
  { tag := textTag, value := .text s }

/-- A special character, which is its own tag and its own text. -/
def special (c : Char) : Symbol :=
  { tag := c.toString, value := .text c.toString }

/-- A token of an earlier pass, tagged with its kind and carried whole. -/
def ofToken (t : Token) : Symbol :=
  { tag := t.kind, value := .ofToken t, position := t.position }

/-- The sentinel that follows the last symbol of a stream. -/
def endOfStream : Symbol :=
  { tag := endOfStreamTag, value := .absent }

/-- Any symbol with the reserved tag counts as the sentinel. -/
def isEndOfStream (s : Symbol) : Bool :=
  s.tag == endOfStreamTag

@[simp] theorem isEndOfStream_endOfStream : endOfStream.isEndOfStream = true := by
  simp [isEndOfStream, endOfStream]

end Symbol

end Lexing
