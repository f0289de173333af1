/-!
# Tags

A tag is the name by which patterns see a symbol: a single special character, the kind of a
token of an earlier pass, or the tag shared by all runs of plain text.
-/

namespace Lexing

/-- The name of a symbol, a lexeme or a token kind. -/
abbrev Tag := String

/-- The tag of every run of plain text. -/
def textTag : Tag := "text"

/-- The tag that marks the end of a stream. No lexeme, pattern or token may use it. -/
def endOfStreamTag : Tag := "\x00end-of-stream"

end Lexing
