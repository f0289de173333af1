import Lexing.Text.Blank

/-!
# Letters of the pattern notation

Before a written pattern is read its characters become letters. A backslash and the character
after it are one escaped letter, which never has a meaning of its own: it is no delimiter, no
modifier and no blank. A backslash at the very end escapes nothing and dangles.
-/

namespace Lexing.Pattern

/-- One unit of a written pattern. -/
inductive Letter where
  | plain (c : Char)
  | escaped (c : Char)
  /-- A backslash with nothing after it. -/
  | dangling
  deriving DecidableEq, Inhabited, Repr

namespace Letter

/-- The character that a backslash makes of the one after it. -/
def unescape (c : Char) : Char :=
  if c = 'n' then '\n' else if c = 't' then '\t' else if c = 'r' then '\r' else c

/-- The letters of a text. -/
def ofChars : List Char → List Letter
  | [] => []
  | ['\\'] => [dangling]
  | '\\' :: c :: cs => escaped (unescape c) :: ofChars cs
  | c :: cs => plain c :: ofChars cs

/-- The character that a letter stands for in a symbol. -/
def char : Letter → Char
  | plain c => c
  | escaped c => c
  | dangling => '\\'

/-- The character with which a letter starts on the page. -/
def written : Letter → Char
  | plain c => c
  | escaped _ => '\\'
  | dangling => '\\'

/-- White space that means nothing. -/
def isBlank : Letter → Bool
  | plain c => Text.isBlank c
  | _ => false

/-- The letters that end an element. -/
def isDelimiter : Letter → Bool
  | plain c => c == ',' || c == '|' || c == '(' || c == ')'
  | _ => false

/-- The letters that belong to an element. -/
def isOrdinary (l : Letter) : Bool :=
  !l.isDelimiter

/-- The letters that make an element optional. -/
def isOptionMark : Letter → Bool
  | plain c => c == '?' || c == '*'
  | _ => false

/-- The letters that make an element repeat. -/
def isRepeatMark : Letter → Bool
  | plain c => c == '+' || c == '*'
  | _ => false

/-- What may follow the symbol of an element. -/
def isSuffix (l : Letter) : Bool :=
  l.isBlank || l.isOptionMark || l.isRepeatMark

/-! ## Runs of letters -/

def trimStart (s : List Letter) : List Letter :=
  s.dropWhile isBlank

def trimEnd (s : List Letter) : List Letter :=
  (s.reverse.dropWhile isBlank).reverse

/-- A run of letters without the blanks around it. -/
def trim (s : List Letter) : List Letter :=
  trimEnd (trimStart s)

/-- The text that a run of letters stands for. -/
def spell (s : List Letter) : String :=
  String.ofList (s.map char)

theorem length_trimStart_le (s : List Letter) : (trimStart s).length ≤ s.length := by
  simpa [trimStart] using (List.dropWhile_sublist isBlank (l := s)).length_le

end Letter

end Lexing.Pattern
