import Lexing.Tag

/-!
# Tokens

A token has a kind, a value and, if it came from a text, the position where it starts. Values
nest: a token of a later pass may carry the tokens that it was made from.
-/

namespace Lexing

/-- A place in a source: both numbers count from zero, the column in bytes of UTF-8. -/
structure Position where
  file : Option String
  line : UInt32
  column : UInt32
  deriving DecidableEq, Inhabited, Repr

/-- What a token or a symbol carries. -/
inductive Value where
  /-- Nothing. -/
  | absent
  | text (content : String)
  /-- A whole token of an earlier pass. -/
  | token (kind : Tag) (value : Value) (position : Option Position)
  | list (items : List Value)
  deriving Inhabited

/-- The output of a pass. -/
structure Token where
  kind : Tag
  value : Value
  position : Option Position := none
  deriving Inhabited

/-! ## Values -/

namespace Value

def ofToken (t : Token) : Value :=
  .token t.kind t.value t.position

def isAbsent : Value → Bool
  | absent => true
  | _ => false

def asText? : Value → Option String
  | text content => some content
  | _ => none

def asToken? : Value → Option Token
  | token kind value position => some { kind, value, position }
  | _ => none

def asList? : Value → Option (List Value)
  | list items => some items
  | _ => none

mutual

/-- The text that remains when all structure is forgotten. -/
def toText : Value → String
  | absent => ""
  | text content => content
  | token _ value _ => toText value
  | list items => toTextAll items

/-- The texts of several values, one after the other. -/
def toTextAll : List Value → String
  | [] => ""
  | v :: vs => toText v ++ toTextAll vs

end

@[simp] theorem asToken?_ofToken (t : Token) : (ofToken t).asToken? = some t := rfl

@[simp] theorem toText_ofToken (t : Token) : (ofToken t).toText = t.value.toText := by
  simp [ofToken, toText]

theorem toTextAll_append (vs ws : List Value) :
    toTextAll (vs ++ ws) = toTextAll vs ++ toTextAll ws := by
  induction vs with
  | nil => simp [toTextAll]
  | cons v vs ih => simp [toTextAll, ih, String.append_assoc]

end Value

/-- The text of a token's value. -/
def Token.text (t : Token) : String :=
  t.value.toText

end Lexing
