import Lexing.Attribute
import Lexing.Error
import Lexing.Pattern

/-!
# Lexemes

A definition is what the user writes; a lexeme is what is left of it once it has been checked.
Checking turns the pattern into one list of items, and sees to it that every symbol in it can
occur in the mode at hand and that the whole cannot match the empty sequence.

The default lexeme is the one without a pattern. It matches what no other lexeme can start.
-/

namespace Lexing

/-- A lexeme as it is written down. -/
structure Definition where
  kind : Tag
  pattern? : Option Pattern := none
  fullMatch : Attribute := .input
  partialMatch? : Option Attribute := none
  deriving Inhabited

/-- A checked lexeme. The default lexeme has no items, every other one has some. -/
structure Lexeme where
  kind : Tag
  items : List Pattern.Item
  /-- The value of a token when the pattern was matched. -/
  fullMatch : Attribute
  /-- The value of a token when a match that this lexeme began went no further. -/
  partialMatch? : Option Attribute
  deriving Inhabited

namespace Lexeme

/-- The partial-match attribute in force. -/
def partialMatch (l : Lexeme) : Attribute :=
  l.partialMatch?.getD .input

def isDefault (l : Lexeme) : Bool :=
  l.items.isEmpty

end Lexeme

/-! ## Checks -/

namespace Definition

open Pattern (Element Item)

/-- A kind is a non-empty tag other than the reserved one. -/
def checkKind (kind : Tag) : Except LexiconError Unit :=
  if kind.isEmpty then .error .invalidKind
  else if kind = endOfStreamTag then .error (.reservedKind kind)
  else .ok ()

/-- A symbol is a non-empty tag other than the reserved one, and in character mode it is a
single character or the tag of plain text. -/
def checkElement (kind : Tag) (mode : Mode) (e : Element) : Except LexiconError Unit :=
  if e.symbol.isEmpty then .error (.emptySymbol kind)
  else if e.symbol = endOfStreamTag then .error (.reservedSymbol kind e.symbol)
  else if mode = .character ∧ e.symbol ≠ textTag ∧ 1 < e.symbol.length then
    .error (.patternModeMismatch kind mode
      s!"symbol {Text.quote e.symbol} is not a single character")
  else .ok ()

/-- The elements are checked in order, and the first bad one decides. -/
def checkElements (kind : Tag) (mode : Mode) : List Element → Except LexiconError Unit
  | [] => .ok ()
  | e :: es =>
    match checkElement kind mode e with
    | .error fault => .error fault
    | .ok () => checkElements kind mode es

/-- The element for a character. -/
def elementOfChar (c : Char) : Item :=
  .element { symbol := c.toString }

/-- The items that a pattern stands for: a literal becomes one element for each character, and an
alternation one group. -/
def itemsOf (kind : Tag) (mode : Mode) : Pattern → Except LexiconError (List Item)
  | .literal text =>
    match mode with
    | .token =>
      .error (.patternModeMismatch kind .token "literal patterns need structured symbols")
    | .character => .ok (text.toList.map elementOfChar)
  | .sequence items => .ok items
  | .alternation alternatives =>
    if alternatives.any List.isEmpty then .error (.missingPattern kind)
    else .ok [.group alternatives]

/-- The checks on the items of a pattern. -/
def checkItems (kind : Tag) (mode : Mode) (items : List Item) : Except LexiconError Unit :=
  if items.isEmpty then .error (.missingPattern kind)
  else
    match checkElements kind mode (Item.elementsOf items) with
    | .error fault => .error fault
    | .ok () => if Item.allNullable items then .error (.nullablePattern kind) else .ok ()

/-! ## From definitions to lexemes -/

/-- The default lexeme of a definition, which must have no pattern. -/
def toDefault (d : Definition) : Except LexiconError Lexeme :=
  match checkKind d.kind with
  | .error fault => .error fault
  | .ok () =>
    match d.pattern? with
    | some _ => .error (.unexpectedPattern d.kind)
    | none =>
      .ok
        { kind := d.kind
          items := []
          fullMatch := d.fullMatch
          partialMatch? := d.partialMatch? }

/-- The lexeme of a definition with a pattern. -/
def toLexeme (mode : Mode) (d : Definition) : Except LexiconError Lexeme :=
  match checkKind d.kind with
  | .error fault => .error fault
  | .ok () =>
    match d.pattern? with
    | none => .error (.missingPattern d.kind)
    | some pattern =>
      match itemsOf d.kind mode pattern with
      | .error fault => .error fault
      | .ok items =>
        match checkItems d.kind mode items with
        | .error fault => .error fault
        | .ok () =>
          .ok
            { kind := d.kind
              items
              fullMatch := d.fullMatch
              partialMatch? := d.partialMatch? }

end Definition

end Lexing
