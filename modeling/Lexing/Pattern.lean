import Lexing.Tag

/-!
# Patterns

A pattern says which sequences of symbols a lexeme matches. An element asks for one symbol, or
with a repeat for one or more, and may be optional or inverted. A group offers alternatives.
-/

namespace Lexing.Pattern

/-- A request for one symbol by its tag. -/
structure Element where
  symbol : Tag
  /-- The symbol may be left out. -/
  optional : Bool := false
  /-- The symbol may come several times in a row. -/
  repeats : Bool := false
  /-- Any symbol except this one is meant. -/
  inverted : Bool := false
  deriving DecidableEq, Inhabited, Repr

/-- A part of a sequence: an element, or a group of alternative sequences. -/
inductive Item where
  | element (e : Element)
  | group (alternatives : List (List Item))
  deriving Inhabited

end Lexing.Pattern

namespace Lexing

/-- What a lexeme definition asks to be matched. -/
inductive Pattern where
  /-- The characters of a text, one element each. -/
  | literal (text : String)
  | sequence (items : List Pattern.Item)
  /-- Any one of several sequences. -/
  | alternation (alternatives : List (List Pattern.Item))
  deriving Inhabited

namespace Pattern

/-- The element for a tag, without modifiers. -/
def Element.plain (symbol : Tag) : Element :=
  { symbol }

/-! ## Nullability -/

namespace Item

mutual

/-- Whether the item can be matched by no symbol at all. -/
def isNullable : Item → Bool
  | element e => e.optional
  | group alternatives => anyNullable alternatives

/-- Whether every item of a sequence can. -/
def allNullable : List Item → Bool
  | [] => true
  | item :: items => isNullable item && allNullable items

/-- Whether some alternative can. -/
def anyNullable : List (List Item) → Bool
  | [] => false
  | alternative :: alternatives => allNullable alternative || anyNullable alternatives

end

/-! ## Elements -/

mutual

/-- The elements of an item, in the order in which they are written. -/
def elements : Item → List Element
  | element e => [e]
  | group alternatives => elementsOfEach alternatives

/-- The elements of a sequence. -/
def elementsOf : List Item → List Element
  | [] => []
  | item :: items => elements item ++ elementsOf items

/-- The elements of several sequences. -/
def elementsOfEach : List (List Item) → List Element
  | [] => []
  | alternative :: alternatives => elementsOf alternative ++ elementsOfEach alternatives

end

theorem elementsOf_append (xs ys : List Item) :
    elementsOf (xs ++ ys) = elementsOf xs ++ elementsOf ys := by
  induction xs with
  | nil => rfl
  | cons x xs ih => simp [elementsOf, ih]

theorem elementsOfEach_eq (alternatives : List (List Item)) :
    elementsOfEach alternatives = alternatives.flatMap elementsOf := by
  induction alternatives with
  | nil => rfl
  | cons alternative alternatives ih => rw [elementsOfEach, ih, List.flatMap_cons]

theorem allNullable_append (xs ys : List Item) :
    allNullable (xs ++ ys) = (allNullable xs && allNullable ys) := by
  induction xs with
  | nil => rfl
  | cons x xs ih => simp [allNullable, ih, Bool.and_assoc]

end Item

end Pattern

end Lexing
