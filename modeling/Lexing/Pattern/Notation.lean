import Lexing.Error
import Lexing.Pattern
import Lexing.Pattern.Letter

/-!
# The pattern notation

Patterns are written compactly:

    pattern     := sequence ( '|' sequence )*
    sequence    := item ( ',' item )*
    item        := group | element
    group       := '(' pattern ')' '?'?
    element     := '!'? symbol ( '?' | '+' | '*' )*

An element that consists of a single letter is that letter, whatever it is; any other first gives
up its trailing modifiers and then one leading `!`. A group followed by `?` gets an empty
alternative. Blanks around items, groups and modifiers mean nothing.

The reader goes from left to right and reports the first thing that is wrong. What it has not
read yet is never longer than what it was given, which is why it ends.
-/

namespace Lexing.Pattern.Notation

open Letter

/-! ## Faults -/

/-- Why a written pattern cannot be read. -/
inductive Fault where
  /-- A backslash at the end of the text. -/
  | danglingEscape
  | emptyElement
  | unbalancedGroup
  | repeatedGroup
  /-- Something after the end of the pattern. -/
  | unexpected (c : Char)
  deriving DecidableEq, Inhabited, Repr

def Fault.reason : Fault → String
  | danglingEscape => "trailing escape"
  | emptyElement => "empty element"
  | unbalancedGroup => "unbalanced '('"
  | repeatedGroup => "groups cannot repeat"
  | unexpected c => s!"unexpected {Text.quoteChar c}"

/-! ## Elements -/

/-- Reads the letters of an element once the blanks around them are gone. -/
def elementOfBody (body : List Letter) : Except Fault Element :=
  match body with
  | [letter] => .ok { symbol := spell [letter] }
  | _ =>
    let suffix := body.reverse.takeWhile isSuffix
    let stem := (body.reverse.dropWhile isSuffix).reverse
    let inverted := stem.head? == some (.plain '!')
    let symbol := if inverted then trimStart stem.tail else stem
    if symbol.isEmpty then
      .error .emptyElement
    else
      .ok
        { symbol := spell symbol
          optional := suffix.any isOptionMark
          repeats := suffix.any isRepeatMark
          inverted }

/-- Reads an element from the letters up to the next delimiter. -/
def element (run : List Letter) : Except Fault Element :=
  if Letter.dangling ∈ run then .error .danglingEscape else elementOfBody (trim run)

/-! ## Groups and sequences -/

/-- What is left of `s` to be read. -/
abbrev Rest (s : List Letter) : Type :=
  { rest : List Letter // rest.length ≤ s.length }

/-- The outcome of reading an `α` from the start of `s`. -/
abbrev Reading (α : Type) (s : List Letter) : Type :=
  Except Fault (α × Rest s)

/-- Reads the end of a group: the parenthesis, and whether the group may be left out. -/
def closeGroup (s : List Letter) : Reading Bool s :=
  match s with
  | .plain ')' :: after =>
    match h : trimStart after with
    | .plain '?' :: rest =>
      .ok (true, ⟨trimStart rest, by
        have hafter := length_trimStart_le after
        have hrest := length_trimStart_le rest
        simp only [h, List.length_cons] at hafter ⊢
        omega⟩)
    | .plain '+' :: _ => .error .repeatedGroup
    | .plain '*' :: _ => .error .repeatedGroup
    | rest =>
      .ok (false, ⟨rest, by
        have hafter := length_trimStart_le after
        simp only [h, List.length_cons] at hafter ⊢
        omega⟩)
  | _ => .error .unbalancedGroup

/-- The group of the sequences that stand between parentheses. -/
def groupOf (sequences : List (List Item)) (optional : Bool) : Item :=
  .group (if optional then sequences ++ [[]] else sequences)

/-- Reads one item, with the help of a reader for what stands between parentheses. -/
def item (s : List Letter)
    (inside : (t : List Letter) → t.length < s.length → Reading (List (List Item)) t) :
    Reading Item s :=
  match h : trimStart s with
  | .plain '(' :: t =>
    have ht : t.length < s.length := by
      have htrim := length_trimStart_le s
      rwa [h] at htrim
    match inside t ht with
    | .error fault => .error fault
    | .ok (sequences, ⟨after, hafter⟩) =>
      match closeGroup after with
      | .error fault => .error fault
      | .ok (optional, ⟨rest, hrest⟩) => .ok (groupOf sequences optional, ⟨rest, by omega⟩)
  | _ =>
    match element (s.takeWhile isOrdinary) with
    | .error fault => .error fault
    | .ok e =>
      .ok (.element e, ⟨s.dropWhile isOrdinary, (List.dropWhile_sublist isOrdinary).length_le⟩)

/-- Puts an item before the first of several sequences. -/
def prependItem (item : Item) : List (List Item) → List (List Item)
  | [] => [[item]]
  | first :: others => (item :: first) :: others

/-- Reads sequences of items, up to a letter that continues neither the last item nor the last
sequence nor the alternation. -/
def sequences (s : List Letter) : Reading (List (List Item)) s :=
  match item s fun t _ => sequences t with
  | .error fault => .error fault
  | .ok (first, rest) =>
    match h : rest.val with
    | .plain ',' :: t =>
      have ht : t.length < s.length := by
        have hrest := rest.property
        rwa [h] at hrest
      match sequences t with
      | .error fault => .error fault
      | .ok (more, ⟨rest, hrest⟩) => .ok (prependItem first more, ⟨rest, by omega⟩)
    | .plain '|' :: t =>
      have ht : t.length < s.length := by
        have hrest := rest.property
        rwa [h] at hrest
      match sequences t with
      | .error fault => .error fault
      | .ok (more, ⟨rest, hrest⟩) => .ok ([first] :: more, ⟨rest, by omega⟩)
    | _ => .ok ([[first]], rest)
termination_by s.length

/-! ## Whole patterns -/

/-- Reads a pattern from the characters of a text. -/
def parse (cs : List Char) : Except Fault Pattern :=
  match sequences (ofChars cs) with
  | .error fault => .error fault
  | .ok (_, ⟨letter :: _, _⟩) => .error (.unexpected letter.written)
  | .ok ([items], ⟨[], _⟩) => .ok (.sequence items)
  | .ok (alternatives, ⟨[], _⟩) => .ok (.alternation alternatives)

end Notation

/-- The pattern written as `written`. -/
def ofNotation (written : String) : Except LexiconError Pattern :=
  match Notation.parse written.toList with
  | .ok pattern => .ok pattern
  | .error fault => .error (.invalidNotation written fault.reason)

end Lexing.Pattern
