import Lexing.Pattern.Notation
import Mathlib.Tactic.Lemma

/-!
# The grammar of the pattern notation

What a written pattern means is told by rules, without a reader.  The characters are first spelled
as letters, a backslash and the character after it being one of them (`Letter.Spelled`).  A run of
letters without delimiters may be an element (`WritesElement`), and elements are put together by
commas, bars and parentheses (`Derives`).

The rules do not say how a derivation is found.  `Lexing.Proofs.Reading` shows that the reader finds
one if there is any, and `Lexing.Proofs.Writing` that every pattern of the right form has one.
-/

namespace Lexing.Pattern

/-! ## Letters -/

namespace Letter

/-- The character that an escape stands for. -/
inductive Escapes : Char → Char → Prop where
  | lineFeed : Escapes 'n' '\n'
  | tab : Escapes 't' '\t'
  | carriageReturn : Escapes 'r' '\r'
  | itself {c : Char} (hn : c ≠ 'n') (ht : c ≠ 't') (hr : c ≠ 'r') : Escapes c c

/-- The characters spell the letters. -/
inductive Spelled : List Char → List Letter → Prop where
  | nil : Spelled [] []
  | plain {c : Char} {cs : List Char} {s : List Letter} (hc : c ≠ '\\') (hrest : Spelled cs s) :
      Spelled (c :: cs) (.plain c :: s)
  | escaped {c d : Char} {cs : List Char} {s : List Letter} (hd : Escapes c d)
      (hrest : Spelled cs s) : Spelled ('\\' :: c :: cs) (.escaped d :: s)

/-- A letter that may stand in an element: no delimiter, and no backslash that escapes nothing. -/
def Bare : Letter → Prop
  | plain c => c ≠ ',' ∧ c ≠ '|' ∧ c ≠ '(' ∧ c ≠ ')'
  | escaped _ => True
  | dangling => False

/-- The letters that modify an element when they stand behind its symbol. -/
def Modifies (l : Letter) : Prop :=
  l = .plain '?' ∨ l = .plain '+' ∨ l = .plain '*'

/-- Letters that mean nothing. -/
def Blanks (s : List Letter) : Prop :=
  ∀ l ∈ s, l.isBlank = true

/-- No blank stands at either end. -/
def Tight (s : List Letter) : Prop :=
  (∀ l ∈ s.head?, l.isBlank = false) ∧ ∀ l ∈ s.getLast?, l.isBlank = false

end Letter

open Letter

/-! ## Elements -/

/-- What may stand before a symbol: nothing, where the symbol does not look as if it were inverted
itself, or a bang. -/
inductive Bang : List Letter → List Letter → Bool → Prop where
  | absent {symbol : List Letter} (h : symbol.head? ≠ some (.plain '!')) : Bang [] symbol false
  | present {blanks symbol : List Letter} (hblanks : Blanks blanks)
      (h : ∀ l ∈ symbol.head?, l.isBlank = false) : Bang (.plain '!' :: blanks) symbol true

/-- The modifiers behind the symbol of an element, in any number and order. -/
structure Modifiers (marks : List Letter) (e : Element) : Prop where
  modifies : ∀ l ∈ marks, l.isBlank = true ∨ l.Modifies
  optional_iff : e.optional = true ↔ .plain '?' ∈ marks ∨ .plain '*' ∈ marks
  repeats_iff : e.repeats = true ↔ .plain '+' ∈ marks ∨ .plain '*' ∈ marks

/-- The letters of an element, without the blanks around them. -/
inductive WritesBody : List Letter → Element → Prop where
  /-- A letter that stands alone is itself. -/
  | single (l : Letter) : WritesBody [l] { symbol := spell [l] }
  /-- Of several letters the symbol is what is left without the modifiers and the bang.  It does not
  end in a modifier, so the modifiers are all that there are. -/
  | several {bang symbol marks : List Letter} {e : Element}
      (hseveral : 1 < (bang ++ symbol ++ marks).length) (hne : symbol ≠ [])
      (hend : ∀ l ∈ symbol.getLast?, l.isBlank = false ∧ ¬ l.Modifies)
      (hsymbol : e.symbol = spell symbol) (hbang : Bang bang symbol e.inverted)
      (hmarks : Modifiers marks e) : WritesBody (bang ++ symbol ++ marks) e

/-- The letters of an element. -/
def WritesElement (s : List Letter) (e : Element) : Prop :=
  (∀ l ∈ s, l.Bare) ∧
    ∃ before body after, s = before ++ body ++ after ∧ Blanks before ∧ Blanks after ∧ Tight body ∧
      WritesBody body e

/-! ## Groups and sequences -/

/-- What letters can be written for. -/
inductive Phrase where
  | item (i : Item)
  | sequence (items : List Item)
  | alternatives (sequences : List (List Item))

/-- The letters can be written for the phrase. -/
inductive Derives : List Letter → Phrase → Prop where
  | element {s : List Letter} {e : Element} (h : WritesElement s e) : Derives s (.item (.element e))
  | group {before inside after : List Letter} {sequences : List (List Item)}
      (hbefore : Blanks before) (hinside : Derives inside (.alternatives sequences))
      (hafter : Blanks after) :
      Derives (before ++ .plain '(' :: inside ++ .plain ')' :: after) (.item (.group sequences))
  /-- A group that may be left out has one more alternative, which is empty. -/
  | optionalGroup {before inside middle after : List Letter} {sequences : List (List Item)}
      (hbefore : Blanks before) (hinside : Derives inside (.alternatives sequences))
      (hmiddle : Blanks middle) (hafter : Blanks after) :
      Derives (before ++ .plain '(' :: inside ++ .plain ')' :: (middle ++ .plain '?' :: after))
        (.item (.group (sequences ++ [[]])))
  | oneItem {s : List Letter} {i : Item} (h : Derives s (.item i)) : Derives s (.sequence [i])
  | comma {s t : List Letter} {i : Item} {items : List Item} (hitem : Derives s (.item i))
      (hrest : Derives t (.sequence items)) :
      Derives (s ++ .plain ',' :: t) (.sequence (i :: items))
  | oneSequence {s : List Letter} {items : List Item} (h : Derives s (.sequence items)) :
      Derives s (.alternatives [items])
  | bar {s t : List Letter} {items : List Item} {sequences : List (List Item)}
      (hitems : Derives s (.sequence items)) (hrest : Derives t (.alternatives sequences)) :
      Derives (s ++ .plain '|' :: t) (.alternatives (items :: sequences))

/-! ## Patterns -/

/-- What several alternatives at the top make: one is a sequence by itself. -/
def ofAlternatives : List (List Item) → Pattern
  | [items] => .sequence items
  | sequences => .alternation sequences

/-- The text is written for the pattern. -/
def Writes (written : String) (p : Pattern) : Prop :=
  ∃ s sequences, Spelled written.toList s ∧ Derives s (.alternatives sequences) ∧
    p = ofAlternatives sequences

/-! ## Letters of derivations -/

section Letters

variable {cs ds : List Char} {s t : List Letter} {phrase : Phrase}

lemma Letter.Escapes.eq_unescape {c d : Char} (h : Escapes c d) : d = unescape c := by
  cases h with
  | lineFeed => rfl
  | tab => rfl
  | carriageReturn => rfl
  | itself hn ht hr => simp [unescape, hn, ht, hr]

lemma Letter.escapes_unescape (c : Char) : Escapes c (unescape c) := by
  by_cases hn : c = 'n'
  · exact hn ▸ .lineFeed
  by_cases ht : c = 't'
  · exact ht ▸ .tab
  by_cases hr : c = 'r'
  · exact hr ▸ .carriageReturn
  simpa [unescape, hn, ht, hr] using Escapes.itself hn ht hr

/-- Characters are spelled as letters in one way, if they are not cut off after a backslash. -/
lemma Letter.spelled_iff : Spelled cs s ↔ s = ofChars cs ∧ .dangling ∉ s := by
  constructor
  · intro h
    induction h with
    | nil => simp [ofChars]
    | plain hc _ ih => simp [ofChars, hc, ih.1 ▸ ih.2, ih.1]
    | escaped hd _ ih => simp [ofChars, hd.eq_unescape, ih.1 ▸ ih.2, ih.1]
  · rintro ⟨rfl, h⟩
    fun_induction ofChars cs with
    | case1 => exact .nil
    | case2 => simp at h
    | case3 c cs ih => exact .escaped (escapes_unescape c) (ih (by simpa using h))
    | case4 c cs hlast hnext ih =>
      have hc : c ≠ '\\' := by
        rintro rfl
        cases cs with
        | nil => exact hlast rfl rfl
        | cons d cs => exact hnext d cs rfl rfl
      exact .plain hc (ih (by simpa using h))

lemma Letter.Spelled.append (hs : Spelled cs s) (ht : Spelled ds t) :
    Spelled (cs ++ ds) (s ++ t) := by
  induction hs with
  | nil => exact ht
  | plain hc _ ih => exact .plain hc ih
  | escaped hd _ ih => exact .escaped hd ih

lemma Letter.Blanks.dangling_not_mem (h : Blanks s) : .dangling ∉ s := by
  intro hmem
  cases h _ hmem

/-- No backslash in a derivation escapes nothing. -/
lemma Derives.dangling_not_mem (h : Derives s phrase) : .dangling ∉ s := by
  induction h with
  | element h => exact fun hmem => h.1 _ hmem
  | group hbefore _ hafter ih => simp [hbefore.dangling_not_mem, ih, hafter.dangling_not_mem]
  | optionalGroup hbefore _ hmiddle hafter ih =>
    simp [hbefore.dangling_not_mem, ih, hmiddle.dangling_not_mem, hafter.dangling_not_mem]
  | oneItem _ ih => exact ih
  | comma _ _ ih₁ ih₂ => simp [ih₁, ih₂]
  | oneSequence _ ih => exact ih
  | bar _ _ ih₁ ih₂ => simp [ih₁, ih₂]

end Letters

end Lexing.Pattern
