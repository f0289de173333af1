import Lexing.Proofs.Reading
import Mathlib.Data.List.Infix

/-!
# Writing patterns in the notation

Every pattern that the notation can express has a canonical text (`Pattern.write`), and the reader
finds the pattern in it.  Symbols may consist of any characters, those of the notation and white
space included, for each is written behind a backslash; only `n`, `t` and `r` are not, which would
become control characters there.

Neither direction of the main result (`ofNotation_write`) looks into the reader.  That the text of a
pattern is written for it follows the shape of the pattern, and that what is read is of the right
form follows the derivation.
-/

namespace Lexing.Pattern

open Letter

/-! ## Patterns of the right form -/

/-- The item can be expressed: no symbol is empty, and of the alternatives of a group only the last
may be empty, if it is not the only one. -/
inductive Item.WellFormed : Item → Prop where
  | element {e : Element} (hsymbol : e.symbol ≠ "") : WellFormed (.element e)
  | group {alternatives : List (List Item)}
      (hitems : ∀ items ∈ alternatives, ∀ i ∈ items, i.WellFormed)
      (hsome : ∃ items ∈ alternatives, items ≠ []) (hlast : [] ∉ alternatives.dropLast) :
      WellFormed (.group alternatives)

/-- A sequence that stands for itself: there are items, and they can be expressed. -/
structure Item.Proper (items : List Item) : Prop where
  ne_nil : items ≠ []
  wellFormed : ∀ i ∈ items, i.WellFormed

/-- The pattern can be expressed.  A literal cannot: its characters are elements without having been
written as such. -/
inductive WellFormed : Pattern → Prop where
  | sequence {items : List Item} (hitems : Item.Proper items) : WellFormed (.sequence items)
  | alternation {alternatives : List (List Item)} (hseveral : 2 ≤ alternatives.length)
      (hitems : ∀ items ∈ alternatives, Item.Proper items) : WellFormed (.alternation alternatives)

/-! ## Canonical texts -/

/-- A character of a symbol. -/
def writeChar (c : Char) : List Char :=
  if c = 'n' ∨ c = 't' ∨ c = 'r' then [c] else ['\\', c]

/-- The modifier behind a symbol. -/
def Element.mark (e : Element) : List Char :=
  match e.optional, e.repeats with
  | false, false => []
  | true, false => ['?']
  | false, true => ['+']
  | true, true => ['*']

/-- What stands before a symbol. -/
def Element.bang (e : Element) : List Char :=
  if e.inverted then ['!'] else []

def Element.write (e : Element) : List Char :=
  e.bang ++ e.symbol.toList.flatMap writeChar ++ e.mark

namespace Item

mutual

def write : Item → List Char
  | element e => e.write
  | group alternatives =>
    match alternatives.getLast? with
    | some [] => '(' :: ['|'].intercalate (writeEach alternatives).dropLast ++ [')', '?']
    | _ => '(' :: ['|'].intercalate (writeEach alternatives) ++ [')']

/-- The texts of several items. -/
def writeAll : List Item → List (List Char)
  | [] => []
  | item :: items => write item :: writeAll items

/-- The texts of several sequences. -/
def writeEach : List (List Item) → List (List Char)
  | [] => []
  | items :: alternatives => [','].intercalate (writeAll items) :: writeEach alternatives

end

def writeSequence (items : List Item) : List Char :=
  [','].intercalate (items.map write)

def writeAlternatives (alternatives : List (List Item)) : List Char :=
  ['|'].intercalate (alternatives.map writeSequence)

end Item

/-- The canonical text of a pattern that can be expressed, and for a literal just its text. -/
def write : Pattern → String
  | literal text => text
  | sequence items => String.ofList (Item.writeSequence items)
  | alternation alternatives => String.ofList (Item.writeAlternatives alternatives)

section Writing

variable {e : Element} {i : Item} {items : List Item} {alternatives : List (List Item)} {c : Char}

namespace Item

lemma writeAll_eq_map : writeAll items = items.map write := by
  induction items with
  | nil => rfl
  | cons i items ih => rw [writeAll, ih, List.map_cons]

lemma writeEach_eq_map : writeEach alternatives = alternatives.map writeSequence := by
  induction alternatives with
  | nil => rfl
  | cons items alternatives ih => rw [writeEach, ih, writeAll_eq_map, List.map_cons, writeSequence]

lemma write_group (h : alternatives.getLast? ≠ some []) :
    write (.group alternatives) = '(' :: writeAlternatives alternatives ++ [')'] := by
  rw [write]
  split
  · rename_i hlast
    exact absurd hlast h
  · rw [writeEach_eq_map, writeAlternatives]

lemma write_optionalGroup :
    write (.group (alternatives ++ [[]])) =
      '(' :: writeAlternatives alternatives ++ [')', '?'] := by
  simp [write, writeEach_eq_map, writeAlternatives]

end Item

/-! ## The letters of an element -/

/-- The letter of a character of a symbol. -/
def letterOf (c : Char) : Letter :=
  if c = 'n' ∨ c = 't' ∨ c = 'r' then .plain c else .escaped c

lemma letterOf_cases (c : Char) :
    letterOf c = .plain c ∧ writeChar c = [c] ∧ (c = 'n' ∨ c = 't' ∨ c = 'r') ∨
      letterOf c = .escaped c ∧ writeChar c = ['\\', c] ∧ Escapes c c := by
  by_cases h : c = 'n' ∨ c = 't' ∨ c = 'r'
  · exact .inl ⟨if_pos h, if_pos h, h⟩
  · refine .inr ⟨if_neg h, if_neg h, ?_⟩
    simp only [not_or] at h
    exact .itself h.1 h.2.1 h.2.2

lemma spelled_writeChar (c : Char) : Spelled (writeChar c) [letterOf c] := by
  obtain ⟨hletter, hwrite, h⟩ | ⟨hletter, hwrite, h⟩ := letterOf_cases c
  · rw [hletter, hwrite]
    exact .plain (by rcases h with rfl | rfl | rfl <;> decide) .nil
  · rw [hletter, hwrite]
    exact .escaped h .nil

lemma spelled_flatMap_writeChar (cs : List Char) :
    Spelled (cs.flatMap writeChar) (cs.map letterOf) := by
  induction cs with
  | nil => exact .nil
  | cons c cs ih => exact (spelled_writeChar c).append ih

lemma char_letterOf (c : Char) : (letterOf c).char = c := by
  obtain ⟨h, -⟩ | ⟨h, -⟩ := letterOf_cases c <;> rw [h, char]

lemma spell_map_letterOf (symbol : Tag) : spell (symbol.toList.map letterOf) = symbol := by
  simp [spell, Function.comp_def, char_letterOf]

/-- Nothing in a symbol is taken for a part of the notation. -/
lemma letterOf_bare (c : Char) :
    (letterOf c).Bare ∧ (letterOf c).isBlank = false ∧ ¬ (letterOf c).Modifies ∧
      letterOf c ≠ .plain '!' := by
  obtain ⟨h, -, hc⟩ | ⟨h, -⟩ := letterOf_cases c
  · rw [h]
    rcases hc with rfl | rfl | rfl <;> simp [Bare, Modifies] <;> decide
  · simp [h, Bare, Modifies, isBlank]

lemma spelled_map_plain {cs : List Char} (h : '\\' ∉ cs) : Spelled cs (cs.map .plain) := by
  induction cs with
  | nil => exact .nil
  | cons c cs ih =>
    simp only [List.mem_cons, not_or] at h
    exact .plain (Ne.symm h.1) (ih h.2)

/-- The letters of the canonical text of an element. -/
def Element.letters (e : Element) : List Letter :=
  e.bang.map .plain ++ e.symbol.toList.map letterOf ++ e.mark.map .plain

lemma Element.bang_cases (e : Element) :
    e.inverted = false ∧ e.bang = [] ∨ e.inverted = true ∧ e.bang = ['!'] := by
  unfold bang
  split <;> simp_all

lemma Element.mark_cases (e : Element) :
    e.optional = false ∧ e.repeats = false ∧ e.mark = [] ∨
      e.optional = true ∧ e.repeats = false ∧ e.mark = ['?'] ∨
        e.optional = false ∧ e.repeats = true ∧ e.mark = ['+'] ∨
          e.optional = true ∧ e.repeats = true ∧ e.mark = ['*'] := by
  unfold mark
  split <;> simp_all

lemma Element.spelled_write (e : Element) : Spelled e.write e.letters := by
  refine ((spelled_map_plain ?_).append (spelled_flatMap_writeChar _)).append (spelled_map_plain ?_)
  · obtain ⟨-, h⟩ | ⟨-, h⟩ := e.bang_cases <;> rw [h] <;> decide
  · obtain ⟨-, -, h⟩ | ⟨-, -, h⟩ | ⟨-, -, h⟩ | ⟨-, -, h⟩ := e.mark_cases <;> rw [h] <;> decide

/-- All letters of an element belong to it, and none of them is a blank. -/
lemma Element.bare_of_mem_letters {l : Letter} (h : l ∈ e.letters) :
    l.Bare ∧ l.isBlank = false := by
  simp only [letters, List.mem_append, List.mem_map] at h
  obtain (⟨c, hc, rfl⟩ | ⟨c, -, rfl⟩) | ⟨c, hc, rfl⟩ := h
  · obtain ⟨-, h⟩ | ⟨-, h⟩ := e.bang_cases <;> rw [h] at hc <;> simp at hc
    subst hc
    exact ⟨by simp [Bare], by decide⟩
  · exact ⟨(letterOf_bare c).1, (letterOf_bare c).2.1⟩
  · obtain ⟨-, -, h⟩ | ⟨-, -, h⟩ | ⟨-, -, h⟩ | ⟨-, -, h⟩ := e.mark_cases <;> rw [h] at hc <;>
      simp at hc
    all_goals
      subst hc
      exact ⟨by simp [Bare], by decide⟩

lemma Element.modifiers_mark (e : Element) : Modifiers (e.mark.map .plain) e := by
  obtain ⟨ho, hr, h⟩ | ⟨ho, hr, h⟩ | ⟨ho, hr, h⟩ | ⟨ho, hr, h⟩ := e.mark_cases <;>
    exact ⟨by simp [h, Modifies], by simp [h, ho], by simp [h, hr]⟩

lemma Element.bang_bang (e : Element) :
    Bang (e.bang.map .plain) (e.symbol.toList.map letterOf) e.inverted := by
  have hhead : ∀ l ∈ (e.symbol.toList.map letterOf).head?,
      l.isBlank = false ∧ l ≠ .plain '!' := by
    intro l hl
    obtain ⟨c, -, rfl⟩ := List.mem_map.1 (List.mem_of_mem_head? hl)
    exact ⟨(letterOf_bare c).2.1, (letterOf_bare c).2.2.2⟩
  obtain ⟨h, hbang⟩ | ⟨h, hbang⟩ := e.bang_cases
  · rw [h, hbang]
    exact .absent fun hl => (hhead _ hl).2 rfl
  · rw [h, hbang]
    exact .present (by simp [Blanks]) fun l hl => (hhead l hl).1

/-- A single letter is the symbol: there is no room for a bang or a modifier. -/
lemma Element.eq_plain_of_length_le (hsymbol : e.symbol ≠ "") (h : e.letters.length ≤ 1) :
    ∃ c, e.letters = [letterOf c] ∧ e = .plain (spell [letterOf c]) := by
  have hpos : 0 < e.symbol.toList.length := List.length_pos_iff.2 (by simpa using hsymbol)
  simp only [letters, List.length_append, List.length_map] at h
  have hbang : e.bang = [] := List.eq_nil_of_length_eq_zero (by omega)
  have hmark : e.mark = [] := List.eq_nil_of_length_eq_zero (by omega)
  obtain ⟨c, hc⟩ := List.length_eq_one_iff.1 (show e.symbol.toList.length = 1 by omega)
  have hplain : e = .plain e.symbol := by
    obtain ⟨hinverted, -⟩ | ⟨-, h⟩ := e.bang_cases
    · obtain ⟨ho, hr, -⟩ | ⟨-, -, h⟩ | ⟨-, -, h⟩ | ⟨-, -, h⟩ := e.mark_cases
      · calc e = ⟨e.symbol, e.optional, e.repeats, e.inverted⟩ := rfl
          _ = .plain e.symbol := by rw [ho, hr, hinverted, plain]
      all_goals simp [h] at hmark
    · simp [h] at hbang
  refine ⟨c, by simp [letters, hbang, hmark, hc], hplain.trans ?_⟩
  rw [← spell_map_letterOf e.symbol, hc, List.map_cons, List.map_nil]

lemma Element.writesBody_letters (hsymbol : e.symbol ≠ "") : WritesBody e.letters e := by
  by_cases hseveral : 1 < e.letters.length
  · refine .several hseveral (by simpa using hsymbol) ?_ (spell_map_letterOf _).symm e.bang_bang
      e.modifiers_mark
    intro l hl
    obtain ⟨c, -, rfl⟩ := List.mem_map.1 (List.mem_of_getLast? hl)
    exact ⟨(letterOf_bare c).2.1, (letterOf_bare c).2.2.1⟩
  · obtain ⟨c, hletters, he⟩ := eq_plain_of_length_le hsymbol (Nat.not_lt.1 hseveral)
    rw [hletters, he]
    exact .single (letterOf c)

lemma Element.writesElement_letters (hsymbol : e.symbol ≠ "") : WritesElement e.letters e := by
  refine ⟨fun l hl => (bare_of_mem_letters hl).1, [], e.letters, [], by simp, by simp [Blanks],
    by simp [Blanks], ⟨fun l hl => ?_, fun l hl => ?_⟩, writesBody_letters hsymbol⟩
  · exact (bare_of_mem_letters (List.mem_of_mem_head? hl)).2
  · exact (bare_of_mem_letters (List.mem_of_getLast? hl)).2

/-! ## What the texts are written for -/

/-- The characters can be written for the phrase. -/
def Conveys (cs : List Char) (phrase : Phrase) : Prop :=
  ∃ s, Spelled cs s ∧ Derives s phrase

lemma conveys_element (hsymbol : e.symbol ≠ "") : Conveys e.write (.item (.element e)) :=
  ⟨e.letters, e.spelled_write, .element (Element.writesElement_letters hsymbol)⟩

lemma spelled_delimited {cs ds : List Char} {s t : List Letter} {c : Char} (hc : c ≠ '\\')
    (hs : Spelled cs s) (ht : Spelled ds t) : Spelled (cs ++ c :: ds) (s ++ .plain c :: t) :=
  hs.append (.plain hc ht)

lemma conveys_sequence (hne : items ≠ [])
    (hitems : ∀ i ∈ items, Conveys i.write (.item i)) :
    Conveys (Item.writeSequence items) (.sequence items) := by
  induction items with
  | nil => exact absurd rfl hne
  | cons i items ih =>
    obtain ⟨s, hs, hi⟩ := hitems i List.mem_cons_self
    cases items with
    | nil => exact ⟨s, by simpa [Item.writeSequence] using hs, .oneItem hi⟩
    | cons i' items =>
      obtain ⟨t, ht, hrest⟩ := ih (by simp) fun i hi => hitems i (List.mem_cons_of_mem _ hi)
      refine ⟨s ++ .plain ',' :: t, ?_, .comma hi hrest⟩
      simpa [Item.writeSequence] using spelled_delimited (c := ',') (by decide) hs ht

lemma conveys_alternatives (hne : alternatives ≠ [])
    (hsequences : ∀ items ∈ alternatives, Conveys (Item.writeSequence items) (.sequence items)) :
    Conveys (Item.writeAlternatives alternatives) (.alternatives alternatives) := by
  induction alternatives with
  | nil => exact absurd rfl hne
  | cons items alternatives ih =>
    obtain ⟨s, hs, hitems⟩ := hsequences items List.mem_cons_self
    cases alternatives with
    | nil => exact ⟨s, by simpa [Item.writeAlternatives] using hs, .oneSequence hitems⟩
    | cons items' alternatives =>
      obtain ⟨t, ht, hrest⟩ := ih (by simp) fun items h => hsequences items (List.mem_cons_of_mem _ h)
      refine ⟨s ++ .plain '|' :: t, ?_, .bar hitems hrest⟩
      simpa [Item.writeAlternatives] using spelled_delimited (c := '|') (by decide) hs ht

lemma blanks_nil : Blanks [] := by
  simp [Blanks]

lemma conveys_group (hlast : alternatives.getLast? ≠ some [])
    (h : Conveys (Item.writeAlternatives alternatives) (.alternatives alternatives)) :
    Conveys (Item.group alternatives).write (.item (.group alternatives)) := by
  obtain ⟨s, hs, hderives⟩ := h
  rw [Item.write_group hlast]
  exact ⟨_, .plain (by decide) (hs.append (.plain (by decide) .nil)),
    .group blanks_nil hderives blanks_nil⟩

lemma conveys_optionalGroup
    (h : Conveys (Item.writeAlternatives alternatives) (.alternatives alternatives)) :
    Conveys (Item.group (alternatives ++ [[]])).write
      (.item (.group (alternatives ++ [[]]))) := by
  obtain ⟨s, hs, hderives⟩ := h
  rw [Item.write_optionalGroup]
  exact ⟨_, .plain (by decide) (hs.append (.plain (by decide) (.plain (by decide) .nil))),
    .optionalGroup blanks_nil hderives blanks_nil blanks_nil⟩

/-- **What is written can be read.**  Induction on the form of the item. -/
lemma conveys_item (h : i.WellFormed) : Conveys i.write (.item i) := by
  induction h with
  | element hsymbol => exact conveys_element hsymbol
  | @group alternatives hitems hsome hlast ih =>
    rcases List.eq_nil_or_concat' alternatives with rfl | ⟨kept, last, rfl⟩
    · simp at hsome
    rw [List.dropLast_concat] at hlast
    have hinside : ∀ items ∈ kept ++ [last], items ≠ [] →
        Conveys (Item.writeSequence items) (.sequence items) := fun items h hne =>
      conveys_sequence hne fun i hi => ih items h i hi
    have hkept : ∀ items ∈ kept, Conveys (Item.writeSequence items) (.sequence items) := by
      intro items h
      exact hinside items (by simp [h]) (by rintro rfl; exact hlast h)
    rcases eq_or_ne last [] with rfl | hne
    · exact conveys_optionalGroup (conveys_alternatives (by rintro rfl; simp at hsome) hkept)
    · refine conveys_group (by simpa using hne) (conveys_alternatives (by simp) fun items h => ?_)
      rcases List.mem_append.1 h with h | h
      · exact hkept items h
      · obtain rfl := List.mem_singleton.1 h
        exact hinside _ (by simp) hne

lemma Item.Proper.conveys (h : Item.Proper items) :
    Conveys (Item.writeSequence items) (.sequence items) :=
  conveys_sequence h.ne_nil fun i hi => conveys_item (h.wellFormed i hi)

/-- The canonical text of a pattern is written for it. -/
lemma WellFormed.writes {p : Pattern} (h : p.WellFormed) : Writes p.write p := by
  cases h with
  | @sequence items hitems =>
    obtain ⟨s, hs, hderives⟩ := hitems.conveys
    exact ⟨s, [items], by rwa [write, String.toList_ofList], .oneSequence hderives, rfl⟩
  | @alternation alternatives hseveral hitems =>
    have hne : alternatives ≠ [] := by
      rintro rfl
      simp at hseveral
    obtain ⟨s, hs, hderives⟩ :=
      conveys_alternatives hne fun items h => (hitems items h).conveys
    refine ⟨s, alternatives, by rwa [write, String.toList_ofList], hderives, ?_⟩
    rcases alternatives with _ | ⟨items, _ | ⟨items', alternatives⟩⟩
    · rfl
    · simp at hseveral
    · rfl

/-! ## What is read is of the right form -/

/-- The phrase can be expressed. -/
def Phrase.WellFormed : Phrase → Prop
  | .item i => i.WellFormed
  | .sequence items => Item.Proper items
  | .alternatives sequences => sequences ≠ [] ∧ ∀ items ∈ sequences, Item.Proper items

lemma WritesElement.symbol_ne {s : List Letter} (h : WritesElement s e) : e.symbol ≠ "" := by
  obtain ⟨-, -, body, -, -, -, -, -, hbody⟩ := h
  cases hbody with
  | single l => simp [spell]
  | several _ hne _ hsymbol =>
    rw [hsymbol, spell]
    simpa using hne

lemma Derives.wellFormed {s : List Letter} {phrase : Phrase} (h : Derives s phrase) :
    phrase.WellFormed := by
  induction h with
  | element h => exact .element h.symbol_ne
  | @group _ _ _ sequences _ _ _ ih =>
    obtain ⟨hne, hproper⟩ := ih
    obtain ⟨items, hitems⟩ := List.exists_mem_of_ne_nil _ hne
    refine .group (fun items h => (hproper items h).wellFormed)
      ⟨items, hitems, (hproper items hitems).ne_nil⟩ fun h => ?_
    exact (hproper [] (List.mem_of_mem_dropLast h)).ne_nil rfl
  | @optionalGroup _ _ _ _ sequences _ _ _ _ ih =>
    obtain ⟨hne, hproper⟩ := ih
    obtain ⟨items, hitems⟩ := List.exists_mem_of_ne_nil _ hne
    refine .group (fun items h => ?_) ⟨items, by simp [hitems], (hproper items hitems).ne_nil⟩ ?_
    · rcases List.mem_append.1 h with h | h
      · exact (hproper items h).wellFormed
      · simp [List.mem_singleton.1 h]
    · rw [List.dropLast_concat]
      exact fun h => (hproper [] h).ne_nil rfl
  | oneItem _ ih => exact ⟨by simp, List.forall_mem_singleton.2 ih⟩
  | comma _ _ ih₁ ih₂ => exact ⟨by simp, List.forall_mem_cons.2 ⟨ih₁, ih₂.wellFormed⟩⟩
  | oneSequence _ ih => exact ⟨by simp, List.forall_mem_singleton.2 ih⟩
  | bar _ _ ih₁ ih₂ => exact ⟨by simp, List.forall_mem_cons.2 ⟨ih₁, ih₂.2⟩⟩

/-- A text is only written for a pattern of the right form. -/
lemma Writes.wellFormed {written : String} {p : Pattern} (h : Writes written p) :
    p.WellFormed := by
  obtain ⟨s, sequences, -, hderives, rfl⟩ := h
  obtain ⟨hne, hproper⟩ := hderives.wellFormed
  rcases sequences with _ | ⟨items, _ | ⟨items', sequences⟩⟩
  · exact absurd rfl hne
  · exact .sequence (hproper items (by simp))
  · exact .alternation (by simp) hproper

end Writing

/-! ## There and back -/

/-- **The notation expresses the patterns of the right form.**  Such a pattern is read from its
canonical text.  Whatever is read is such a pattern, and so it can be written and read again. -/
theorem ofNotation_write :
    (∀ p : Pattern, p.WellFormed → ofNotation p.write = .ok p) ∧
      ∀ (written : String) (p : Pattern), ofNotation written = .ok p →
        p.WellFormed ∧ ofNotation p.write = .ok p := by
  have hwrite : ∀ p : Pattern, p.WellFormed → ofNotation p.write = .ok p := fun p hp =>
    ofNotation_eq_ok.2 (parse_iff_writes.2 hp.writes)
  refine ⟨hwrite, fun written p h => ?_⟩
  have hp := (parse_iff_writes.1 (ofNotation_eq_ok.1 h)).wellFormed
  exact ⟨hp, hwrite p hp⟩

/-- A pattern whose symbols look like notation. -/
def troublesome : Pattern :=
  .sequence
    [.element { symbol := "a, b!", optional := true, repeats := true, inverted := true },
      .group [[.element (.plain "n"), .element (.plain "?")], [.element (.plain "\n")], []]]

theorem ofNotation_write_troublesome :
    troublesome.WellFormed ∧ troublesome.write = "!\\a\\,\\ \\b\\!*,(n,\\?|\\\n)?" ∧
      ofNotation troublesome.write = .ok troublesome := by
  have hgroup : Item.WellFormed
      (.group [[.element (.plain "n"), .element (.plain "?")], [.element (.plain "\n")], []]) := by
    refine .group ?_ ⟨[.element (.plain "\n")], by simp, by simp⟩ (by simp)
    simp only [List.forall_mem_cons, List.not_mem_nil, false_implies, implies_true, and_true]
    exact ⟨⟨.element (by decide), .element (by decide)⟩, .element (by decide)⟩
  have hwellFormed : troublesome.WellFormed := by
    refine .sequence ⟨by simp, ?_⟩
    simp only [List.forall_mem_cons, List.not_mem_nil, false_implies, implies_true, and_true]
    exact ⟨.element (by decide), hgroup⟩
  have hread := ofNotation_write.1 troublesome hwellFormed
  exact ⟨hwellFormed, by decide, (ofNotation_write.2 _ troublesome hread).2⟩

end Lexing.Pattern
