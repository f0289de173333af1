import Lexing.Lexeme
import Mathlib.Tactic.Lemma
import Mathlib.Tactic.SplitIfs

/-!
# How definitions are checked

The checks on a definition are made in order, and the first that fails decides: on its kind, on
whether it has a pattern at all, on the symbols of the pattern, and last on whether the pattern can
be matched by nothing.  A definition that passes all but the last *offers* its items
(`Definition.Offers`); one that has no pattern, or nothing in it, *lacks* it (`Definition.Lacks`).

`Definition.Checks` lists the ways this can go, each with what is known then and what comes of it.
There are no others (`Definition.checks_toLexeme`), so what the checks find out is proved by cases.
-/

namespace Lexing

/-! ## Faults -/

namespace LexiconError

/-- The fault is one of a kind. -/
def OfKind : LexiconError → Prop
  | invalidKind | reservedKind _ => True
  | _ => False

/-- The fault is one of the symbols of a pattern. -/
def OfSymbols : LexiconError → Prop
  | emptySymbol _ | reservedSymbol _ _ | patternModeMismatch _ _ _ => True
  | _ => False

end LexiconError

namespace Definition

open Pattern (Element Item)

variable {d : Definition} {mode : Mode} {kind : Tag} {fault : LexiconError} {items : List Item}
  {lexeme : Lexeme}

lemma ofKind_of_checkKind (h : checkKind kind = .error fault) : fault.OfKind := by
  unfold checkKind at h
  split_ifs at h <;> cases h <;> trivial

lemma ofSymbols_of_checkElements {es : List Element}
    (h : checkElements kind mode es = .error fault) : fault.OfSymbols := by
  induction es with
  | nil => cases h
  | cons e es ih =>
    rw [checkElements] at h
    split at h
    · rename_i helement
      cases h
      unfold checkElement at helement
      split_ifs at helement <;> cases helement <;> trivial
    · exact ih h

lemma itemsOf_eq_missingPattern_iff {pattern : Pattern} :
    itemsOf kind mode pattern = .error (.missingPattern kind) ↔
      ∃ alternatives, pattern = .alternation alternatives ∧ [] ∈ alternatives := by
  cases pattern with
  | literal text => cases mode <;> simp [itemsOf]
  | sequence items => simp [itemsOf]
  | alternation alternatives => simp [itemsOf]

/-- A pattern has no items if it is none of the mode, or if it is an alternation with an empty
alternative. -/
lemma cases_of_itemsOf {pattern : Pattern} (h : itemsOf kind mode pattern = .error fault) :
    fault.OfSymbols ∨ fault = .missingPattern kind := by
  unfold itemsOf at h
  split at h
  · split at h
    · cases h
      exact .inl trivial
    · cases h
  · cases h
  · split_ifs at h
    cases h
    exact .inr rfl

/-! ## Outcomes -/

/-- The definition has no pattern, or one without items, or an alternation with an empty
alternative. -/
def Lacks (d : Definition) (mode : Mode) : Prop :=
  d.pattern? = none ∨
    ∃ pattern, d.pattern? = some pattern ∧
      (itemsOf d.kind mode pattern = .ok [] ∨
        ∃ alternatives, pattern = .alternation alternatives ∧ [] ∈ alternatives)

lemma lacks_iff {pattern : Pattern} (hpattern : d.pattern? = some pattern) :
    d.Lacks mode ↔ itemsOf d.kind mode pattern = .ok [] ∨
      itemsOf d.kind mode pattern = .error (.missingPattern d.kind) := by
  simp [Lacks, hpattern, itemsOf_eq_missingPattern_iff]

/-- The definition stands for the items, and passes all the checks that come before the one for
nullability. -/
structure Offers (d : Definition) (mode : Mode) (items : List Item) : Prop where
  kind : checkKind d.kind = .ok ()
  pattern : ∃ pattern, d.pattern? = some pattern ∧ itemsOf d.kind mode pattern = .ok items
  ne_nil : items ≠ []
  elements : checkElements d.kind mode (Item.elementsOf items) = .ok ()

/-- The lexeme of a definition that stands for the items. -/
def lexemeWith (d : Definition) (items : List Item) : Lexeme :=
  { kind := d.kind, items, fullMatch := d.fullMatch, partialMatch? := d.partialMatch? }

/-- What is left to check is whether the items are nullable. -/
lemma Offers.toLexeme_eq (h : d.Offers mode items) :
    d.toLexeme mode =
      if Item.allNullable items then .error (.nullablePattern d.kind)
      else .ok (d.lexemeWith items) := by
  obtain ⟨pattern, hpattern, hitems⟩ := h.pattern
  have hsome : items.isEmpty = false := by simpa using h.ne_nil
  simp only [toLexeme, h.kind, hpattern, hitems, checkItems, hsome, h.elements]
  by_cases hnullable : Item.allNullable items = true <;> simp [hnullable, lexemeWith]

lemma Offers.not_lacks (h : d.Offers mode items) : ¬ d.Lacks mode := by
  obtain ⟨pattern, hpattern, hitems⟩ := h.pattern
  rw [lacks_iff hpattern, hitems]
  rintro (hnil | hfault)
  · exact h.ne_nil (Except.ok.inj hnil)
  · cases hfault

/-- The ways the checks on a definition can go. -/
inductive Checks (d : Definition) (mode : Mode) : Except LexiconError Lexeme → Prop
  | kind {fault : LexiconError} (h : checkKind d.kind = .error fault) (hfault : fault.OfKind) :
      Checks d mode (.error fault)
  | lacks (hkind : checkKind d.kind = .ok ()) (h : d.Lacks mode) :
      Checks d mode (.error (.missingPattern d.kind))
  | symbols {fault : LexiconError} (hkind : checkKind d.kind = .ok ()) (h : ¬ d.Lacks mode)
      (hfault : fault.OfSymbols) : Checks d mode (.error fault)
  | nullable {items : List Item} (h : d.Offers mode items)
      (hnullable : Item.allNullable items = true) :
      Checks d mode (.error (.nullablePattern d.kind))
  | passed {items : List Item} (h : d.Offers mode items)
      (hnullable : Item.allNullable items = false) : Checks d mode (.ok (d.lexemeWith items))

lemma checks_of_itemsOf_error {pattern : Pattern} (hkind : checkKind d.kind = .ok ())
    (hpattern : d.pattern? = some pattern) (h : itemsOf d.kind mode pattern = .error fault) :
    d.Checks mode (d.toLexeme mode) := by
  simp only [toLexeme, hkind, hpattern, h]
  rcases cases_of_itemsOf h with hfault | rfl
  · refine .symbols hkind ?_ hfault
    rw [lacks_iff hpattern, h]
    rintro (hnil | hmissing)
    · cases hnil
    · cases hmissing
      exact hfault
  · exact .lacks hkind ((lacks_iff hpattern).2 (.inr h))

lemma checks_of_itemsOf {pattern : Pattern} (hkind : checkKind d.kind = .ok ())
    (hpattern : d.pattern? = some pattern) (h : itemsOf d.kind mode pattern = .ok items)
    (hne : items ≠ []) : d.Checks mode (d.toLexeme mode) := by
  have hsome : items.isEmpty = false := by simpa using hne
  cases helements : checkElements d.kind mode (Item.elementsOf items) with
  | error fault =>
    simp only [toLexeme, hkind, hpattern, h, checkItems, hsome, helements]
    refine .symbols hkind ?_ (ofSymbols_of_checkElements helements)
    rw [lacks_iff hpattern, h]
    simp [hne]
  | ok _ =>
    have hoffers : d.Offers mode items := ⟨hkind, ⟨pattern, hpattern, h⟩, hne, helements⟩
    rw [hoffers.toLexeme_eq]
    split_ifs with hnullable
    · exact .nullable hoffers hnullable
    · exact .passed hoffers (Bool.eq_false_iff.2 hnullable)

/-- **There are no other ways.** -/
lemma checks_toLexeme (d : Definition) (mode : Mode) : d.Checks mode (d.toLexeme mode) := by
  cases hkind : checkKind d.kind with
  | error fault =>
    rw [toLexeme, hkind]
    exact .kind hkind (ofKind_of_checkKind hkind)
  | ok _ =>
    cases hpattern : d.pattern? with
    | none =>
      simp only [toLexeme, hkind, hpattern]
      exact .lacks hkind (.inl hpattern)
    | some pattern =>
      cases hitems : itemsOf d.kind mode pattern with
      | error fault => exact checks_of_itemsOf_error hkind hpattern hitems
      | ok items =>
        by_cases hnil : items = []
        · subst hnil
          simp only [toLexeme, hkind, hpattern, hitems]
          exact .lacks hkind ((lacks_iff hpattern).2 (.inl hitems))
        · exact checks_of_itemsOf hkind hpattern hitems hnil

/-- A lexeme is made if all checks pass, of the items that the definition stands for. -/
lemma exists_offers_of_toLexeme (h : d.toLexeme mode = .ok lexeme) :
    ∃ items, d.Offers mode items ∧ Item.allNullable items = false ∧ lexeme = d.lexemeWith items := by
  have hchecks := d.checks_toLexeme mode
  rw [h] at hchecks
  cases hchecks with
  | passed hoffers hnullable => exact ⟨_, hoffers, hnullable, rfl⟩

end Definition

end Lexing
