import Lexing.Lexicon.Draft
import Lexing.Proofs.Checks

/-!
# Lexicons that pass the checks

A lexicon is *accepted* if it is what a draft is finished to, where the draft was made by any
calls in any order: those that report at once and those that keep their error for the end.

Each lexeme was checked when it was added, and the lexemes of a draft are never changed or taken back
(`Draft.Reachable.defined`).  So what a single check establishes holds of every lexeme of an accepted
lexicon (`Lexicon.Accepted.checked`); in particular no element asks for the tag that marks the end of
a stream (`Lexicon.Accepted.symbol_ne_endOfStreamTag`).
-/

namespace Lexing

/-! ## Checked lexemes -/

/-- The items of the lexeme pass the checks on patterns in a mode. -/
def Lexeme.Checked (lexeme : Lexeme) (mode : Mode) : Prop :=
  Definition.checkItems lexeme.kind mode lexeme.items = .ok ()

namespace Definition

variable {kind : Tag} {mode : Mode}

lemma checkElements_eq_ok_iff {es : List Pattern.Element} :
    checkElements kind mode es = .ok () ↔ ∀ e ∈ es, checkElement kind mode e = .ok () := by
  induction es with
  | nil => simp [checkElements]
  | cons e es ih =>
    rw [checkElements, List.forall_mem_cons]
    cases h : checkElement kind mode e with
    | error fault => simp
    | ok _ => simp [ih]

lemma symbol_ne_of_checkElement {e : Pattern.Element}
    (h : checkElement kind mode e = .ok ()) : e.symbol ≠ endOfStreamTag := by
  intro he
  unfold checkElement at h
  split at h <;> cases h

lemma kind_ne_of_checkKind (h : checkKind kind = .ok ()) : kind ≠ endOfStreamTag := by
  intro hkind
  unfold checkKind at h
  split at h <;> cases h

lemma checkKind_of_toDefault {d : Definition} {lexeme : Lexeme} (h : d.toDefault = .ok lexeme) :
    checkKind lexeme.kind = .ok () := by
  unfold toDefault at h
  split at h
  · cases h
  · rename_i hkind
    split at h
    · cases h
    · cases h
      exact hkind

lemma checkKind_of_toLexeme {d : Definition} {lexeme : Lexeme} (h : d.toLexeme mode = .ok lexeme) :
    checkKind lexeme.kind = .ok () := by
  obtain ⟨_, hoffers, _, rfl⟩ := exists_offers_of_toLexeme h
  exact hoffers.kind

lemma toLexeme_checked {d : Definition} {lexeme : Lexeme}
    (h : d.toLexeme mode = .ok lexeme) : lexeme.Checked mode := by
  obtain ⟨items, hoffers, hnullable, rfl⟩ := exists_offers_of_toLexeme h
  have hsome : items.isEmpty = false := by simpa using hoffers.ne_nil
  simp [Lexeme.Checked, lexemeWith, checkItems, hsome, hoffers.elements, hnullable]

end Definition

/-- Every element of a checked lexeme passed the check on elements. -/
lemma Lexeme.Checked.checkElement {lexeme : Lexeme} {mode : Mode} (h : lexeme.Checked mode)
    {e : Pattern.Element} (he : e ∈ Pattern.Item.elementsOf lexeme.items) :
    Definition.checkElement lexeme.kind mode e = .ok () := by
  unfold Checked Definition.checkItems at h
  split at h
  · cases h
  · split at h
    · cases h
    · rename_i helements
      exact Definition.checkElements_eq_ok_iff.1 helements e he

/-- A checked lexeme cannot be matched by nothing. -/
lemma Lexeme.Checked.allNullable_eq_false {lexeme : Lexeme} {mode : Mode}
    (h : lexeme.Checked mode) : Pattern.Item.allNullable lexeme.items = false := by
  unfold Checked Definition.checkItems at h
  split at h
  · cases h
  · split at h
    · cases h
    · split at h
      · cases h
      · rename_i hnullable
        exact Bool.eq_false_iff.2 hnullable

/-! ## Drafts made by calls -/

namespace Draft

variable {draft draft' : Draft} {d : Definition}

/-- The drafts that calls lead to, from the empty draft on.  A call that reports an error at once
leaves the draft as it was, so only those that succeed are listed; a chained call always has a
result. -/
inductive Reachable : Draft → Prop where
  | new (mode : Mode) : Reachable (.new mode)
  | setDefault {draft draft' : Draft} {d : Definition} (h : Reachable draft)
      (hd : draft.setDefault d = .ok draft') : Reachable draft'
  | add {draft draft' : Draft} {d : Definition} {id : LexemeId} (h : Reachable draft)
      (hd : draft.add d = .ok (id, draft')) : Reachable draft'
  | withDefault {draft : Draft} (d : Definition) (h : Reachable draft) :
      Reachable (draft.withDefault d)
  | withLexeme {draft : Draft} (d : Definition) (h : Reachable draft) :
      Reachable (draft.withLexeme d)

/-- A successful `setDefault` adds a default lexeme and leaves all else alone. -/
lemma exists_of_setDefault (h : draft.setDefault d = .ok draft') :
    ∃ lexeme, d.toDefault = .ok lexeme ∧ draft' = { draft with defaultLexeme? := some lexeme } := by
  unfold setDefault at h
  split at h
  · cases h
  · split at h
    · cases h
    · rename_i lexeme hlexeme
      cases h
      exact ⟨lexeme, hlexeme, rfl⟩

/-- A successful `add` puts one checked lexeme behind the others. -/
lemma exists_of_add {id : LexemeId} (h : draft.add d = .ok (id, draft')) :
    ∃ lexeme, d.toLexeme draft.mode = .ok lexeme ∧
      draft' = { draft with patternLexemes := draft.patternLexemes ++ [lexeme] } := by
  unfold add at h
  split at h
  · cases h
  · split at h
    · cases h
    · rename_i lexeme hlexeme
      cases h
      exact ⟨lexeme, hlexeme, rfl⟩

/-- Each lexeme of the draft is what some definition became when it was checked in its place. -/
structure Defined (draft : Draft) : Prop where
  default : ∀ lexeme ∈ draft.defaultLexeme?, ∃ d : Definition, d.toDefault = .ok lexeme
  pattern : ∀ lexeme ∈ draft.patternLexemes, ∃ d : Definition, d.toLexeme draft.mode = .ok lexeme

lemma Defined.setDefault (h : draft.Defined) (hd : draft.setDefault d = .ok draft') :
    draft'.Defined := by
  obtain ⟨lexeme, hlexeme, rfl⟩ := exists_of_setDefault hd
  refine ⟨fun other hother => ?_, h.pattern⟩
  cases hother
  exact ⟨d, hlexeme⟩

lemma Defined.add {id : LexemeId} (h : draft.Defined) (hd : draft.add d = .ok (id, draft')) :
    draft'.Defined := by
  obtain ⟨lexeme, hlexeme, rfl⟩ := exists_of_add hd
  refine ⟨h.default, fun other hother => ?_⟩
  rcases List.mem_append.1 hother with hold | hnew
  · exact h.pattern other hold
  · rw [List.mem_singleton.1 hnew]
    exact ⟨d, hlexeme⟩

/-- Induction over the calls; a chained call that fails only records its error. -/
lemma Reachable.defined (h : draft.Reachable) : draft.Defined := by
  induction h with
  | new mode => exact ⟨by simp [Draft.new], by simp [Draft.new]⟩
  | setDefault _ hd ih => exact ih.setDefault hd
  | add _ hd ih => exact ih.add hd
  | withDefault d _ ih =>
    unfold Draft.withDefault
    split
    · rename_i hd
      exact ih.setDefault hd
    · exact ⟨ih.default, ih.pattern⟩
  | withLexeme d _ ih =>
    unfold Draft.withLexeme
    split
    · rename_i hd
      exact ih.add hd
    · exact ⟨ih.default, ih.pattern⟩

lemma Defined.checked (h : draft.Defined) {lexeme : Lexeme}
    (hlexeme : lexeme ∈ draft.patternLexemes) : lexeme.Checked draft.mode := by
  obtain ⟨d, hd⟩ := h.pattern lexeme hlexeme
  exact Definition.toLexeme_checked hd

lemma Defined.checkKind (h : draft.Defined) {lexeme : Lexeme}
    (hlexeme : lexeme ∈ draft.defaultLexeme?.toList ++ draft.patternLexemes) :
    Definition.checkKind lexeme.kind = .ok () := by
  rcases List.mem_append.1 hlexeme with hdefault | hpattern
  · obtain ⟨d, hd⟩ := h.default lexeme (Option.mem_toList.1 hdefault)
    exact Definition.checkKind_of_toDefault hd
  · obtain ⟨d, hd⟩ := h.pattern lexeme hpattern
    exact Definition.checkKind_of_toLexeme hd

/-- A finished draft has a default lexeme and no error, and its lexemes are those of the lexicon. -/
lemma exists_of_toLexicon {l : Lexicon} (h : draft.toLexicon = .ok l) :
    draft.fault? = none ∧ ∃ lexeme, draft.defaultLexeme? = some lexeme ∧
      l = { mode := draft.mode, defaultLexeme := lexeme, patternLexemes := draft.patternLexemes } := by
  unfold toLexicon at h
  split at h
  · cases h
  · cases h
  · rename_i lexeme hfault hlexeme
    cases h
    exact ⟨hfault, lexeme, hlexeme, rfl⟩

end Draft

/-! ## Accepted lexicons -/

namespace Lexicon

variable {l : Lexicon}

/-- The lexicon is what some draft was finished to. -/
def Accepted (l : Lexicon) : Prop :=
  ∃ draft : Draft, draft.Reachable ∧ draft.toLexicon = .ok l

lemma Accepted.checked (h : l.Accepted) {lexeme : Lexeme} (hl : lexeme ∈ l.patternLexemes) :
    lexeme.Checked l.mode := by
  obtain ⟨draft, hdraft, hl'⟩ := h
  obtain ⟨_, _, _, rfl⟩ := Draft.exists_of_toLexicon hl'
  exact hdraft.defined.checked hl

/-- No lexeme of an accepted lexicon makes tokens of the kind that ends a stream. -/
lemma Accepted.kind_ne_endOfStreamTag (h : l.Accepted) {i : LexemeId} {lexeme : Lexeme}
    (hlexeme : l.lexeme? i = some lexeme) : lexeme.kind ≠ endOfStreamTag := by
  obtain ⟨draft, hdraft, hl⟩ := h
  obtain ⟨_, default, hdefault, rfl⟩ := Draft.exists_of_toLexicon hl
  apply Definition.kind_ne_of_checkKind
  apply hdraft.defined.checkKind
  rw [hdefault]
  exact List.mem_of_getElem? hlexeme

/-- No pattern of an accepted lexicon asks for the tag that ends a stream. -/
lemma Accepted.symbol_ne_endOfStreamTag (h : l.Accepted) {e : Pattern.Element}
    (he : e ∈ l.elements) : e.symbol ≠ endOfStreamTag := by
  obtain ⟨lexeme, hl, he⟩ := List.mem_flatMap.1 he
  exact Definition.symbol_ne_of_checkElement ((h.checked hl).checkElement he)

end Lexicon

end Lexing
