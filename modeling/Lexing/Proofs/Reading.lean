import Lexing.Proofs.Grammar
import Mathlib.Data.List.TakeWhile

/-!
# Reading the pattern notation

The reader of written patterns goes from left to right and looks at one letter to decide what comes
next.  Here it is compared with the rules of the grammar, which do not say how letters are divided.

The comparison starts with elements, where the reader cuts blanks, modifiers and a bang off a run of
letters (`element_eq_ok_iff`).  For the rest each direction is an induction of its own.  What has
been read follows the rules, by induction on the number of letters (`exists_derives_of_sequences`).
What follows the rules is read, by induction on the derivation (`Derives.isRead`); there one has to
say what may stand behind a phrase, for the reader takes whatever continues it.

Together they make `ofNotation_eq_ok_iff`.
-/

namespace Lexing.Pattern

open Letter Notation

variable {s t rest : List Letter} {body run : List Letter} {e : Element}

/-! ## Runs of letters -/

/-- A run of letters that pass a test, which no further letter joins. -/
lemma span_append {p : Letter → Bool} (hs : ∀ l ∈ s, p l = true)
    (ht : ∀ l ∈ t.head?, p l = false) :
    (s ++ t).takeWhile p = s ∧ (s ++ t).dropWhile p = t := by
  rw [List.takeWhile_append_of_pos hs, List.dropWhile_append_of_pos hs]
  cases t with
  | nil => simp
  | cons l t => simp [ht l rfl]

namespace Letter

lemma head?_dropWhile {p : Letter → Bool} : ∀ l ∈ (s.dropWhile p).head?, p l = false := by
  intro l hl
  have h := List.head?_dropWhile_not p s
  rw [hl] at h
  simpa using h

lemma getLast?_reverse_dropWhile {p : Letter → Bool} :
    ∀ l ∈ (s.reverse.dropWhile p).reverse.getLast?, p l = false := by
  rw [List.getLast?_reverse]
  exact head?_dropWhile

lemma trimStart_append (hs : Blanks s) (ht : ∀ l ∈ t.head?, l.isBlank = false) :
    trimStart (s ++ t) = t :=
  (span_append hs ht).2

lemma exists_trimStart (s : List Letter) : ∃ before, s = before ++ trimStart s ∧ Blanks before :=
  ⟨_, List.takeWhile_append_dropWhile.symm, fun _ hl => List.mem_takeWhile_imp hl⟩

lemma trimEnd_append (hs : ∀ l ∈ s.getLast?, l.isBlank = false) (ht : Blanks t) :
    trimEnd (s ++ t) = s := by
  have hspan : (t.reverse ++ s.reverse).dropWhile isBlank = s.reverse := by
    refine (span_append ?_ ?_).2
    · exact fun l hl => ht l (List.mem_reverse.1 hl)
    · rwa [List.head?_reverse]
  rw [trimEnd, List.reverse_append, hspan, List.reverse_reverse]

lemma exists_trimEnd (s : List Letter) : ∃ after, s = trimEnd s ++ after ∧ Blanks after := by
  refine ⟨(s.reverse.takeWhile isBlank).reverse, ?_, fun l hl => ?_⟩
  · rw [trimEnd, ← List.reverse_append, List.takeWhile_append_dropWhile, List.reverse_reverse]
  · exact List.mem_takeWhile_imp (List.mem_reverse.1 hl)

lemma trim_append {before after : List Letter} (hbefore : Blanks before) (hafter : Blanks after)
    (h : Tight body) : trim (before ++ body ++ after) = body := by
  cases body with
  | nil =>
    have hblanks : Blanks (before ++ after) := List.forall_mem_append.2 ⟨hbefore, hafter⟩
    have hstart := trimStart_append (t := []) hblanks (by simp)
    rw [List.append_nil] at hstart ⊢
    rw [trim, hstart]
    rfl
  | cons l body =>
    have hstart : trimStart (before ++ (l :: body ++ after)) = l :: body ++ after :=
      trimStart_append hbefore h.1
    rw [trim, List.append_assoc, hstart, trimEnd_append h.2 hafter]

lemma exists_trim (s : List Letter) :
    ∃ before after, s = before ++ trim s ++ after ∧ Blanks before ∧ Blanks after ∧
      Tight (trim s) := by
  obtain ⟨before, hs, hbefore⟩ := exists_trimStart s
  obtain ⟨after, ht, hafter⟩ := exists_trimEnd (trimStart s)
  refine ⟨before, after, ?_, hbefore, hafter, fun l hl => ?_, getLast?_reverse_dropWhile⟩
  · rw [trim, List.append_assoc, ← ht]
    exact hs
  · have hstart : (trimStart s).head? = some l := by
      rw [trim] at hl
      rw [ht, List.head?_append, Option.mem_def.1 hl, Option.some_or]
    exact head?_dropWhile l hstart

lemma isSuffix_iff {l : Letter} : l.isSuffix = true ↔ l.isBlank = true ∨ l.Modifies := by
  cases l with
  | plain c =>
    simp only [isSuffix, isOptionMark, isRepeatMark, Modifies, Bool.or_eq_true, beq_iff_eq,
      Letter.plain.injEq]
    grind
  | escaped c => simp [isSuffix, isOptionMark, isRepeatMark, Modifies]
  | dangling => simp [isSuffix, isOptionMark, isRepeatMark, Modifies]

lemma isOptionMark_iff {l : Letter} : l.isOptionMark = true ↔ l = .plain '?' ∨ l = .plain '*' := by
  cases l <;> simp [isOptionMark]

lemma isRepeatMark_iff {l : Letter} : l.isRepeatMark = true ↔ l = .plain '+' ∨ l = .plain '*' := by
  cases l <;> simp [isRepeatMark]

lemma bare_iff {l : Letter} : l.Bare ↔ l.isOrdinary = true ∧ l ≠ .dangling := by
  cases l <;> simp [Bare, isOrdinary, isDelimiter, and_assoc]

end Letter

/-! ## Elements -/

lemma Modifiers.eq_any {marks : List Letter} (h : Modifiers marks e) :
    e.optional = marks.reverse.any isOptionMark ∧ e.repeats = marks.reverse.any isRepeatMark := by
  constructor
  · rw [Bool.eq_iff_iff, h.optional_iff, List.any_reverse, List.any_eq_true]
    simp only [isOptionMark_iff]
    grind
  · rw [Bool.eq_iff_iff, h.repeats_iff, List.any_reverse, List.any_eq_true]
    simp only [isRepeatMark_iff]
    grind

lemma modifiers_of_isSuffix {marks : List Letter} (h : ∀ l ∈ marks, l.isSuffix = true)
    (symbol : Tag) (inverted : Bool) :
    Modifiers marks
      { symbol
        optional := marks.reverse.any isOptionMark
        repeats := marks.reverse.any isRepeatMark
        inverted } where
  modifies l hl := isSuffix_iff.1 (h l hl)
  optional_iff := by
    rw [List.any_reverse, List.any_eq_true]
    simp only [isOptionMark_iff]
    grind
  repeats_iff := by
    rw [List.any_reverse, List.any_eq_true]
    simp only [isRepeatMark_iff]
    grind

/-- The modifiers at the end of a body. -/
lemma exists_span_body (body : List Letter) :
    ∃ stem marks, body = stem ++ marks ∧ (∀ l ∈ stem.getLast?, l.isSuffix = false) ∧
      ∀ l ∈ marks, l.isSuffix = true := by
  refine ⟨(body.reverse.dropWhile isSuffix).reverse, (body.reverse.takeWhile isSuffix).reverse, ?_,
    getLast?_reverse_dropWhile, fun l hl => List.mem_takeWhile_imp (List.mem_reverse.1 hl)⟩
  rw [← List.reverse_append, List.takeWhile_append_dropWhile, List.reverse_reverse]

/-- The modifiers of an element are all that stand at its end. -/
lemma span_body {stem marks : List Letter} (hend : ∀ l ∈ stem.getLast?, l.isSuffix = false)
    (hmarks : ∀ l ∈ marks, l.isSuffix = true) :
    (stem ++ marks).reverse.takeWhile isSuffix = marks.reverse ∧
      ((stem ++ marks).reverse.dropWhile isSuffix).reverse = stem := by
  have hspan := span_append (p := isSuffix) (s := marks.reverse) (t := stem.reverse)
    (fun l hl => hmarks l (List.mem_reverse.1 hl)) (by rwa [List.head?_reverse])
  rw [List.reverse_append, hspan.1, hspan.2, List.reverse_reverse]
  exact ⟨rfl, rfl⟩

/-- Whether the letters without the modifiers begin with a bang. -/
def isBanged (stem : List Letter) : Bool :=
  stem.head? == some (.plain '!')

/-- What is left of them without the bang. -/
def withoutBang (stem : List Letter) : List Letter :=
  if isBanged stem then trimStart stem.tail else stem

/-- A body of several letters is read from its end. -/
lemma elementOfBody_append {stem marks : List Letter} (hseveral : 1 < (stem ++ marks).length)
    (hend : ∀ l ∈ stem.getLast?, l.isSuffix = false) (hmarks : ∀ l ∈ marks, l.isSuffix = true) :
    elementOfBody (stem ++ marks) =
      if (withoutBang stem).isEmpty then
        .error .emptyElement
      else
        .ok
          { symbol := spell (withoutBang stem)
            optional := marks.reverse.any isOptionMark
            repeats := marks.reverse.any isRepeatMark
            inverted := isBanged stem } := by
  obtain ⟨hsuffix, hstem⟩ := span_body hend hmarks
  rw [elementOfBody]
  · simp only [hsuffix, hstem]
    rfl
  · intro l hl
    rw [hl] at hseveral
    exact absurd hseveral (by simp)

lemma Bang.isBanged_eq {bang symbol : List Letter} {inverted : Bool}
    (h : Bang bang symbol inverted) : isBanged (bang ++ symbol) = inverted := by
  cases h with
  | absent h => simpa [isBanged] using h
  | present => simp [isBanged]

lemma Bang.withoutBang_eq {bang symbol : List Letter} {inverted : Bool}
    (h : Bang bang symbol inverted) : withoutBang (bang ++ symbol) = symbol := by
  rw [withoutBang, h.isBanged_eq]
  cases h with
  | absent => rfl
  | present hblanks h => exact trimStart_append hblanks h

/-- What is before the symbol is taken off as the rules say. -/
lemma exists_bang (stem : List Letter) :
    ∃ bang, stem = bang ++ withoutBang stem ∧ Bang bang (withoutBang stem) (isBanged stem) := by
  cases h : isBanged stem with
  | false =>
    refine ⟨[], by simp [withoutBang, h], ?_⟩
    rw [withoutBang, h]
    exact .absent (by simpa [isBanged] using h)
  | true =>
    cases stem with
    | nil => cases h
    | cons l stem =>
      obtain rfl : l = .plain '!' := by simpa [isBanged] using h
      obtain ⟨blanks, hstem, hblanks⟩ := exists_trimStart stem
      have hsymbol : withoutBang (.plain '!' :: stem) = trimStart stem := by
        rw [withoutBang, h]
        rfl
      rw [hsymbol]
      exact ⟨.plain '!' :: blanks, congrArg (_ :: ·) hstem, .present hblanks head?_dropWhile⟩

/-- The letters of a body are read as the element that they are written for. -/
lemma WritesBody.elementOfBody_eq (h : WritesBody body e) : elementOfBody body = .ok e := by
  cases h with
  | single l => rfl
  | @several bang symbol marks _ hseveral hne hend hsymbol hbang hmarks =>
    have hsuffix : ∀ l ∈ (bang ++ symbol).getLast?, l.isSuffix = false := by
      intro l hl
      rw [List.getLast?_append, Option.mem_def, Option.or_eq_some_iff] at hl
      rcases hl with hl | ⟨hl, _⟩
      · rw [Bool.eq_false_iff, Ne, isSuffix_iff]
        simp [hend l hl]
      · exact absurd (List.getLast?_eq_none_iff.1 hl) hne
    obtain ⟨hoptional, hrepeats⟩ := hmarks.eq_any
    rw [elementOfBody_append hseveral hsuffix fun l hl => isSuffix_iff.2 (hmarks.modifies l hl),
      hbang.withoutBang_eq, hbang.isBanged_eq, ← hsymbol, ← hoptional, ← hrepeats,
      if_neg (by simpa using hne)]

/-- An element that is read is one that the letters are written for. -/
lemma writesBody_of_elementOfBody (h : elementOfBody body = .ok e) : WritesBody body e := by
  rcases body with _ | ⟨l, _ | ⟨m, body⟩⟩
  · cases h
  · cases h
    exact .single l
  · obtain ⟨stem, marks, hbody, hend, hmarks⟩ := exists_span_body (l :: m :: body)
    have hseveral : 1 < (stem ++ marks).length := by
      rw [← hbody]
      simp
    rw [hbody, elementOfBody_append hseveral hend hmarks] at h
    obtain ⟨bang, hstem, hbang⟩ := exists_bang stem
    split at h
    · cases h
    · rename_i hne
      cases h
      rw [List.isEmpty_iff] at hne
      have hsymbol : ∀ l ∈ (withoutBang stem).getLast?, l.isBlank = false ∧ ¬ l.Modifies := by
        intro l hl
        have hlast : l ∈ stem.getLast? := by
          rw [hstem, List.getLast?_append, Option.mem_def.1 hl]
          rfl
        have hl' := hend l hlast
        rw [Bool.eq_false_iff, Ne, isSuffix_iff] at hl'
        simpa using hl'
      have hbody' : l :: m :: body = bang ++ withoutBang stem ++ marks := by rw [← hstem, hbody]
      rw [hbody']
      rw [hstem] at hseveral
      exact .several hseveral hne hsymbol rfl hbang (modifiers_of_isSuffix hmarks _ _)

/-- **Elements.**  A run of letters without delimiters is read as the element that it is written
for. -/
lemma element_eq_ok_iff (hrun : ∀ l ∈ run, l.isOrdinary = true) :
    Notation.element run = .ok e ↔ WritesElement run e := by
  rw [Notation.element]
  constructor
  · intro h
    split at h
    · cases h
    · rename_i hdangling
      obtain ⟨before, after, hrun', hbefore, hafter, htight⟩ := exists_trim run
      refine ⟨fun l hl => bare_iff.2 ⟨hrun l hl, fun hl' => hdangling (hl' ▸ hl)⟩, before, trim run,
        after, hrun', hbefore, hafter, htight, writesBody_of_elementOfBody h⟩
  · rintro ⟨hbare, before, body, after, rfl, hbefore, hafter, htight, hbody⟩
    rw [if_neg fun hmem => (bare_iff.1 (hbare _ hmem)).2 rfl, trim_append hbefore hafter htight,
      hbody.elementOfBody_eq]

/-! ## Readings -/

/-- The reading succeeds with a result and what is left. -/
def Gives {α : Type} {s : List Letter} (r : Reading α s) (a : α) (rest : List Letter) : Prop :=
  ∃ h, r = .ok (a, ⟨rest, h⟩)

lemma gives_ok {α : Type} {a : α} {left : Rest s} (h : left.val = rest) :
    Gives (.ok (a, left) : Reading α s) a rest := by
  subst h
  exact ⟨left.property, rfl⟩

/-- What is left is nothing, or begins with a delimiter that may follow an item. -/
def Closed (rest : List Letter) : Prop :=
  ∀ l ∈ rest.head?, l = .plain ',' ∨ l = .plain '|' ∨ l = .plain ')'

namespace Closed

lemma isBlank_eq_false (h : Closed rest) : ∀ l ∈ rest.head?, l.isBlank = false := by
  intro l hl
  rcases h l hl with rfl | rfl | rfl <;> decide

lemma isOrdinary_eq_false (h : Closed rest) : ∀ l ∈ rest.head?, l.isOrdinary = false := by
  intro l hl
  rcases h l hl with rfl | rfl | rfl <;> decide

lemma ne_cons (h : Closed rest) {c : Char} (hc : c ≠ ',' ∧ c ≠ '|' ∧ c ≠ ')') :
    rest ≠ .plain c :: t := by
  rintro rfl
  simpa [hc] using h (.plain c) rfl

end Closed

/-! ### The end of a group -/

lemma closeGroup_plain (hs : Blanks s) (hrest : Closed rest) :
    Gives (closeGroup (.plain ')' :: (s ++ rest))) false rest := by
  have htrim := trimStart_append hs hrest.isBlank_eq_false
  simp only [closeGroup]
  split
  · rename_i h
    exact absurd (htrim.symm.trans h) (hrest.ne_cons (by decide))
  · rename_i h
    exact absurd (htrim.symm.trans h) (hrest.ne_cons (by decide))
  · rename_i h
    exact absurd (htrim.symm.trans h) (hrest.ne_cons (by decide))
  · exact gives_ok htrim

lemma closeGroup_optional (hs : Blanks s) (ht : Blanks t) (hrest : Closed rest) :
    Gives (closeGroup (.plain ')' :: (s ++ .plain '?' :: (t ++ rest)))) true rest := by
  have htrim : trimStart (s ++ .plain '?' :: (t ++ rest)) = .plain '?' :: (t ++ rest) :=
    trimStart_append hs (by simp; decide)
  simp only [closeGroup]
  split
  · rename_i h
    cases htrim.symm.trans h
    exact gives_ok (trimStart_append ht hrest.isBlank_eq_false)
  · rename_i h
    cases htrim.symm.trans h
  · rename_i h
    cases htrim.symm.trans h
  · rename_i h _ _
    exact absurd htrim (h _)

/-- Where the end of a group has been read it is written as the rules say. -/
lemma exists_of_closeGroup {optional : Bool} (h : Gives (closeGroup s) optional rest) :
    ∃ middle, Blanks middle ∧
      (optional = false ∧ s = .plain ')' :: (middle ++ rest) ∨
        optional = true ∧ ∃ after, Blanks after ∧
          s = .plain ')' :: (middle ++ .plain '?' :: (after ++ rest))) := by
  obtain ⟨hle, h⟩ := h
  unfold closeGroup at h
  split at h
  · rename_i t
    obtain ⟨middle, hmiddle, hblanks⟩ := exists_trimStart t
    split at h
    · rename_i left hleft
      cases h
      obtain ⟨after, hafter, hblanks'⟩ := exists_trimStart left
      exact ⟨middle, hblanks, .inr ⟨rfl, after, hblanks', by rw [← hafter, ← hleft, ← hmiddle]⟩⟩
    · cases h
    · cases h
    · cases h
      exact ⟨middle, hblanks, .inl ⟨rfl, by rw [← hmiddle]⟩⟩
  · cases h

/-! ### Items -/

section Item

variable {inside : (t : List Letter) → t.length < s.length → Reading (List (List Item)) t}
  {i : Item} {sequences : List (List Item)} {optional : Bool} {after : List Letter}

lemma item_group (hopen : trimStart s = .plain '(' :: t)
    (hinside : ∀ ht, Gives (inside t ht) sequences after)
    (hclose : Gives (closeGroup after) optional rest) :
    Gives (Notation.item s inside) (groupOf sequences optional) rest := by
  unfold Notation.item
  split
  · rename_i t' hopen'
    cases hopen.symm.trans hopen'
    obtain ⟨_, hinside⟩ := hinside (by have := length_trimStart_le s; rwa [hopen] at this)
    obtain ⟨_, hclose⟩ := hclose
    simp only [hinside, hclose]
    exact gives_ok rfl
  · rename_i hopen'
    exact absurd hopen (hopen' t)

lemma item_element (hopen : ∀ t, trimStart s ≠ .plain '(' :: t)
    (he : Notation.element (s.takeWhile isOrdinary) = .ok e) :
    Gives (Notation.item s inside) (.element e) (s.dropWhile isOrdinary) := by
  unfold Notation.item
  split
  · rename_i t hopen'
    exact absurd hopen' (hopen t)
  · simp only [he]
    exact gives_ok rfl

lemma cases_of_item (h : Gives (Notation.item s inside) i rest) :
    (∃ t ht sequences after optional, trimStart s = .plain '(' :: t ∧
        Gives (inside t ht) sequences after ∧ Gives (closeGroup after) optional rest ∧
        i = groupOf sequences optional) ∨
      ∃ e, Notation.element (s.takeWhile isOrdinary) = .ok e ∧ i = .element e ∧
        rest = s.dropWhile isOrdinary := by
  obtain ⟨hle, h⟩ := h
  unfold Notation.item at h
  split at h
  · rename_i t hopen
    left
    simp only at h
    split at h
    · cases h
    · rename_i sequences after hafter hinside
      split at h
      · cases h
      · rename_i optional rest hrest hclose
        cases h
        exact ⟨t, _, sequences, after, optional, hopen, ⟨_, hinside⟩, ⟨_, hclose⟩, rfl⟩
  · right
    split at h
    · cases h
    · rename_i e he
      cases h
      exact ⟨e, he, rfl, rfl⟩

end Item

/-! ### Sequences -/

section Sequences

variable {i : Item} {more sequences : List (List Item)}

/-- The reader of items that `sequences` uses. -/
abbrev readItem (s : List Letter) : Reading Item s :=
  Notation.item s fun t _ => Notation.sequences t

lemma sequences_comma (hitem : Gives (readItem s) i (.plain ',' :: t))
    (hmore : Gives (Notation.sequences t) more rest) :
    Gives (Notation.sequences s) (prependItem i more) rest := by
  obtain ⟨_, hitem⟩ := hitem
  obtain ⟨_, hmore⟩ := hmore
  rw [readItem] at hitem
  rw [Notation.sequences]
  simp only [hitem, hmore]
  exact gives_ok rfl

lemma sequences_bar (hitem : Gives (readItem s) i (.plain '|' :: t))
    (hmore : Gives (Notation.sequences t) more rest) :
    Gives (Notation.sequences s) ([i] :: more) rest := by
  obtain ⟨_, hitem⟩ := hitem
  obtain ⟨_, hmore⟩ := hmore
  rw [readItem] at hitem
  rw [Notation.sequences]
  simp only [hitem, hmore]
  exact gives_ok rfl

lemma sequences_end (hitem : Gives (readItem s) i rest)
    (hcomma : ∀ t, rest ≠ .plain ',' :: t) (hbar : ∀ t, rest ≠ .plain '|' :: t) :
    Gives (Notation.sequences s) [[i]] rest := by
  obtain ⟨_, hitem⟩ := hitem
  rw [readItem] at hitem
  rw [Notation.sequences]
  simp only [hitem]
  exact gives_ok rfl

lemma cases_of_sequences (h : Gives (Notation.sequences s) sequences rest) :
    (∃ i t more, Gives (readItem s) i (.plain ',' :: t) ∧ Gives (Notation.sequences t) more rest ∧
        sequences = prependItem i more) ∨
      (∃ i t more, Gives (readItem s) i (.plain '|' :: t) ∧
        Gives (Notation.sequences t) more rest ∧ sequences = [i] :: more) ∨
      ∃ i, Gives (readItem s) i rest ∧ sequences = [[i]] := by
  obtain ⟨hle, h⟩ := h
  rw [Notation.sequences] at h
  split at h
  · cases h
  · rename_i first left hitem
    obtain ⟨left, hleft⟩ := left
    simp only at h
    split at h
    · rename_i t
      split at h
      · cases h
      · rename_i more rest hrest hmore
        cases h
        exact .inl ⟨first, t, more, ⟨_, hitem⟩, ⟨_, hmore⟩, rfl⟩
    · rename_i t
      split at h
      · cases h
      · rename_i more rest hrest hmore
        cases h
        exact .inr (.inl ⟨first, t, more, ⟨_, hitem⟩, ⟨_, hmore⟩, rfl⟩)
    · cases h
      exact .inr (.inr ⟨first, ⟨_, hitem⟩, rfl⟩)

end Sequences

/-! ## What is read is written -/

lemma WritesBody.ne_nil (h : WritesBody body e) : body ≠ [] := by
  cases h with
  | single l => simp
  | several _ hne => simp [hne]

/-- Before the comma of several sequences the first one gets an item more. -/
lemma Derives.prependItem {i : Item} {sequences : List (List Item)} (hitem : Derives s (.item i))
    (hrest : Derives t (.alternatives sequences)) :
    Derives (s ++ .plain ',' :: t) (.alternatives (Notation.prependItem i sequences)) := by
  cases hrest with
  | oneSequence h => exact .oneSequence (.comma hitem h)
  | bar hitems hrest =>
    have h := Derives.bar (.comma hitem hitems) hrest
    rwa [List.append_assoc, List.cons_append] at h

/-- An item that has been read is written before what is left. -/
lemma exists_derives_of_item
    {inside : (t : List Letter) → t.length < s.length → Reading (List (List Item)) t} {i : Item}
    (hinside : ∀ t ht sequences after, Gives (inside t ht) sequences after →
      ∃ read, t = read ++ after ∧ Derives read (.alternatives sequences))
    (h : Gives (Notation.item s inside) i rest) :
    ∃ read, s = read ++ rest ∧ Derives read (.item i) := by
  obtain ⟨t, ht, sequences, after, optional, hopen, hgives, hclose, rfl⟩ | ⟨e, he, rfl, rfl⟩ :=
    cases_of_item h
  · obtain ⟨before, hs, hbefore⟩ := exists_trimStart s
    obtain ⟨read, hread, hderives⟩ := hinside t ht sequences after hgives
    obtain ⟨middle, hmiddle, ⟨rfl, hafter⟩ | ⟨rfl, last, hlast, hafter⟩⟩ :=
      exists_of_closeGroup hclose
    · refine ⟨_, ?_, .group hbefore hderives hmiddle⟩
      rw [hs, hopen, hread, hafter]
      simp
    · refine ⟨_, ?_, .optionalGroup hbefore hderives hmiddle hlast⟩
      rw [hs, hopen, hread, hafter]
      simp
  · have hrun : ∀ l ∈ s.takeWhile isOrdinary, l.isOrdinary = true :=
      fun l hl => List.mem_takeWhile_imp hl
    exact ⟨_, List.takeWhile_append_dropWhile.symm, .element ((element_eq_ok_iff hrun).1 he)⟩

/-- **Soundness.**  Induction on the number of letters: the reader is called on fewer letters inside
a group, and behind a comma or a bar. -/
lemma exists_derives_of_sequences {sequences : List (List Item)}
    (h : Gives (Notation.sequences s) sequences rest) :
    ∃ read, s = read ++ rest ∧ Derives read (.alternatives sequences) := by
  induction hlength : s.length using Nat.strong_induction_on generalizing s sequences rest with
  | _ n ih =>
    have hitem : ∀ {i left}, Gives (readItem s) i left →
        ∃ read, s = read ++ left ∧ Derives read (.item i) :=
      exists_derives_of_item fun t ht sequences after hgives => ih _ (hlength ▸ ht) hgives rfl
    obtain ⟨i, t, more, hfirst, hmore, rfl⟩ | ⟨i, t, more, hfirst, hmore, rfl⟩ | ⟨i, hfirst, rfl⟩ :=
      cases_of_sequences h
    · obtain ⟨read, rfl, hi⟩ := hitem hfirst
      obtain ⟨read', rfl, hmore'⟩ := ih _ (by simp [← hlength]; omega) hmore rfl
      exact ⟨_, by simp, hi.prependItem hmore'⟩
    · obtain ⟨read, rfl, hi⟩ := hitem hfirst
      obtain ⟨read', rfl, hmore'⟩ := ih _ (by simp [← hlength]; omega) hmore rfl
      exact ⟨_, by simp, .bar (.oneItem hi) hmore'⟩
    · obtain ⟨read, hs, hi⟩ := hitem hfirst
      exact ⟨read, hs, .oneSequence (.oneItem hi)⟩

/-! ## What is written is read -/

/-- An element does not look like a group. -/
lemma WritesElement.trimStart_ne (h : WritesElement s e) (rest t : List Letter) :
    trimStart (s ++ rest) ≠ .plain '(' :: t := by
  obtain ⟨hbare, before, body, after, rfl, hbefore, -, htight, hbody⟩ := h
  obtain ⟨l, body, rfl⟩ := List.exists_cons_of_ne_nil hbody.ne_nil
  have htrim : trimStart (before ++ (l :: body ++ after ++ rest)) = l :: body ++ after ++ rest :=
    trimStart_append hbefore htight.1
  rw [List.append_assoc, List.append_assoc, ← List.append_assoc (l :: body), htrim]
  intro hl
  obtain ⟨rfl, -⟩ := List.cons.inj hl
  have := hbare (.plain '(') (by simp)
  simp [Bare] at this

/-- What is left is nothing, or begins with the end of a group. -/
def Ends (rest : List Letter) : Prop :=
  ∀ l ∈ rest.head?, l = .plain ')'

/-- What is behind a sequence: its end, or a bar and more sequences. -/
inductive Continues : List Letter → List (List Item) → List Letter → Prop where
  | done {rest : List Letter} (h : Ends rest) : Continues rest [] rest
  | bar {t rest : List Letter} {more : List (List Item)}
      (h : Gives (Notation.sequences t) more rest) : Continues (.plain '|' :: t) more rest

/-- The letters are read as the phrase, whatever stands behind them that may. -/
def IsRead (s : List Letter) : Phrase → Prop
  | .item i => ∀ rest, Closed rest → Gives (readItem (s ++ rest)) i rest
  | .sequence items => ∀ behind more rest, Continues behind more rest →
      Gives (Notation.sequences (s ++ behind)) (items :: more) rest
  | .alternatives sequences => ∀ rest, Ends rest →
      Gives (Notation.sequences (s ++ rest)) sequences rest

lemma Ends.closed (h : Ends rest) : Closed rest :=
  fun l hl => .inr (.inr (h l hl))

lemma Continues.closed {behind : List Letter} {more : List (List Item)}
    (h : Continues behind more rest) : Closed behind := by
  cases h with
  | done h => exact h.closed
  | bar => simp [Closed]

section IsRead

variable {before inside after : List Letter} {i : Item} {items : List Item}
  {sequences : List (List Item)}

lemma isRead_element (h : WritesElement s e) : IsRead s (.item (.element e)) := by
  intro rest hrest
  have hordinary : ∀ l ∈ s, l.isOrdinary = true := fun l hl => (bare_iff.1 (h.1 l hl)).1
  obtain ⟨hrun, hleft⟩ := span_append hordinary hrest.isOrdinary_eq_false
  have helement : Notation.element ((s ++ rest).takeWhile Letter.isOrdinary) = .ok e := by
    rwa [hrun, element_eq_ok_iff hordinary]
  have hitem : Gives (readItem (s ++ rest)) _ _ := item_element (h.trimStart_ne rest) helement
  rwa [hleft] at hitem

lemma isRead_group (hbefore : Blanks before) (hinside : IsRead inside (.alternatives sequences))
    (hafter : Blanks after) :
    IsRead (before ++ .plain '(' :: inside ++ .plain ')' :: after) (.item (.group sequences)) := by
  intro rest hrest
  have hopen : trimStart (before ++ .plain '(' :: inside ++ .plain ')' :: after ++ rest) =
      .plain '(' :: (inside ++ .plain ')' :: (after ++ rest)) := by
    rw [List.append_assoc, List.append_assoc, trimStart_append hbefore (by simp; decide)]
    simp
  exact item_group hopen (fun _ => hinside _ (by simp [Ends])) (closeGroup_plain hafter hrest)

lemma isRead_optionalGroup {middle : List Letter} (hbefore : Blanks before)
    (hinside : IsRead inside (.alternatives sequences)) (hmiddle : Blanks middle)
    (hafter : Blanks after) :
    IsRead (before ++ .plain '(' :: inside ++ .plain ')' :: (middle ++ .plain '?' :: after))
      (.item (.group (sequences ++ [[]]))) := by
  intro rest hrest
  have hopen :
      trimStart (before ++ .plain '(' :: inside ++ .plain ')' :: (middle ++ .plain '?' :: after) ++
          rest) =
        .plain '(' :: (inside ++ .plain ')' :: (middle ++ .plain '?' :: (after ++ rest))) := by
    rw [List.append_assoc, List.append_assoc, trimStart_append hbefore (by simp; decide)]
    simp
  exact item_group hopen (fun _ => hinside _ (by simp [Ends]))
    (closeGroup_optional hmiddle hafter hrest)

lemma isRead_oneItem (h : IsRead s (.item i)) : IsRead s (.sequence [i]) := by
  intro behind more rest hbehind
  have hitem := h behind hbehind.closed
  cases hbehind with
  | done hends =>
    refine sequences_end hitem ?_ ?_ <;> rintro t rfl <;> simpa using hends _ rfl
  | bar hmore => exact sequences_bar hitem hmore

lemma isRead_comma (hitem : IsRead s (.item i)) (hrest : IsRead t (.sequence items)) :
    IsRead (s ++ .plain ',' :: t) (.sequence (i :: items)) := by
  intro behind more rest hbehind
  rw [List.append_assoc, List.cons_append]
  exact sequences_comma (hitem _ (by simp [Closed])) (hrest behind more rest hbehind)

lemma isRead_oneSequence (h : IsRead s (.sequence items)) : IsRead s (.alternatives [items]) :=
  fun rest hrest => h rest [] rest (.done hrest)

lemma isRead_bar (hitems : IsRead s (.sequence items))
    (hrest : IsRead t (.alternatives sequences)) :
    IsRead (s ++ .plain '|' :: t) (.alternatives (items :: sequences)) := by
  intro rest hends
  rw [List.append_assoc, List.cons_append]
  exact hitems _ sequences rest (.bar (hrest rest hends))

end IsRead

/-- **Completeness.**  Whatever stands behind, the letters of a derivation are read as its
phrase. -/
lemma Derives.isRead {phrase : Phrase} (h : Derives s phrase) : IsRead s phrase := by
  induction h with
  | element h => exact isRead_element h
  | group hbefore _ hafter ih => exact isRead_group hbefore ih hafter
  | optionalGroup hbefore _ hmiddle hafter ih => exact isRead_optionalGroup hbefore ih hmiddle hafter
  | oneItem _ ih => exact isRead_oneItem ih
  | comma _ _ ih₁ ih₂ => exact isRead_comma ih₁ ih₂
  | oneSequence _ ih => exact isRead_oneSequence ih
  | bar _ _ ih₁ ih₂ => exact isRead_bar ih₁ ih₂

/-! ## Whole patterns -/

/-- All letters are read as the alternatives that derive them, and as no others. -/
lemma gives_sequences_iff {sequences : List (List Item)} :
    Gives (Notation.sequences s) sequences [] ↔ Derives s (.alternatives sequences) := by
  constructor
  · intro h
    obtain ⟨read, hs, hread⟩ := exists_derives_of_sequences h
    rw [List.append_nil] at hs
    exact hs ▸ hread
  · intro h
    have hread := h.isRead [] (by simp [Ends])
    rwa [List.append_nil] at hread

lemma parse_eq_ok_iff {cs : List Char} {p : Pattern} :
    Notation.parse cs = .ok p ↔
      ∃ sequences, Gives (Notation.sequences (ofChars cs)) sequences [] ∧
        p = ofAlternatives sequences := by
  constructor
  · intro h
    unfold Notation.parse at h
    split at h
    · cases h
    · cases h
    · rename_i items _ hread
      exact ⟨[items], ⟨_, hread⟩, (Except.ok.inj h).symm⟩
    · rename_i sequences _ hseveral hread
      refine ⟨sequences, ⟨_, hread⟩, ?_⟩
      rw [← Except.ok.inj h, ofAlternatives]
      exact fun items hitems => hseveral items hitems
  · rintro ⟨sequences, ⟨_, hread⟩, rfl⟩
    unfold Notation.parse
    rw [hread]
    rcases sequences with _ | ⟨items, _ | ⟨items', sequences⟩⟩ <;> rfl

/-- A pattern is read from a text if, and only if, the text is written for it. -/
lemma parse_iff_writes {written : String} {p : Pattern} :
    Notation.parse written.toList = .ok p ↔ Writes written p := by
  rw [parse_eq_ok_iff, Writes]
  constructor
  · rintro ⟨sequences, hgives, hp⟩
    have hderives := gives_sequences_iff.1 hgives
    exact ⟨_, sequences, spelled_iff.2 ⟨rfl, hderives.dangling_not_mem⟩, hderives, hp⟩
  · rintro ⟨s, sequences, hs, hderives, hp⟩
    obtain ⟨rfl, -⟩ := spelled_iff.1 hs
    exact ⟨sequences, gives_sequences_iff.2 hderives, hp⟩

lemma ofNotation_eq_ok {written : String} {p : Pattern} :
    ofNotation written = .ok p ↔ Notation.parse written.toList = .ok p := by
  unfold ofNotation
  split <;> simp_all

/-- A text is written for at most one pattern. -/
theorem Writes.unique {written : String} {p q : Pattern} (hp : Writes written p)
    (hq : Writes written q) : p = q :=
  Except.ok.inj ((parse_iff_writes.2 hp).symm.trans (parse_iff_writes.2 hq))

/-- **The reader reads the notation.**  It finds a pattern in a text if, and only if, the rules say
that the text is written for it. -/
theorem ofNotation_eq_ok_iff (written : String) (p : Pattern) :
    ofNotation written = .ok p ↔ Writes written p :=
  ofNotation_eq_ok.trans parse_iff_writes

end Lexing.Pattern
