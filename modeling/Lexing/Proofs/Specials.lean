import Lexing.Proofs.Chunking
import Lexing.Proofs.Drafts
import Lexing.Proofs.Segments

/-!
# The characters that patterns can see

A pattern asks for symbols by their tags, and of a text it can only see the characters that are cut
out of it.  If the special characters are taken from the lexicon, four parts of the library have to
agree: the check that lets a pattern of character mode ask for single characters and plain text
only, the collection of the characters from all patterns, the machine, which keeps them, and the
cut.

They do.  A character is collected if, and only if, some pattern mentions it at any depth
(`Lexicon.mem_specialChars_iff`, `Lexicon.mentions_iff_occurs`).  Hence what the automaton is given
for a text keeps the mentioned characters apart from all that no pattern mentions
(`Lexicon.KeepsApart`), and no occurrence of a mentioned character is lost in a run of plain text
(`Lexicon.specialChars_exact`).
-/

namespace Lexing

/-! ## Elements at any depth -/

namespace Pattern.Item

variable {e : Element}

/-- An element of one item stands where the item stands. -/
lemma Occurs.of_mem {item : Item} {items : List Item} (hmem : item ∈ items)
    (h : Occurs e [item]) : Occurs e items := by
  cases h with
  | here h =>
    obtain rfl := List.mem_singleton.1 h
    exact .here hmem
  | inside hgroup ha h =>
    obtain rfl := List.mem_singleton.1 hgroup
    exact .inside hmem ha h

mutual

/-- The elements that are listed for an item stand in it. -/
theorem occurs_of_mem_elements (item : Item) (h : e ∈ elements item) : Occurs e [item] := by
  match item with
  | .element e' =>
    rw [elements, List.mem_singleton] at h
    exact .here (List.mem_singleton.2 (congrArg Item.element h))
  | .group alternatives =>
    rw [elements] at h
    obtain ⟨alternative, ha, hoccurs⟩ := exists_occurs_of_mem_elementsOfEach alternatives h
    exact .inside (List.mem_singleton_self _) ha hoccurs

theorem occurs_of_mem_elementsOf (items : List Item) (h : e ∈ elementsOf items) :
    Occurs e items := by
  match items with
  | [] => cases h
  | item :: items =>
    rw [elementsOf, List.mem_append] at h
    rcases h with h | h
    · exact (occurs_of_mem_elements item h).of_mem List.mem_cons_self
    · cases occurs_of_mem_elementsOf items h with
      | here hhere => exact .here (List.mem_cons_of_mem _ hhere)
      | inside hgroup ha hoccurs => exact .inside (List.mem_cons_of_mem _ hgroup) ha hoccurs

theorem exists_occurs_of_mem_elementsOfEach (alternatives : List (List Item))
    (h : e ∈ elementsOfEach alternatives) : ∃ alternative ∈ alternatives, Occurs e alternative := by
  match alternatives with
  | [] => cases h
  | alternative :: alternatives =>
    rw [elementsOfEach, List.mem_append] at h
    rcases h with h | h
    · exact ⟨alternative, List.mem_cons_self, occurs_of_mem_elementsOf alternative h⟩
    · obtain ⟨other, ha, hoccurs⟩ := exists_occurs_of_mem_elementsOfEach alternatives h
      exact ⟨other, List.mem_cons_of_mem _ ha, hoccurs⟩

end

end Pattern.Item

/-! ## Mentioned symbols -/

namespace Lexicon

open Pattern (Item)

variable {l : Lexicon} {tag : Tag} {c : Char}

/-- A symbol is mentioned if an element of some pattern asks for it, in a group of any depth and
inverted or not. -/
lemma mentions_iff_occurs : l.mentions tag = true ↔
    ∃ lexeme ∈ l.patternLexemes, ∃ e, Item.Occurs e lexeme.items ∧ e.symbol = tag := by
  simp only [mentions, elements, List.any_eq_true, List.mem_flatMap, beq_iff_eq]
  constructor
  · rintro ⟨e, ⟨lexeme, hlexeme, he⟩, htag⟩
    exact ⟨lexeme, hlexeme, e, Item.occurs_of_mem_elementsOf _ he, htag⟩
  · rintro ⟨lexeme, hlexeme, e, he, htag⟩
    exact ⟨e, ⟨lexeme, hlexeme, he.mem_elementsOf⟩, htag⟩

lemma singleChar?_eq_some_iff : singleChar? tag = some c ↔ tag = c.toString := by
  unfold singleChar?
  constructor
  · intro h
    split at h
    · rename_i d hlist
      obtain rfl := Option.some.inj h
      rw [← String.toList_inj, hlist]
      simp
    · cases h
  · rintro rfl
    simp

/-- The collected characters are the mentioned ones. -/
lemma mem_specialChars_iff : c ∈ l.specialChars ↔ l.mentions c.toString = true := by
  simp only [specialChars, mentions, List.mem_eraseDups, List.mem_filterMap, List.any_eq_true,
    beq_iff_eq, singleChar?_eq_some_iff]

lemma notMem_specialChars_iff : c ∉ l.specialChars ↔ l.mentions c.toString = false := by
  rw [mem_specialChars_iff, Bool.not_eq_true]

lemma nodup_specialChars (l : Lexicon) : l.specialChars.Nodup :=
  nodup_eraseDups _

/-- In character mode nothing but characters and plain text can be mentioned. -/
lemma Accepted.exists_char_of_mentions (h : l.Accepted) (hmode : l.mode = .character)
    (hmentions : l.mentions tag = true) (htext : tag ≠ textTag) : ∃ c : Char, tag = c.toString := by
  obtain ⟨lexeme, hlexeme, e, he, rfl⟩ := mentions_iff_occurs.1 hmentions
  have hcheck := (h.checked hlexeme).checkElement he.mem_elementsOf
  have hallows := Definition.allows_of_checkElement hcheck
  have hlength : e.symbol.length = 1 := (hallows.single hmode).resolve_left htext
  rw [← String.length_toList, List.length_eq_one_iff] at hlength
  obtain ⟨c, hc⟩ := hlength
  refine ⟨c, ?_⟩
  rw [← String.toList_inj, hc]
  simp

end Lexicon

/-! ## What the automaton is given -/

/-- The symbol is a character that some pattern mentions. -/
def Symbol.IsMentioned (s : Symbol) (l : Lexicon) : Prop :=
  ∃ c : Char, l.mentions c.toString = true ∧ s.tag = c.toString ∧ s.value = .text c.toString

/-- The symbol is plain text, and no pattern mentions a character in it. -/
def Symbol.IsPlain (s : Symbol) (l : Lexicon) : Prop :=
  ∃ run : String, run ≠ "" ∧ (∀ c ∈ run.toList, l.mentions c.toString = false) ∧
    s.tag = textTag ∧ s.value = .text run

/-- The symbols stand for the text, and what the patterns mention is kept apart from the rest. -/
structure Lexicon.KeepsApart (l : Lexicon) (text : String) (ss : List Symbol) : Prop where
  textAll_eq : Symbol.textAll ss = text
  mentioned_or_plain : ∀ s ∈ ss, s.IsMentioned l ∨ s.IsPlain l
  /-- Apart from plain text, the patterns mention single characters, and each is a symbol of its own
  wherever it stands in the text. -/
  exists_symbol : ∀ tag, l.mentions tag = true → tag ≠ textTag →
    tag.length = 1 ∧ ∀ before after, text = before ++ tag ++ after →
      ∃ ss₁ s ss₂, ss = ss₁ ++ s :: ss₂ ∧ s.tag = tag ∧ s.IsMentioned l ∧
        Symbol.textAll ss₁ = before ∧ Symbol.textAll ss₂ = after

section Place

variable {l : Lexicon} {file? : Option String} {cursor : Cursor} {text before after : String}
  {c : Char}

/-- A placed symbol is that of its segment. -/
lemma Cursor.exists_of_mem_place {segments : List Segment} {s : Symbol}
    (h : s ∈ (cursor.place file? segments).1) :
    ∃ segment ∈ segments, s.tag = segment.symbol.tag ∧ s.value = segment.symbol.value := by
  induction segments generalizing cursor with
  | nil => cases h
  | cons segment segments ih =>
    rw [Cursor.place, List.mem_cons] at h
    rcases h with rfl | h
    · exact ⟨segment, List.mem_cons_self, rfl, rfl⟩
    · obtain ⟨other, hother, hs⟩ := ih h
      exact ⟨other, List.mem_cons_of_mem _ hother, hs⟩

lemma Cursor.textAll_place_split (file? : Option String) (cursor : Cursor) (specials : List Char)
    (text : String) :
    Symbol.textAll (cursor.place file? (Segment.split specials text)).1 = text := by
  rw [← String.toList_inj, Cursor.toList_textAll_place, Segment.flatMap_toList_split]

/-- **Two kinds of symbols.** -/
lemma Segment.mentioned_or_plain {s : Symbol}
    (h : s ∈ (cursor.place file? (split l.specialChars text)).1) :
    s.IsMentioned l ∨ s.IsPlain l := by
  obtain ⟨segment, hsegment, htag, hvalue⟩ := Cursor.exists_of_mem_place h
  have hpiece := (isSplit_split l.specialChars text).isPiece segment hsegment
  cases segment with
  | special c => exact .inl ⟨c, Lexicon.mem_specialChars_iff.1 hpiece, htag, hvalue⟩
  | text run =>
    obtain ⟨hne, hplain⟩ := hpiece
    have hrun : ∀ c ∈ run.toList, l.mentions c.toString = false := by
      intro c hc
      exact Lexicon.notMem_specialChars_iff.1 (hplain c hc)
    exact .inr ⟨run, hne, hrun, htag, hvalue⟩

/-- The text before a special character and the text after it are cut by themselves. -/
lemma Segment.split_special (h : c ∈ l.specialChars) :
    split l.specialChars (before ++ c.toString ++ after) =
      split l.specialChars before ++ special c :: split l.specialChars after := by
  have hone : split l.specialChars c.toString = [special c] := by
    simp [split, prependChar_of_mem h]
  rw [String.append_assoc, split_append, split_append, hone, List.singleton_append]
  · intro a ha b _
    have hac : a = c := by simpa using ha.symm
    exact .inl (hac ▸ h)
  · intro a _ b hb
    have hbc : b = c := by simpa using hb.symm
    exact .inr (hbc ▸ h)

/-- **Every occurrence.**  A mentioned character is a symbol wherever it stands. -/
lemma Segment.exists_symbol (file? : Option String) (cursor : Cursor)
    (h : l.mentions c.toString = true) :
    ∃ ss₁ s ss₂,
      (cursor.place file? (split l.specialChars (before ++ c.toString ++ after))).1 =
        ss₁ ++ s :: ss₂ ∧
      s.tag = c.toString ∧ s.IsMentioned l ∧
      Symbol.textAll ss₁ = before ∧ Symbol.textAll ss₂ = after := by
  have hmem : c ∈ l.specialChars := Lexicon.mem_specialChars_iff.2 h
  have htext := Cursor.textAll_place_split file? cursor l.specialChars before
  rw [split_special hmem, Cursor.place_append, Cursor.place]
  exact ⟨_, _, _, rfl, rfl, ⟨c, h, rfl, rfl⟩, htext, Cursor.textAll_place_split file? _ _ after⟩

lemma Lexicon.keepsApart_place (hl : l.Accepted) (hmode : l.mode = .character)
    (file? : Option String) (cursor : Cursor) (text : String) :
    l.KeepsApart text (cursor.place file? (Segment.split l.specialChars text)).1 where
  textAll_eq := Cursor.textAll_place_split file? cursor l.specialChars text
  mentioned_or_plain _ hs := Segment.mentioned_or_plain hs
  exists_symbol tag hmentions htag := by
    obtain ⟨c, rfl⟩ := hl.exists_char_of_mentions hmode hmentions htag
    refine ⟨by simp, ?_⟩
    rintro before after rfl
    exact Segment.exists_symbol file? cursor hmentions

end Place

/-! ## Tokenizers -/

namespace Tokenizer

variable {t : Tokenizer} {l : Lexicon}

/-- The tokenizer reads texts, and what it cuts out of them is what the patterns of its lexicon
mention. -/
structure CutsFor (t : Tokenizer) (l : Lexicon) : Prop extends t.Open where
  mode_eq : t.config.mode = .character
  specialChars_eq : t.config.specialChars = .fromLexicon
  exists_machine : ∃ machine, t.machine = .ok machine ∧ machine.automaton.table.lexicon = l

lemma CutsFor.exists_at (h : t.CutsFor l) : ∃ w, t.At l w := by
  obtain ⟨machine, hmachine, hlexicon⟩ := h.exists_machine
  obtain ⟨l', w, hat⟩ := h.reachable.exists_at hmachine
  obtain rfl := Except.ok.inj (hmachine.symm.trans hat.machine_eq)
  obtain rfl : l' = l := hlexicon
  exact ⟨w, hat⟩

end Tokenizer

/-- **Special characters are what patterns can see.**  The special characters of a lexicon are
listed once each, and they are the characters that its patterns mention.  So if a tokenizer takes
its special characters from its lexicon, then whatever text it reads, and wherever it stands, its
automaton is driven with symbols that keep what the patterns mention apart from the rest. -/
theorem Lexicon.specialChars_exact (l : Lexicon) :
    l.specialChars.Nodup ∧ (∀ c, c ∈ l.specialChars ↔ l.mentions c.toString = true) ∧
      (∀ tag, l.mentions tag = true ↔
        ∃ lexeme ∈ l.patternLexemes, ∃ e, Pattern.Item.Occurs e lexeme.items ∧ e.symbol = tag) ∧
      ∀ t : Tokenizer, t.CutsFor l → ∀ text, ∃ machine ss cursor tokens automaton,
        t.machine = .ok machine ∧
        t.symbols machine.specials (.text text) = .ok (ss, cursor) ∧
        machine.automaton.driveAll ss = .ok (tokens, automaton) ∧
        t.consume (.text text) =
          (.ok tokens, { t with phase := .compiled { machine with automaton }, cursor }) ∧
        l.KeepsApart text ss := by
  refine ⟨l.nodup_specialChars, fun c => mem_specialChars_iff, fun tag => mentions_iff_occurs, ?_⟩
  intro t h text
  obtain ⟨w, hat⟩ := h.exists_at
  have hresolve : t.config.specialChars.resolve l = l.specialChars := by
    rw [h.specialChars_eq]
    rfl
  have hsuits : (Chunk.text text).Suits t.config.mode := h.mode_eq
  obtain ⟨ss, cursor, _, tokens, w', hsymbols, hrun, hconsume, _⟩ :=
    hat.exists_consume h.accepting hsuits
  refine ⟨w.machine t.config l, ss, cursor, tokens, _, hat.machine_eq, hsymbols, hrun, hconsume, ?_⟩
  rw [hresolve, Tokenizer.symbols_text h.mode_eq] at hsymbols
  obtain rfl := congrArg Prod.fst (Except.ok.inj hsymbols)
  exact keepsApart_place hat.accepted (hat.mode_eq.trans h.mode_eq) _ _ text

/-! ## Brackets -/

/-- Brackets around plain text, or around anything but a closing bracket. -/
def Pattern.brackets : List Pattern.Item :=
  [.element { symbol := "[" },
    .group [[.element { symbol := "text" }],
      [.element { symbol := "]", repeats := true, inverted := true }]],
    .element { symbol := "]" }]

/-- The lexicon with these brackets. -/
def Lexicon.bracketed : Lexicon :=
  { mode := .character
    defaultLexeme := .prose
    patternLexemes :=
      [{ kind := "link", items := Pattern.brackets, fullMatch := .concat, partialMatch? := none }] }

/-- A pass that looks for them. -/
def Tokenizer.linker : Tokenizer :=
  { config := { specialChars := .fromLexicon }
    phase := .drafting
      { mode := .character
        defaultLexeme? := some .prose
        patternLexemes := Lexicon.bracketed.patternLexemes } }

lemma Tokenizer.cutsFor_linker : linker.CutsFor .bracketed where
  reachable := by
    have hdefault : (new { specialChars := .fromLexicon }).setDefault
        { kind := "text", partialMatch? := some .concat } =
          .ok { config := { specialChars := .fromLexicon }
                phase := .drafting { mode := .character, defaultLexeme? := some .prose } } := rfl
    have hlink : addLexeme
        { config := { specialChars := .fromLexicon }
          phase := .drafting { mode := .character, defaultLexeme? := some .prose } }
        { kind := "link"
          pattern? := some (.sequence Pattern.brackets)
          fullMatch := .concat } = .ok (1, linker) := rfl
    exact .addLexeme (.setDefault (.new _) hdefault) hlink
  accepting := rfl
  mode_eq := rfl
  specialChars_eq := rfl
  exists_machine := ⟨_, rfl, rfl⟩

/-- One of the brackets is also mentioned as what must not come. -/
theorem Lexicon.specialChars_exact_bracketed :
    bracketed.specialChars = ['[', ']'] ∧ Tokenizer.linker.CutsFor bracketed ∧
      ∃ machine ss cursor tokens automaton,
        Tokenizer.linker.machine = .ok machine ∧
        Tokenizer.linker.symbols machine.specials (.text "so [this]]") = .ok (ss, cursor) ∧
        machine.automaton.driveAll ss = .ok (tokens, automaton) ∧
        Tokenizer.linker.consume (.text "so [this]]") =
          (.ok tokens,
            { Tokenizer.linker with phase := .compiled { machine with automaton }, cursor }) ∧
        bracketed.KeepsApart "so [this]]" ss :=
  ⟨by decide +kernel, Tokenizer.cutsFor_linker,
    (specialChars_exact bracketed).2.2.2 .linker Tokenizer.cutsFor_linker "so [this]]"⟩

end Lexing
