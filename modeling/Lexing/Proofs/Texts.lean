import Lexing.Proofs.Conservation
import Lexing.Proofs.Descent
import Lexing.Tokenizer

/-!
# The texts of tokens

The text of a token is what remains of its value when all structure is forgotten.  Where every
attribute in force gives a match all of its texts (`Lexicon.KeepsText`), a token has the text of the
symbols it was made for (`StateTable.Makes.text_eq`), be it a full match or a partial one.  Only the
full match of the default lexeme may take its text from a single symbol, as it has no other.

The lexeme that settles a match is found at the node that the match leads to
(`StateTable.settle?_cases`); that it is one of those whose attributes are known rests on how the
trie was built (`Trie.mem_patternLexemes_of_fullMatch?`).  With conservation of the symbols, a run
then keeps the text: what the tokens have not said yet is pending
(`Walker.Traced.exists_driveAll_textAll`), and the flush says it.
-/

namespace Lexing

open StateTable

variable {t : Trie} {l : Lexicon} {id : NodeId} {block ss us : List Symbol} {token : Token}

/-! ## Texts -/

namespace Symbol

/-- The texts of symbols, one after the other. -/
def textAll (ss : List Symbol) : String :=
  Value.toTextAll (ss.map (·.value))

@[simp] lemma textAll_nil : textAll [] = "" :=
  rfl

@[simp] lemma textAll_append (ss us : List Symbol) :
    textAll (ss ++ us) = textAll ss ++ textAll us := by
  simp [textAll, Value.toTextAll_append]

lemma textAll_singleton (s : Symbol) : textAll [s] = s.value.toText := by
  simp [textAll, Value.toTextAll]

end Symbol

/-- The texts of tokens, one after the other. -/
def Token.textAll (tokens : List Token) : String :=
  String.join (tokens.map Token.text)

@[simp] lemma Token.textAll_nil : Token.textAll [] = "" :=
  rfl

@[simp] lemma Token.textAll_append (tokens more : List Token) :
    Token.textAll (tokens ++ more) = Token.textAll tokens ++ Token.textAll more := by
  simp [Token.textAll, String.join_append]

@[simp] lemma Token.textAll_cons (token : Token) (tokens : List Token) :
    Token.textAll (token :: tokens) = token.text ++ Token.textAll tokens := by
  simp [Token.textAll]

/-! ## The text of a chunk -/

namespace Segment

lemma flatMap_toList_prependChar (specials : List Char) (c : Char) (segments : List Segment) :
    (prependChar specials c segments).flatMap (·.content.toList) =
      c :: segments.flatMap (·.content.toList) := by
  unfold prependChar
  split
  · simp [content]
  · split <;> simp [content]

/-- Cutting a text into segments loses nothing. -/
theorem flatMap_toList_split (specials : List Char) (text : String) :
    (split specials text).flatMap (·.content.toList) = text.toList := by
  unfold split
  induction text.toList with
  | nil => rfl
  | cons c cs ih => rw [List.foldr_cons, flatMap_toList_prependChar, ih]

@[simp] lemma toText_symbol (segment : Segment) :
    segment.symbol.value.toText = segment.content := by
  cases segment <;> simp [symbol, content, Symbol.text, Symbol.special, Value.toText]

end Segment

/-- What the chunk contributes to the text of a stream. -/
def Chunk.content : Chunk → String
  | .text content => content
  | .token t => t.text

/-- What several chunks contribute, one after the other. -/
def Chunk.contentAll (chunks : List Chunk) : String :=
  String.join (chunks.map Chunk.content)

@[simp] lemma Chunk.contentAll_nil : Chunk.contentAll [] = "" :=
  rfl

@[simp] lemma Chunk.contentAll_cons (chunk : Chunk) (chunks : List Chunk) :
    Chunk.contentAll (chunk :: chunks) = chunk.content ++ Chunk.contentAll chunks := by
  simp [Chunk.contentAll]

lemma Chunk.contentAll_map_token (tokens : List Token) :
    Chunk.contentAll (tokens.map .token) = Token.textAll tokens := by
  rw [Chunk.contentAll, Token.textAll, List.map_map]
  rfl

lemma Cursor.toList_textAll_place (file? : Option String) (c : Cursor) (segments : List Segment) :
    (Symbol.textAll (c.place file? segments).1).toList =
      segments.flatMap (·.content.toList) := by
  induction segments generalizing c with
  | nil => rfl
  | cons segment segments ih =>
    have h := ih (c.advance segment.content)
    rw [List.flatMap_cons, ← h]
    simp [place, Symbol.textAll, Value.toTextAll]

/-- The symbols of a chunk have its text. -/
theorem Tokenizer.textAll_symbols {t : Tokenizer} {specials : List Char} {chunk : Chunk}
    {cursor : Cursor} (h : t.symbols specials chunk = .ok (ss, cursor)) :
    Symbol.textAll ss = chunk.content := by
  unfold symbols at h
  split at h
  · rename_i content _
    have hss : (t.cursor.place t.config.file? (Segment.split specials content)).1 = ss :=
      congrArg Prod.fst (Except.ok.inj h)
    rw [← String.toList_inj, ← hss, Cursor.toList_textAll_place, Segment.flatMap_toList_split]
    rfl
  · split at h
    · cases h
    · cases h
      simp [Symbol.textAll_singleton, Symbol.ofToken, Chunk.content, Token.text]
  · cases h

/-! ## Lexicons that keep texts -/

/-- The attribute gives a match all of its texts, joined or in a list. -/
def Attribute.IsWhole (a : Attribute) : Prop :=
  a = .concat ∨ a = .collect

lemma Attribute.IsWhole.toText_evaluate {a : Attribute} (h : a.IsWhole) (history : History)
    (input : Symbol) : (a.evaluate history input).toText = Symbol.textAll history.symbols := by
  rcases h with rfl | rfl
  · rfl
  · simp [evaluate, Value.toText, Symbol.textAll]

/-- Every attribute in force gives a match all of its texts. Those of the default lexeme are told
apart: its full matches have one symbol only. -/
structure Lexicon.KeepsText (l : Lexicon) : Prop where
  fullMatch : ∀ lexeme ∈ l.patternLexemes, lexeme.fullMatch.IsWhole
  partialMatch : ∀ lexeme ∈ l.patternLexemes, ∀ rule ∈ lexeme.partialMatch?, rule.IsWhole
  default_fullMatch : l.defaultLexeme.fullMatch = .input ∨ l.defaultLexeme.fullMatch.IsWhole
  default_partialMatch : l.defaultLexeme.partialMatch.IsWhole

/-! ## What settles a block -/

namespace Trie

/-- No lexeme but those with patterns ends at a node. -/
lemma mem_patternLexemes_of_fullMatch? {node : Node} {i : LexemeId} {lexeme : Lexeme}
    (hnode : (ofLexicon l).node? id = some node) (hfull : node.fullMatch? = some i)
    (hlexeme : l.lexeme? i = some lexeme) : lexeme ∈ l.patternLexemes := by
  obtain ⟨path, hcompletes⟩ := exists_completes_of_fullMatch? hnode hfull
  obtain ⟨hi, _⟩ := Lexicon.exists_lexeme?_of_completes hcompletes
  obtain ⟨k, rfl⟩ := Nat.exists_eq_succ_of_ne_zero hi
  exact List.mem_of_getElem? hlexeme

end Trie

/-- The attribute by which a match that stalls at a node gets its value keeps the whole text: it
belongs to a lexeme that defines one, or else to the default lexeme. -/
lemma Lexicon.KeepsText.isWhole_partialOwner (hl : l.KeepsText) {node : Node} {lexeme : Lexeme}
    (hlexeme : l.lexeme? (partialOwner l node) = some lexeme) : lexeme.partialMatch.IsWhole := by
  unfold partialOwner at hlexeme
  by_cases howner : (l.lexeme? node.owner).any (·.partialMatch?.isSome) = true
  · rw [if_pos howner] at hlexeme
    rw [hlexeme] at howner
    obtain ⟨rule, hrule⟩ := Option.isSome_iff_exists.1 howner
    cases hid : node.owner with
    | zero =>
      rw [hid] at hlexeme
      cases hlexeme
      exact hl.default_partialMatch
    | succ k =>
      rw [hid] at hlexeme
      have hwhole := hl.partialMatch lexeme (List.mem_of_getElem? hlexeme) rule hrule
      rwa [Lexeme.partialMatch, hrule]
  · rw [if_neg howner] at hlexeme
    cases hlexeme
    exact hl.default_partialMatch

/-- The attribute by which any match at a node gets its value keeps the whole text. -/
lemma Lexicon.KeepsText.isWhole_acceptAt (hl : l.KeepsText) {node : Node} {lexeme : Lexeme}
    (hnode : (Trie.ofLexicon l).node? id = some node)
    (hlexeme : l.lexeme? (acceptAt l node).lexeme = some lexeme) :
    (attributeOf (acceptAt l node) lexeme).IsWhole := by
  unfold acceptAt at hlexeme ⊢
  cases hfull : node.fullMatch? with
  | some i =>
    rw [hfull] at hlexeme
    exact hl.fullMatch lexeme (Trie.mem_patternLexemes_of_fullMatch? hnode hfull hlexeme)
  | none =>
    rw [hfull] at hlexeme
    exact hl.isWhole_partialOwner hlexeme

namespace StateTable

/-- A block is settled at a node, or it is one symbol that no pattern starts with. -/
lemma settle?_cases (ht : t.Fits l) {accept : Accept} {history : History} (hne : block ≠ [])
    (h : (ofTrie t l).settle? block = some (accept, history)) :
    (∃ id node, t.node? id = some node ∧ accept = acceptAt l node) ∨
      (∃ s, block = [s]) ∧ accept = .fullMatch defaultId := by
  unfold settle? at h
  split at h
  · -- the whole block leads to a node, at which the end of the stream finds the match
    rename_i history' i hretrace
    obtain ⟨id, hlive, hdescend, rfl⟩ := exists_descend?_of_retrace? ht hretrace
    obtain ⟨node, hnode⟩ := exists_node?_of_mem_liveNodes hlive
    have htr : (stateFor t l id node).transition? .endOfStream = some (catchAllAt t l id node) :=
      transition?_of_isEndOfStream Symbol.isEndOfStream_endOfStream
    simp only [state?_stateOf hlive hnode, htr, Option.bind_eq_bind, Option.bind_some] at h
    obtain ⟨accept', haccept, h⟩ := Option.bind_eq_some_iff.1 h
    cases h
    rcases accept_catchAllAt_cases haccept with ⟨rfl, _⟩ | ⟨_, hsame⟩
    · exact absurd (Trie.eq_nil_of_descend?_eq_rootId ht hdescend) hne
    · exact .inl ⟨id, node, hnode, hsame⟩
  · -- the last symbol of the block ends the match
    obtain ⟨before, s, rfl⟩ := (List.eq_nil_or_concat' block).resolve_left hne
    simp only [List.getLast?_concat, List.dropLast_concat, Option.bind_eq_bind,
      Option.bind_some] at h
    obtain ⟨⟨history', i⟩, hretrace, h⟩ := Option.bind_eq_some_iff.1 h
    obtain ⟨id, hlive, hdescend, rfl⟩ := exists_descend?_of_retrace? ht hretrace
    obtain ⟨node, hnode⟩ := exists_node?_of_mem_liveNodes hlive
    rw [state?_stateOf hlive hnode, Option.bind_some] at h
    obtain ⟨tr, htr, h⟩ := Option.bind_eq_some_iff.1 h
    obtain ⟨accept', haccept, h⟩ := Option.bind_eq_some_iff.1 h
    split at h
    · cases h
    · rename_i hreplay
      cases h
      rcases transition?_cases hlive hnode htr with
        rfl | ⟨next, child, _, hchild, _, _, haccept'⟩
      · rcases accept_catchAllAt_cases haccept with ⟨rfl, hdefault⟩ | ⟨hroot, _⟩
        · rw [Trie.eq_nil_of_descend?_eq_rootId ht hdescend]
          exact .inr ⟨⟨s, rfl⟩, hdefault⟩
        · exact absurd (by simpa using hroot) hreplay
      · rw [haccept] at haccept'
        split at haccept'
        · cases haccept'
        · exact .inl ⟨next, child, hchild, Option.some.inj haccept'⟩

variable (hl : l.KeepsText)
include hl

/-- The token of a block has the text of the block. -/
theorem Makes.text_eq (h : l.compile.Makes block token) :
    token.text = Symbol.textAll block := by
  have hne := h.ne_nil
  obtain ⟨accept, history, lexeme, first, last, hsettle, rfl, hlexeme, _, hlast, rfl⟩ := h
  have hlexeme : l.lexeme? accept.lexeme = some lexeme := hlexeme
  show ((attributeOf accept lexeme).evaluate history last).toText = _
  rcases settle?_cases (Trie.fits_ofLexicon l) hne hsettle with
    ⟨id, node, hnode, rfl⟩ | ⟨⟨s, hs⟩, rfl⟩
  · exact (hl.isWhole_acceptAt hnode hlexeme).toText_evaluate history last
  · cases hlexeme
    rcases hl.default_fullMatch with hinput | hwhole
    · rw [hs] at hlast
      cases hlast
      rw [hs, Symbol.textAll_singleton]
      simp [attributeOf, hinput, Attribute.evaluate]
    · exact hwhole.toText_evaluate history last

lemma textAll_of_forall₂_makes {blocks : List (List Symbol)} {tokens : List Token}
    (h : List.Forall₂ l.compile.Makes blocks tokens) :
    Token.textAll tokens = Symbol.textAll blocks.flatten := by
  induction h with
  | nil => rfl
  | cons hmakes _ ih => simp [hmakes.text_eq hl, ih]

end StateTable

/-- The kinds of tokens are those of lexemes, of which none is the reserved one. -/
lemma StateTable.kind_ne_endOfStreamTag_of_forall₂_makes (hl : l.Accepted)
    {blocks : List (List Symbol)} {tokens : List Token}
    (h : List.Forall₂ l.compile.Makes blocks tokens) :
    ∀ token ∈ tokens, token.kind ≠ endOfStreamTag := by
  induction h with
  | nil => simp
  | cons hmakes _ ih =>
    obtain ⟨accept, history, lexeme, _, _, _, _, hlexeme, _, _, rfl⟩ := hmakes
    rw [List.forall_mem_cons]
    exact ⟨hl.kind_ne_endOfStreamTag hlexeme, ih⟩

/-! ## Runs -/

namespace Walker

variable {w : Walker} (hl : l.Accepted) (hkeeps : l.KeepsText)
  (hw : w.Traced (.ofLexicon l) l)
include hl hkeeps hw

/-- **A run.**  The texts of the tokens and of the match in progress after the run are those of the
match in progress before it and of the symbols. -/
lemma Traced.exists_driveAll_textAll (hss : ∀ s ∈ ss, s.isEndOfStream = false) :
    ∃ (tokens : List Token) (w' : Walker),
      (w.automaton (.ofLexicon l) l).driveAll ss = .ok (tokens, w'.automaton (.ofLexicon l) l) ∧
      w'.Traced (.ofLexicon l) l ∧
      (∀ token ∈ tokens, token.kind ≠ endOfStreamTag) ∧
      Token.textAll tokens ++ Symbol.textAll w'.history.symbols =
        Symbol.textAll w.history.symbols ++ Symbol.textAll ss := by
  obtain ⟨blocks, tokens, w', hrun, hw', hmakes, hblocks, _⟩ :=
    hw.exists_driveAll_conserves (Trie.fits_ofLexicon l) hss
  refine ⟨tokens, w', hrun, hw', kind_ne_endOfStreamTag_of_forall₂_makes hl hmakes, ?_⟩
  rw [textAll_of_forall₂_makes hkeeps hmakes, ← Symbol.textAll_append, hblocks,
    Symbol.textAll_append]

/-- **The flush.**  The texts of the tokens are those of the match in progress. -/
lemma Traced.exists_flush_textAll :
    ∃ tokens, (w.automaton (.ofLexicon l) l).drive .endOfStream =
        .ok (tokens, start.automaton (.ofLexicon l) l) ∧
      (∀ token ∈ tokens, token.kind ≠ endOfStreamTag) ∧
      Token.textAll tokens = Symbol.textAll w.history.symbols := by
  obtain ⟨blocks, tokens, hflush, hmakes, hblocks⟩ := hw.exists_flush (Trie.fits_ofLexicon l)
  refine ⟨tokens, hflush, kind_ne_endOfStreamTag_of_forall₂_makes hl hmakes, ?_⟩
  rw [textAll_of_forall₂_makes hkeeps hmakes, hblocks]

end Walker

end Lexing
