import Lexing.Proofs.Chains

/-!
# What tokens stand for

Every token that comes out of a pipeline stands for a stretch of the symbols that went in: its
*span*.  In a single pass the span of a token is the block of symbols that it was made of.  Behind
another pass a symbol is a token itself, and the span of a token joins those of the symbols that it
was made of.  Symbols are labelled with what they stand for (`Spanned`), and a pass hands the labels
on (`Pipeline.Covers`), so the spans of all tokens that come out are, one after the other, those of
the symbols that went in (`Pipeline.Covers.flatMap_span`).

The main result `Pipeline.exists_covers` says that every run that succeeds covers what it was given.
`Pipeline.exists_covers_own` is the case in which each symbol stands for itself.
-/

namespace Lexing

/-- An item and the symbols of a stream that it stands for. -/
structure Spanned (α : Type) where
  item : α
  span : List Symbol

namespace Spanned

/-- A symbol of the stream stands for itself. -/
def own (s : Symbol) : Spanned Symbol :=
  { item := s, span := [s] }

/-- A symbol that was read before the stream stands for nothing in it. -/
def older (s : Symbol) : Spanned Symbol :=
  { item := s, span := [] }

/-- The symbol that the next pass makes of a token stands for what the token does. -/
def wrapped (out : Spanned Token) : Spanned Symbol :=
  { item := .ofToken out.item, span := out.span }

@[simp] lemma map_item_own (ss : List Symbol) : (ss.map own).map (·.item) = ss := by
  simp [own, Function.comp_def]

@[simp] lemma flatMap_span_own (ss : List Symbol) : (ss.map own).flatMap (·.span) = ss := by
  simp [own, List.flatMap_map]

@[simp] lemma map_item_older (ss : List Symbol) : (ss.map older).map (·.item) = ss := by
  simp [older, Function.comp_def]

@[simp] lemma flatMap_span_older (ss : List Symbol) : (ss.map older).flatMap (·.span) = [] := by
  simp [older, List.flatMap_map]

@[simp] lemma map_item_wrapped (outs : List (Spanned Token)) :
    (outs.map wrapped).map (·.item) = (outs.map (·.item)).map .ofToken := by
  simp [wrapped]

@[simp] lemma flatMap_span_wrapped (outs : List (Spanned Token)) :
    (outs.map wrapped).flatMap (·.span) = outs.flatMap (·.span) := by
  simp [wrapped, List.flatMap_map]

end Spanned

/-! ## Coverage -/

/-- The token is the one of the block, and it stands for what the symbols of the block stand for. -/
def StateTable.MakesSpanned (t : StateTable) (block : List (Spanned Symbol))
    (out : Spanned Token) : Prop :=
  t.Makes (block.map (·.item)) out.item ∧ out.span = block.flatMap (·.span)

/-- The match in progress and the symbols are cut into blocks, and the tokens are those of the
blocks. -/
def Automaton.Covers (a : Automaton) (ins : List (Spanned Symbol)) (outs : List (Spanned Token)) :
    Prop :=
  ∃ blocks, List.Forall₂ a.table.MakesSpanned blocks outs ∧
    blocks.flatten = a.history.symbols.map .older ++ ins

/-- The tokens are those that the tokenizer makes of the symbols and what was pending before them.
Without a machine it makes nothing of nothing. -/
def Tokenizer.Covers (t : Tokenizer) (ins : List (Spanned Symbol)) (outs : List (Spanned Token)) :
    Prop :=
  match t.machine with
  | .ok machine => machine.automaton.Covers ins outs
  | .error _ => ins = [] ∧ outs = []

/-- The tokens are those that the pipeline makes of the symbols; in a chain, by way of those that
the first pass makes of them. -/
def Pipeline.Covers : {s : Shape} → Pipeline s → List (Spanned Symbol) → List (Spanned Token) → Prop
  | _, single t, ins, outs => t.Covers ins outs
  | _, chain first second, ins, outs =>
    ∃ mid, first.Covers ins mid ∧ second.Covers (mid.map .wrapped) outs

variable {ins : List (Spanned Symbol)} {outs : List (Spanned Token)}

lemma Automaton.Covers.flatMap_span {a : Automaton} (h : a.Covers ins outs) :
    outs.flatMap (·.span) = ins.flatMap (·.span) := by
  obtain ⟨blocks, hmakes, hblocks⟩ := h
  have hspans : outs.flatMap (·.span) = blocks.flatten.flatMap (·.span) := by
    clear hblocks
    induction hmakes with
    | nil => rfl
    | cons hmake _ ih =>
      rw [List.flatMap_cons, List.flatten_cons, List.flatMap_append, ih, hmake.2]
  rw [hspans, hblocks, List.flatMap_append, Spanned.flatMap_span_older, List.nil_append]

/-- Nothing of the stream is lost, doubled or moved: what the tokens stand for is what the symbols
stand for, in the same order. -/
theorem Pipeline.Covers.flatMap_span {s : Shape} {p : Pipeline s} (h : p.Covers ins outs) :
    outs.flatMap (·.span) = ins.flatMap (·.span) := by
  induction p generalizing ins outs with
  | single t =>
    have ht : t.Covers ins outs := h
    unfold Tokenizer.Covers at ht
    split at ht
    · exact ht.flatMap_span
    · rw [ht.1, ht.2]
      rfl
  | chain first second ih₁ ih₂ =>
    obtain ⟨mid, hfirst, hsecond⟩ := h
    rw [ih₂ hsecond, Spanned.flatMap_span_wrapped, ih₁ hfirst]

/-- Labels on symbols carry over to the tokens of their blocks. -/
lemma StateTable.exists_makesSpanned {t : StateTable} {blocks : List (List Symbol)}
    {tokens : List Token} (h : List.Forall₂ t.Makes blocks tokens)
    (hins : ins.map (·.item) = blocks.flatten) :
    ∃ (groups : List (List (Spanned Symbol))) (outs : List (Spanned Token)),
      outs.map (·.item) = tokens ∧ List.Forall₂ t.MakesSpanned groups outs ∧
      groups.flatten = ins := by
  induction h generalizing ins with
  | nil => exact ⟨[], [], rfl, .nil, (List.map_eq_nil_iff.1 hins).symm⟩
  | @cons block token blocks tokens hmakes _ ih =>
    obtain ⟨group, rest, rfl, rfl, hrest⟩ := List.map_eq_append_iff.1 hins
    obtain ⟨groups, outs, rfl, hall, rfl⟩ := ih hrest
    exact ⟨group :: groups, ⟨token, group.flatMap (·.span)⟩ :: outs, rfl, .cons ⟨hmakes, rfl⟩ hall,
      rfl⟩

/-! ## Single passes -/

namespace Tokenizer

variable {t t' : Tokenizer} {chunk : Chunk} {chunks : List Chunk} {l : Lexicon} {w : Walker}
  {specials : List Char} {tokens : List Token}

/-- The symbols of several chunks.  A chunk that is refused has none. -/
def symbolsAll (t : Tokenizer) (specials : List Char) : List Chunk → List Symbol
  | [] => []
  | chunk :: chunks =>
    match t.symbols specials chunk with
    | .error _ => symbolsAll t specials chunks
    | .ok (ss, cursor) => ss ++ symbolsAll { t with cursor } specials chunks

/-- The symbols depend on the configuration and the cursor alone. -/
lemma symbolsAll_congr (hconfig : t'.config = t.config) (hcursor : t'.cursor = t.cursor) :
    t'.symbolsAll specials chunks = t.symbolsAll specials chunks := by
  induction chunks generalizing t t' with
  | nil => rfl
  | cons chunk chunks ih =>
    have hsymbols : t'.symbols specials chunk = t.symbols specials chunk := by
      simp only [symbols, hconfig, hcursor]
    rw [symbolsAll, symbolsAll, hsymbols]
    rcases t.symbols specials chunk with _ | ⟨ss, cursor⟩
    · exact ih hconfig hcursor
    · exact congrArg (ss ++ ·) (ih hconfig rfl)

/-- Tokens are symbols of the pass that reads them. -/
lemma symbolsAll_map_token (hmode : t.config.mode = .token) {ts : List Token}
    (hkinds : ∀ token ∈ ts, token.kind ≠ endOfStreamTag) :
    t.symbolsAll specials (ts.map .token) = ts.map .ofToken := by
  induction ts with
  | nil => rfl
  | cons token ts ih =>
    obtain ⟨hkind, hkinds⟩ := List.forall_mem_cons.1 hkinds
    have hsymbols : t.symbols specials (.token token) = .ok ([.ofToken token], t.cursor) := by
      simp only [symbols, hmode, if_neg hkind]
    rw [List.map_cons, symbolsAll]
    simp only [hsymbols]
    exact congrArg (Symbol.ofToken token :: ·) (ih hkinds)

/-- **Several chunks.**  Induction over the chunks. -/
lemma At.exists_consumeAll (h : t.At l w) (hopen : t.status = .accepting)
    (hchunks : ∀ chunk ∈ chunks, chunk.Suits t.config.mode) :
    ∃ (blocks : List (List Symbol)) (tokens : List Token) (t' : Tokenizer) (w' : Walker),
      (Pipeline.single t).consumeAll chunks = (.ok tokens, .single t') ∧
      t'.At l w' ∧ t'.status = .accepting ∧ List.Forall₂ l.compile.Makes blocks tokens ∧
      blocks.flatten ++ w'.history.symbols =
        w.history.symbols ++ t.symbolsAll (t.config.specialChars.resolve l) chunks := by
  induction chunks generalizing t w with
  | nil => exact ⟨[], [], t, w, rfl, h, hopen, .nil, by simp [symbolsAll]⟩
  | cons chunk chunks ih =>
    obtain ⟨hchunk, hchunks⟩ := List.forall_mem_cons.1 hchunks
    obtain ⟨ss, cursor, blocks, tokens, w₁, hsymbols, _, hconsume, hat, hmakes, hblocks⟩ :=
      h.exists_consume hopen hchunk
    obtain ⟨more, later, t', w', hall, hat', hopen', hmore, hlater⟩ := ih hat hopen hchunks
    have hone := Pipeline.consume_single_eq_iff.2 ⟨_, hconsume, rfl⟩
    refine ⟨blocks ++ more, tokens ++ later, t', w', ?_, hat', hopen', List.rel_append hmakes hmore,
      ?_⟩
    · exact Pipeline.consumeAll_cons_eq_ok_iff.2 ⟨tokens, _, later, hone, hall, rfl⟩
    · rw [List.flatten_append, List.append_assoc, hlater, ← List.append_assoc, hblocks,
        List.append_assoc, symbolsAll]
      simp only [hsymbols]
      exact congrArg (fun more => w.history.symbols ++ (ss ++ more)) (symbolsAll_congr rfl rfl)

/-- **A run.**  What was pending and the symbols of all chunks are cut into blocks, and the tokens
are those of the blocks. -/
lemma At.exists_readAll (h : t.At l w) (hopen : t.status = .accepting)
    (hchunks : ∀ chunk ∈ chunks, chunk.Suits t.config.mode) :
    ∃ (blocks : List (List Symbol)) (tokens : List Token) (t' : Tokenizer),
      (Pipeline.single t).readAll chunks = (.ok tokens, .single t') ∧
      List.Forall₂ l.compile.Makes blocks tokens ∧
      blocks.flatten =
        w.history.symbols ++ t.symbolsAll (t.config.specialChars.resolve l) chunks := by
  obtain ⟨blocks, tokens, t₁, w₁, hall, hat, hopen₁, hmakes, hblocks⟩ :=
    h.exists_consumeAll hopen hchunks
  obtain ⟨more, last, t', hfinish, _, _, _, _, hlast, hmore⟩ := hat.exists_finish_eq hopen₁
  have hend := Pipeline.finish_single_eq_iff.2 ⟨t', hfinish, rfl⟩
  refine ⟨blocks ++ more, tokens ++ last, t', ?_, List.rel_append hmakes hlast, ?_⟩
  · exact Pipeline.readAll_eq_ok_iff.2 ⟨tokens, _, last, hall, hend, rfl⟩
  · rw [List.flatten_append, hmore, hblocks]

/-- A tokenizer that reads a chunk has a machine, and the chunk suits its mode. -/
lemma Open.takes_of_consume (h : t.Open) (hconsume : t.consume chunk = (.ok tokens, t')) :
    t.Takes ∧ chunk.Suits t.config.mode := by
  cases hmachine : t.machine with
  | error fault =>
    rw [consume_of_error h.accepting hmachine] at hconsume
    cases hconsume
  | ok machine =>
    have htakes := h.takes hmachine
    refine ⟨htakes, ?_⟩
    by_contra hchunk
    obtain ⟨l, w, hat⟩ := htakes.exists_at
    obtain ⟨fault, hrefused⟩ := hat.exists_consume_eq_error h.accepting hchunk
    rw [hrefused] at hconsume
    cases hconsume

/-- A tokenizer that reads several chunks has a machine, and the chunks suit its mode. -/
lemma Open.takes_of_consumeAll (h : t.Open) {q : Pipeline .single}
    (hall : (Pipeline.single t).consumeAll chunks = (.ok tokens, q)) :
    ∀ chunk ∈ chunks, t.Takes ∧ chunk.Suits t.config.mode := by
  induction chunks generalizing t tokens with
  | nil => simp
  | cons chunk chunks ih =>
    obtain ⟨out, p, rest, hone, hmore, rfl⟩ := Pipeline.consumeAll_cons_eq_ok_iff.1 hall
    obtain ⟨t', hconsume, rfl⟩ := Pipeline.consume_single_eq_iff.1 hone
    obtain ⟨htakes, hchunk⟩ := h.takes_of_consume hconsume
    obtain ⟨_, _, hconsume', htakes', hconfig, _⟩ := htakes.exists_consume hchunk
    cases hconsume.symm.trans hconsume'
    intro other hother
    rcases List.mem_cons.1 hother with rfl | hother
    · exact ⟨htakes, hchunk⟩
    · exact ⟨htakes, hconfig ▸ (ih htakes'.toOpen hmore other hother).2⟩

end Tokenizer

/-! ## Pipelines -/

namespace Pipeline

variable {s : Shape} {p q : Pipeline s} {chunks : List Chunk} {tokens : List Token}

/-- The symbols that the chunks are read as, by the first pass. -/
def symbolsOf (p : Pipeline s) (chunks : List Chunk) : List Symbol :=
  match p.head.machine with
  | .ok machine => p.head.symbolsAll machine.specials chunks
  | .error _ => []

/-- A run of an open tokenizer covers what it was given. -/
lemma exists_covers_single {t : Tokenizer} {q : Pipeline .single} (h : t.Open)
    (hrun : (single t).readAll chunks = (.ok tokens, q))
    (hins : ins.map (·.item) = (single t).symbolsOf chunks) :
    ∃ outs, outs.map (·.item) = tokens ∧ t.Covers ins outs := by
  obtain ⟨out, p, last, hall, hend, rfl⟩ := readAll_eq_ok_iff.1 hrun
  have hchunks := h.takes_of_consumeAll hall
  unfold symbolsOf at hins
  cases hmachine : t.machine with
  | error fault =>
    -- whatever is read makes the lexicon compile
    cases chunks with
    | cons chunk chunks =>
      obtain ⟨machine, hok⟩ := (hchunks chunk List.mem_cons_self).1.exists_machine
      rw [hmachine] at hok
      cases hok
    | nil =>
      cases hall
      cases hend.symm.trans
        (finish_single_eq_iff.2 ⟨_, Tokenizer.finish_of_machine_eq_error h.accepting hmachine, rfl⟩)
      simp only [head, hmachine] at hins
      refine ⟨[], rfl, ?_⟩
      simp only [Tokenizer.Covers, hmachine, and_true]
      exact List.map_eq_nil_iff.1 hins
  | ok machine =>
    obtain ⟨l, w, hat⟩ := h.reachable.exists_at hmachine
    cases hmachine.symm.trans hat.machine_eq
    obtain ⟨blocks, tokens, t', hrun', hmakes, hblocks⟩ :=
      hat.exists_readAll h.accepting fun chunk hchunk => (hchunks chunk hchunk).2
    cases hrun.symm.trans hrun'
    simp only [head, hmachine] at hins
    have hlabelled :
        (w.history.symbols.map Spanned.older ++ ins).map (·.item) = blocks.flatten := by
      rw [List.map_append, Spanned.map_item_older, hins, hblocks]
      rfl
    obtain ⟨groups, outs, houts, hgroups, hflatten⟩ :=
      StateTable.exists_makesSpanned hmakes hlabelled
    refine ⟨outs, houts, ?_⟩
    simp only [Tokenizer.Covers, hmachine]
    exact ⟨groups, hgroups, hflatten⟩

/-- What a pipeline reads its first pass reads. -/
lemma exists_head_consumeAll (hall : p.consumeAll chunks = (.ok tokens, q)) :
    ∃ out t', (single p.head).consumeAll chunks = (.ok out, single t') := by
  induction p generalizing tokens with
  | single t =>
    cases q with
    | single t' => exact ⟨tokens, t', hall⟩
  | chain first second ih _ =>
    obtain ⟨out, first', _, hfirst, _⟩ := consumeAll_chain_eq_ok_iff.1 hall
    exact ih hfirst

/-- Chunks that are read are such that the first pass takes them. -/
lemma takes_of_consumeAll (hopen : p.Every Tokenizer.Open)
    (hall : p.consumeAll chunks = (.ok tokens, q)) :
    ∀ chunk ∈ chunks, p.head.Takes ∧ chunk.Suits p.mode := by
  obtain ⟨out, t', hhead⟩ := exists_head_consumeAll hall
  rw [mode_eq_head]
  exact hopen.head.takes_of_consumeAll hhead

/-- Tokens that are read are symbols of the next pass. -/
lemma symbolsOf_map_token (hmode : p.mode = .token) {ts : List Token}
    (hread : ∀ chunk ∈ ts.map Chunk.token, p.head.Takes ∧ chunk.Suits p.mode) :
    p.symbolsOf (ts.map .token) = ts.map .ofToken := by
  unfold symbolsOf
  cases hmachine : p.head.machine with
  | ok machine =>
    refine Tokenizer.symbolsAll_map_token (mode_eq_head p ▸ hmode) fun token htoken => ?_
    exact (hread _ (List.mem_map_of_mem htoken)).2.2
  | error fault =>
    cases ts with
    | nil => rfl
    | cons token ts =>
      obtain ⟨machine, hok⟩ := (hread (.token token) List.mem_cons_self).1.exists_machine
      rw [hmachine] at hok
      cases hok

/-- **Coverage.**  A run of open passes, linked in any shape, covers the symbols of its chunks. -/
theorem exists_covers (hlinked : p.Linked) (hopen : p.Every Tokenizer.Open)
    (hrun : p.readAll chunks = (.ok tokens, q))
    (hins : ins.map (·.item) = p.symbolsOf chunks) :
    ∃ outs, outs.map (·.item) = tokens ∧ p.Covers ins outs := by
  induction p generalizing chunks tokens ins with
  | single t => exact exists_covers_single hopen hrun hins
  | chain first second ih₁ ih₂ =>
    obtain ⟨hfirst, hsecond, hmode⟩ := linked_chain_iff.1 hlinked
    obtain ⟨middle, first', second', hrun₁, hrun₂, rfl⟩ := readAll_chain_eq_ok_iff.1 hrun
    obtain ⟨mid, rfl, hcovers₁⟩ := ih₁ hfirst hopen.1 hrun₁ hins
    obtain ⟨_, _, _, hall₂, _⟩ := readAll_eq_ok_iff.1 hrun₂
    have hsymbols := symbolsOf_map_token hmode (takes_of_consumeAll hopen.2 hall₂)
    have hwrapped := (Spanned.map_item_wrapped mid).trans hsymbols.symm
    obtain ⟨outs, houts, hcovers₂⟩ := ih₂ hsecond hopen.2 hrun₂ hwrapped
    exact ⟨outs, houts, mid, hcovers₁, hcovers₂⟩

/-- If each symbol stands for itself, the tokens stand for all symbols in their order. -/
theorem exists_covers_own (hlinked : p.Linked) (hopen : p.Every Tokenizer.Open)
    (hrun : p.readAll chunks = (.ok tokens, q)) :
    ∃ outs, outs.map (·.item) = tokens ∧ p.Covers ((p.symbolsOf chunks).map .own) outs ∧
      outs.flatMap (·.span) = p.symbolsOf chunks := by
  obtain ⟨outs, houts, hcovers⟩ := exists_covers hlinked hopen hrun (Spanned.map_item_own _)
  exact ⟨outs, houts, hcovers, hcovers.flatMap_span.trans (Spanned.flatMap_span_own _)⟩

end Pipeline

end Lexing
