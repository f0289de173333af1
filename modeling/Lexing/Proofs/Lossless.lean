import Lexing.Pipeline
import Lexing.Proofs.Sessions
import Lexing.Proofs.Texts

/-!
# Nothing of a text is lost

However many passes a text goes through, and however it is cut into chunks, the texts of the tokens
that come out at the end join to it, if every lexicon on the way keeps texts.

What carries the proof is the text that a pipeline owes (`Pipeline.Owes`): that of the match in
progress, and in a chain what the second pass owes before what the first one does, since that is
the older text.  A call hands out tokens so that their texts, and what is owed after it, are what
was owed before it and what the chunk brought (`Pipeline.conveys_consume`).  Tokens that are fed to
the second pass are chunks like others, so one lemma on several chunks
(`Pipeline.conveys_consumeAll`) serves both the induction over the shape and the main result
`Pipeline.exists_finish_textAll`.
-/

namespace Lexing

/-! ## Single passes -/

namespace Tokenizer

variable {t : Tokenizer} {chunk : Chunk} {owed : String}

/-- The tokenizer takes chunks and has read `owed` without having handed it out. -/
def Owes (t : Tokenizer) (owed : String) : Prop :=
  t.status = .accepting ∧ ∃ l w, t.At l w ∧ l.KeepsText ∧ Symbol.textAll w.history.symbols = owed

lemma Owes.exists_consume (h : t.Owes owed) (hchunk : chunk.Suits t.config.mode) :
    ∃ (tokens : List Token) (t' : Tokenizer) (rest : String),
      t.consume chunk = (.ok tokens, t') ∧ t'.config = t.config ∧ t'.Owes rest ∧
      (∀ token ∈ tokens, token.kind ≠ endOfStreamTag) ∧
      Token.textAll tokens ++ rest = owed ++ chunk.content := by
  obtain ⟨hopen, l, w, hat, hkeeps, rfl⟩ := h
  obtain ⟨ss, cursor, hsymbols, hss⟩ := exists_symbols (t.config.specialChars.resolve l) hchunk
  obtain ⟨tokens, w', hrun, hw', hkinds, htexts⟩ :=
    hat.traced.exists_driveAll_textAll hat.accepted hkeeps hss
  refine ⟨tokens, _, _, hat.consume_eq hopen hsymbols hrun, rfl,
    ⟨hopen, l, w', hat.compiled hw' cursor t.status, hkeeps, rfl⟩, hkinds, ?_⟩
  rw [htexts, textAll_symbols hsymbols]

lemma Owes.exists_finish (h : t.Owes owed) :
    ∃ tokens t', t.finish = (.ok tokens, t') ∧
      (∀ token ∈ tokens, token.kind ≠ endOfStreamTag) ∧ Token.textAll tokens = owed := by
  obtain ⟨hopen, l, w, hat, hkeeps, rfl⟩ := h
  obtain ⟨tokens, hflush, hkinds, htexts⟩ := hat.traced.exists_flush_textAll hat.accepted hkeeps
  rcases hat.exists_finish hopen hflush with hfinish | ⟨hfinish, hhistory⟩
  · exact ⟨tokens, _, hfinish, hkinds, htexts⟩
  · refine ⟨[], _, hfinish, by simp, ?_⟩
    rw [hhistory]
    rfl

lemma Owes.exists_consume_eq_error (h : t.Owes owed) (hchunk : ¬ chunk.Suits t.config.mode) :
    ∃ fault t', t.consume chunk = (.error fault, t') := by
  obtain ⟨hopen, l, w, hat, _⟩ := h
  obtain ⟨fault, hconsume⟩ := hat.exists_consume_eq_error hopen hchunk
  exact ⟨fault, _, hconsume⟩

/-- A tokenizer with a default lexeme that takes chunks, has nothing pending, and keeps texts. -/
structure Ready (t : Tokenizer) : Prop where
  reachable : t.Reachable
  accepting : t.status = .accepting
  exists_machine : ∃ machine, t.machine = .ok machine ∧ machine.automaton.isIdle = true ∧
    machine.automaton.table.lexicon.KeepsText

/-- Before it has compiled its lexicon a tokenizer has nothing pending. -/
lemma Reachable.ready_of_drafting {draft : Draft} {l : Lexicon} (h : t.Reachable)
    (hopen : t.status = .accepting) (hphase : t.phase = .drafting draft)
    (hl : draft.toLexicon = .ok l) (hkeeps : l.KeepsText) : t.Ready where
  reachable := h
  accepting := hopen
  exists_machine := ⟨_, machine_of_drafting hphase hl, Automaton.isIdle_new _, hkeeps⟩

lemma Ready.owes (h : t.Ready) : t.Owes "" := by
  obtain ⟨machine, hmachine, hidle, hkeeps⟩ := h.exists_machine
  obtain ⟨l, w, hat⟩ := h.reachable.exists_at hmachine
  cases hmachine.symm.trans hat.machine_eq
  refine ⟨h.accepting, l, w, hat, hkeeps, ?_⟩
  have hempty : w.history = .empty :=
    congrArg (·.history) (Automaton.eq_new_of_isIdle hidle)
  rw [hempty]
  rfl

end Tokenizer

/-! ## Pipelines -/

namespace Pipeline

variable {s s₁ s₂ : Shape}

/-- All passes of the pipeline have the property. -/
def Every (P : Tokenizer → Prop) : {s : Shape} → Pipeline s → Prop
  | _, single t => P t
  | _, chain first second => first.Every P ∧ second.Every P

/-- Every chain in the pipeline is one that `chain?` made. -/
def Linked : {s : Shape} → Pipeline s → Prop
  | _, single _ => True
  | _, chain first second =>
    first.Linked ∧ second.Linked ∧ first.chain? second = .ok (chain first second)

/-- Reads several chunks, up to the first error. -/
def consumeAll {s : Shape} (p : Pipeline s) :
    List Chunk → Except PipelineError (List Token) × Pipeline s
  | [] => (.ok [], p)
  | chunk :: chunks =>
    match p.consume chunk with
    | (.error fault, p) => (.error fault, p)
    | (.ok tokens, p) =>
      match p.consumeAll chunks with
      | (.error fault, p) => (.error fault, p)
      | (.ok more, p) => (.ok (tokens ++ more), p)

/-- The pipeline takes chunks and has read `owed` without having handed it out. -/
def Owes : {s : Shape} → Pipeline s → String → Prop
  | _, single t, owed => t.Owes owed
  | _, chain first second, owed =>
    second.mode = .token ∧ ∃ older newer, second.Owes older ∧ first.Owes newer ∧
      owed = older ++ newer

/-- The result of a call by which the pipeline `p`, which owed `owed`, was given `given`: the call
succeeds, and what it does not hand out is owed. -/
def Conveys (p : Pipeline s) (owed given : String)
    (r : Except PipelineError (List Token) × Pipeline s) : Prop :=
  ∃ tokens p' rest, r = (.ok tokens, p') ∧ p'.mode = p.mode ∧ p'.Owes rest ∧
    (∀ token ∈ tokens, token.kind ≠ endOfStreamTag) ∧
    Token.textAll tokens ++ rest = owed ++ given

lemma mode_eq_token_of_chain? {first : Pipeline s₁} {second : Pipeline s₂}
    {p : Pipeline (.chain s₁ s₂)} (h : first.chain? second = .ok p) : second.mode = .token := by
  unfold chain? at h
  split at h
  · assumption
  · cases h

/-- Feeding tokens is reading a chunk for each. -/
lemma feedTokens_eq_consumeAll (p : Pipeline s) (tokens : List Token) :
    feedTokens consume p tokens = p.consumeAll (tokens.map .token) := by
  induction tokens generalizing p with
  | nil => rfl
  | cons token tokens ih =>
    rw [feedTokens, List.map_cons, consumeAll]
    rcases p.consume (.token token) with ⟨_ | out, p'⟩
    · rfl
    · simp only [ih]
      rcases p'.consumeAll (tokens.map .token) with ⟨_ | more, p''⟩ <;> rfl

lemma exists_owes_nil {p : Pipeline s} (hlinked : p.Linked) (hready : p.Every Tokenizer.Ready) :
    p.Owes "" := by
  induction p with
  | single t => exact Tokenizer.Ready.owes hready
  | chain first second ih₁ ih₂ =>
    obtain ⟨hfirst, hsecond, hchain⟩ := hlinked
    exact ⟨mode_eq_token_of_chain? hchain, "", "", ih₂ hsecond hready.2, ih₁ hfirst hready.1, rfl⟩

/-! ## Several chunks -/

section SeveralChunks

variable (hconsume : ∀ (p : Pipeline s) (owed : String) (chunk : Chunk), p.Owes owed →
    chunk.Suits p.mode → p.Conveys owed chunk.content (p.consume chunk))
  {p : Pipeline s} {owed : String} (h : p.Owes owed)
include hconsume h

/-- If one chunk is conveyed, so are several, one after the other. -/
lemma conveys_consumeAll {chunks : List Chunk} (hchunks : ∀ chunk ∈ chunks, chunk.Suits p.mode) :
    p.Conveys owed (Chunk.contentAll chunks) (p.consumeAll chunks) := by
  induction chunks generalizing p owed with
  | nil => exact ⟨[], p, owed, rfl, rfl, h, by simp, by simp⟩
  | cons chunk chunks ih =>
    obtain ⟨hchunk, hchunks⟩ := List.forall_mem_cons.1 hchunks
    obtain ⟨tokens, p', rest, hfirst, hmode, h', hkinds, htexts⟩ := hconsume p owed chunk h hchunk
    obtain ⟨more, p'', rest', hall, hmode', h'', hkinds', htexts'⟩ := ih h' (hmode ▸ hchunks)
    refine ⟨tokens ++ more, p'', rest', ?_, hmode'.trans hmode, h'', ?_, ?_⟩
    · simp only [consumeAll, hfirst, hall]
    · exact List.forall_mem_append.2 ⟨hkinds, hkinds'⟩
    · rw [Token.textAll_append, String.append_assoc, htexts', ← String.append_assoc, htexts,
        String.append_assoc, Chunk.contentAll_cons]

/-- What one pass hands out is fit to be fed to another, and is conveyed by it. -/
lemma conveys_feedTokens (hmode : p.mode = .token) {tokens : List Token}
    (hkinds : ∀ token ∈ tokens, token.kind ≠ endOfStreamTag) :
    p.Conveys owed (Token.textAll tokens) (feedTokens consume p tokens) := by
  rw [feedTokens_eq_consumeAll, ← Chunk.contentAll_map_token]
  refine conveys_consumeAll hconsume h fun chunk hchunk => ?_
  obtain ⟨token, htoken, rfl⟩ := List.mem_map.1 hchunk
  exact ⟨hmode, hkinds token htoken⟩

end SeveralChunks

/-! ## One call -/

/-- **One chunk.**  Induction over the shape; in a chain the tokens of the first pass are the chunks
of the second. -/
theorem conveys_consume (p : Pipeline s) (owed : String) (chunk : Chunk) (h : p.Owes owed)
    (hchunk : chunk.Suits p.mode) : p.Conveys owed chunk.content (p.consume chunk) := by
  induction s generalizing owed chunk with
  | single =>
    cases p with
    | single t =>
      obtain ⟨tokens, t', rest, hconsume, hconfig, h', hkinds, htexts⟩ :=
        Tokenizer.Owes.exists_consume h hchunk
      refine ⟨tokens, .single t', rest, ?_, congrArg Config.mode hconfig, h', hkinds, htexts⟩
      simp only [consume, hconsume]
  | chain s₁ s₂ ih₁ ih₂ =>
    cases p with
    | chain first second =>
      obtain ⟨hmode, older, newer, hsecond, hfirst, rfl⟩ := h
      obtain ⟨tokens, first', newer', hconsume, hmode₁, hfirst', hkinds, htexts⟩ :=
        ih₁ first newer chunk hfirst hchunk
      obtain ⟨out, second', older', hfeed, hmode₂, hsecond', hkinds', htexts'⟩ :=
        conveys_feedTokens ih₂ hsecond hmode hkinds
      refine ⟨out, .chain first' second', older' ++ newer', ?_, hmode₁,
        ⟨hmode₂.trans hmode, older', newer', hsecond', hfirst', rfl⟩, hkinds', ?_⟩
      · simp only [consume, hconsume, hfeed]
      · calc Token.textAll out ++ (older' ++ newer')
            = older ++ (Token.textAll tokens ++ newer') := by
              rw [← String.append_assoc, htexts', String.append_assoc]
          _ = older ++ newer ++ chunk.content := by rw [htexts, String.append_assoc]

/-- **The end.**  Everything that is owed is handed out. -/
theorem exists_finish (p : Pipeline s) {owed : String} (h : p.Owes owed) :
    ∃ tokens p', p.finish = (.ok tokens, p') ∧
      (∀ token ∈ tokens, token.kind ≠ endOfStreamTag) ∧ Token.textAll tokens = owed := by
  induction s generalizing owed with
  | single =>
    cases p with
    | single t =>
      obtain ⟨tokens, t', hfinish, hkinds, htexts⟩ := Tokenizer.Owes.exists_finish h
      exact ⟨tokens, .single t', by simp only [finish, hfinish], hkinds, htexts⟩
  | chain s₁ s₂ ih₁ ih₂ =>
    cases p with
    | chain first second =>
      obtain ⟨hmode, older, newer, hsecond, hfirst, rfl⟩ := h
      obtain ⟨tokens, first', hfinish, hkinds, htexts⟩ := ih₁ first hfirst
      obtain ⟨out, second', rest, hfeed, _, hsecond', hkinds', htexts'⟩ :=
        conveys_feedTokens conveys_consume hsecond hmode hkinds
      obtain ⟨more, second'', hlast, hkinds'', htexts''⟩ := ih₂ second' hsecond'
      refine ⟨out ++ more, .chain first' second'', ?_, ?_, ?_⟩
      · simp only [finish, hfinish, hfeed, hlast]
      · exact List.forall_mem_append.2 ⟨hkinds', hkinds''⟩
      · rw [Token.textAll_append, htexts'', htexts', htexts]

/-- A chunk that does not suit the mode of the first pass is refused. -/
lemma exists_consume_eq_error (p : Pipeline s) {owed : String} {chunk : Chunk} (h : p.Owes owed)
    (hchunk : ¬ chunk.Suits p.mode) : ∃ fault p', p.consume chunk = (.error fault, p') := by
  induction p generalizing owed with
  | single t =>
    obtain ⟨fault, t', hconsume⟩ := Tokenizer.Owes.exists_consume_eq_error h hchunk
    exact ⟨fault, .single t', by simp only [consume, hconsume]⟩
  | chain first second ih₁ _ =>
    obtain ⟨_, _, newer, _, hfirst, _⟩ := h
    obtain ⟨fault, first', hconsume⟩ := ih₁ hfirst hchunk
    exact ⟨fault, .chain first' second, by simp only [consume, hconsume]⟩

/-- If all chunks are accepted, all of them suit the mode of the first pass. -/
lemma suits_of_consumeAll {p p' : Pipeline s} {owed : String} (h : p.Owes owed)
    {chunks : List Chunk} {tokens : List Token} (hall : p.consumeAll chunks = (.ok tokens, p')) :
    ∀ chunk ∈ chunks, chunk.Suits p.mode := by
  induction chunks generalizing p owed tokens with
  | nil => simp
  | cons chunk chunks ih =>
    by_cases hchunk : chunk.Suits p.mode
    · obtain ⟨first, p₁, rest, hfirst, hmode, h₁, _⟩ := conveys_consume p owed chunk h hchunk
      rw [consumeAll, hfirst] at hall
      rcases hrest : p₁.consumeAll chunks with ⟨_ | more, p₂⟩
      · simp [hrest] at hall
      · simp only [hrest, Prod.mk.injEq] at hall
        obtain ⟨_, rfl⟩ := hall
        exact List.forall_mem_cons.2 ⟨hchunk, hmode ▸ ih h₁ hrest⟩
    · obtain ⟨fault, p₁, hfirst⟩ := exists_consume_eq_error p h hchunk
      simp [consumeAll, hfirst] at hall

/-- **Nothing is lost.**  A pipeline of any shape whose passes are ready and linked accepts exactly
the chunks that suit the mode of its first pass.  The texts of the tokens that come out for accepted
chunks and at the end join to the text of the chunks. -/
theorem exists_finish_textAll {p : Pipeline s} (hlinked : p.Linked)
    (hready : p.Every Tokenizer.Ready) (chunks : List Chunk) :
    ((∃ tokens p', p.consumeAll chunks = (.ok tokens, p')) ↔
        ∀ chunk ∈ chunks, chunk.Suits p.mode) ∧
      ∀ tokens p', p.consumeAll chunks = (.ok tokens, p') →
        ∃ last p'', p'.finish = (.ok last, p'') ∧
          Token.textAll (tokens ++ last) = Chunk.contentAll chunks := by
  have h := exists_owes_nil hlinked hready
  constructor
  · constructor
    · rintro ⟨tokens, p', hall⟩
      exact suits_of_consumeAll h hall
    · intro hchunks
      obtain ⟨tokens, p', _, hall, _⟩ := conveys_consumeAll conveys_consume h hchunks
      exact ⟨tokens, p', hall⟩
  · intro tokens p' hall
    obtain ⟨_, _, owed, hall', _, howes, _, htexts⟩ :=
      conveys_consumeAll conveys_consume h (suits_of_consumeAll h hall)
    cases hall.symm.trans hall'
    obtain ⟨last, p'', hfinish, _, hlast⟩ := exists_finish p' howes
    refine ⟨last, p'', hfinish, ?_⟩
    rw [Token.textAll_append, hlast, htexts, String.empty_append]

end Pipeline

/-! ## An outline in two passes -/

/-- A default lexeme that joins whatever is left over. -/
def Lexeme.prose : Lexeme :=
  { kind := "text", items := [], fullMatch := .input, partialMatch? := some .concat }

namespace Tokenizer

/-- A pass that sets runs of number signs apart from the text between them. -/
def marker : Tokenizer :=
  { config := { specialChars := .fromLexicon }
    phase := .drafting
      { mode := .character
        defaultLexeme? := some .prose
        patternLexemes :=
          [{ kind := "marks"
             items := [.element { symbol := "#", repeats := true }]
             fullMatch := .concat
             partialMatch? := none }] } }

/-- A pass that takes a text with the marks before it for a heading. -/
def outliner : Tokenizer :=
  { config := { mode := .token }
    phase := .drafting
      { mode := .token
        defaultLexeme? := some .prose
        patternLexemes :=
          [{ kind := "heading"
             items := [.element { symbol := "marks" }, .element { symbol := "text" }]
             fullMatch := .collect
             partialMatch? := some .collect }] } }

lemma ready_marker : marker.Ready := by
  have hdefault : (new { specialChars := .fromLexicon }).setDefault
      { kind := "text", partialMatch? := some .concat } =
        .ok { config := { specialChars := .fromLexicon }
              phase := .drafting { mode := .character, defaultLexeme? := some .prose } } := rfl
  have hmarks : addLexeme
      { config := { specialChars := .fromLexicon }
        phase := .drafting { mode := .character, defaultLexeme? := some .prose } }
      { kind := "marks"
        pattern? := some (.sequence [.element { symbol := "#", repeats := true }])
        fullMatch := .concat } = .ok (1, marker) := rfl
  refine Reachable.ready_of_drafting
    (.addLexeme (.setDefault (.new _) hdefault) hmarks) rfl rfl rfl ?_
  constructor <;> simp [Lexeme.prose, Attribute.IsWhole, Lexeme.partialMatch]

lemma ready_outliner : outliner.Ready := by
  have hdefault : (new { mode := .token }).setDefault
      { kind := "text", partialMatch? := some .concat } =
        .ok { config := { mode := .token }
              phase := .drafting { mode := .token, defaultLexeme? := some .prose } } := rfl
  have hheading : addLexeme
      { config := { mode := .token }
        phase := .drafting { mode := .token, defaultLexeme? := some .prose } }
      { kind := "heading"
        pattern? := some (.sequence
          [.element { symbol := "marks" }, .element { symbol := "text" }])
        fullMatch := .collect
        partialMatch? := some .collect } = .ok (1, outliner) := rfl
  refine Reachable.ready_of_drafting
    (.addLexeme (.setDefault (.new _) hdefault) hheading) rfl rfl rfl ?_
  constructor <;> simp [Lexeme.prose, Attribute.IsWhole, Lexeme.partialMatch]

end Tokenizer

/-- Two passes over three chunks, the first of which ends within a run of marks. -/
theorem Pipeline.exists_finish_textAll_outline :
    ∃ tokens p' last p'',
      (chain (single .marker) (single .outliner)).consumeAll
        [.text "so#", .text "#one", .text "##"] = (.ok tokens, p') ∧
      p'.finish = (.ok last, p'') ∧ Token.textAll (tokens ++ last) = "so##one##" := by
  obtain ⟨haccepts, hlossless⟩ :=
    exists_finish_textAll (p := chain (single .marker) (single .outliner)) ⟨trivial, trivial, rfl⟩
      ⟨Tokenizer.ready_marker, Tokenizer.ready_outliner⟩ [.text "so#", .text "#one", .text "##"]
  obtain ⟨tokens, p', hall⟩ := haccepts.2 (by simp [Chunk.Suits, mode, Tokenizer.marker])
  obtain ⟨last, p'', hfinish, htexts⟩ := hlossless tokens p' hall
  exact ⟨tokens, p', last, p'', hall, hfinish, htexts.trans (by decide)⟩

end Lexing
