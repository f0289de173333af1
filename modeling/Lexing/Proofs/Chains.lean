import Lexing.Proofs.Lossless
import Lexing.Proofs.Passes

/-!
# Chains compose

A run of a pipeline reads several chunks and then ends the stream (`Pipeline.readAll`).  The passes
of a chain take turns: each token of the first is a chunk of the second at once.  All the same a run
of a chain is a run of the first pass, and then one of the second over all tokens of the first
(`Pipeline.readAll_chain_eq_ok_iff`).  So what is true of the runs of a single pass carries over to
pipelines of any shape, by induction over the shape.

If every pass takes chunks, no call fails that gives the first pass what it reads
(`Pipeline.Takes.exists_readAll`).
-/

namespace Lexing

lemma Tokenizer.Ready.takes {t : Tokenizer} (h : t.Ready) : t.Takes := by
  obtain ⟨machine, hmachine, _⟩ := h.exists_machine
  exact Open.takes ⟨h.reachable, h.accepting⟩ hmachine

/-! ## Passes put together -/

namespace Pipeline

variable {s s₁ s₂ : Shape} {first first' : Pipeline s₁} {second second' : Pipeline s₂}

/-- The pass that reads the chunks. -/
def head : {s : Shape} → Pipeline s → Tokenizer
  | _, single t => t
  | _, chain first _ => first.head

lemma mode_eq_head (p : Pipeline s) : p.mode = p.head.config.mode := by
  induction p with
  | single t => rfl
  | chain first second ih _ => exact ih

lemma linked_chain_iff :
    (chain first second).Linked ↔ first.Linked ∧ second.Linked ∧ second.mode = .token := by
  constructor
  · rintro ⟨hfirst, hsecond, hchain⟩
    exact ⟨hfirst, hsecond, mode_eq_token_of_chain? hchain⟩
  · rintro ⟨hfirst, hsecond, hmode⟩
    exact ⟨hfirst, hsecond, by simp only [chain?, hmode]⟩

lemma Every.mono {P Q : Tokenizer → Prop} (hPQ : ∀ t, P t → Q t) {p : Pipeline s}
    (h : p.Every P) : p.Every Q := by
  induction p with
  | single t => exact hPQ t h
  | chain first second ih₁ ih₂ => exact ⟨ih₁ h.1, ih₂ h.2⟩

lemma Every.head {P : Tokenizer → Prop} {p : Pipeline s} (h : p.Every P) : P p.head := by
  induction p with
  | single t => exact h
  | chain first second ih _ => exact ih h.1

/-- Every pass of the pipeline takes chunks, and those behind another take its tokens. -/
structure Takes (p : Pipeline s) : Prop where
  linked : p.Linked
  every : p.Every Tokenizer.Takes

lemma Takes.every_open {p : Pipeline s} (h : p.Takes) : p.Every Tokenizer.Open :=
  h.every.mono fun _ ht => ht.toOpen

lemma takes_single_iff {t : Tokenizer} : (single t).Takes ↔ t.Takes :=
  ⟨fun h => h.every, fun h => ⟨trivial, h⟩⟩

lemma takes_chain_iff :
    (chain first second).Takes ↔ first.Takes ∧ second.Takes ∧ second.mode = .token := by
  constructor
  · rintro ⟨hlinked, hevery⟩
    obtain ⟨hfirst, hsecond, hmode⟩ := linked_chain_iff.1 hlinked
    exact ⟨⟨hfirst, hevery.1⟩, ⟨hsecond, hevery.2⟩, hmode⟩
  · rintro ⟨hfirst, hsecond, hmode⟩
    exact ⟨linked_chain_iff.2 ⟨hfirst.linked, hsecond.linked, hmode⟩, hfirst.every, hsecond.every⟩

/-! ## Runs -/

/-- The tokens of a call.  If it fails there are none. -/
def handedOut : Except PipelineError (List Token) → List Token
  | .ok tokens => tokens
  | .error _ => []

/-- Reads several chunks and ends the stream. -/
def readAll (p : Pipeline s) (chunks : List Chunk) :
    Except PipelineError (List Token) × Pipeline s :=
  match p.consumeAll chunks with
  | (.error fault, p) => (.error fault, p)
  | (.ok tokens, p) =>
    match p.finish with
    | (.error fault, p) => (.error fault, p)
    | (.ok more, p) => (.ok (tokens ++ more), p)

variable {p p' p'' : Pipeline s} {chunk : Chunk} {chunks more : List Chunk} {out : List Token}

lemma consume_single_eq_iff {t : Tokenizer} {result : Except PipelineError (List Token)}
    {q : Pipeline .single} :
    (single t).consume chunk = (result, q) ↔
      ∃ t', t.consume chunk = (result, t') ∧ q = single t' := by
  rw [consume]
  rcases t.consume chunk with ⟨result', t'⟩
  simp [eq_comm]

lemma finish_single_eq_iff {t : Tokenizer} {result : Except PipelineError (List Token)}
    {q : Pipeline .single} :
    (single t).finish = (result, q) ↔ ∃ t', t.finish = (result, t') ∧ q = single t' := by
  rw [finish]
  rcases t.finish with ⟨result', t'⟩
  simp [eq_comm]

lemma consumeAll_cons_eq_ok_iff :
    p.consumeAll (chunk :: chunks) = (.ok out, p'') ↔
      ∃ tokens p' rest, p.consume chunk = (.ok tokens, p') ∧
        p'.consumeAll chunks = (.ok rest, p'') ∧ out = tokens ++ rest := by
  rw [consumeAll]
  rcases p.consume chunk with ⟨_ | tokens, p₁⟩
  · simp
  · rcases hrest : p₁.consumeAll chunks with ⟨_ | rest, p₂⟩
    · simp [hrest]
    · simp [hrest, eq_comm, and_comm]

lemma consumeAll_append_eq_ok_iff :
    p.consumeAll (chunks ++ more) = (.ok out, p'') ↔
      ∃ tokens p' rest, p.consumeAll chunks = (.ok tokens, p') ∧
        p'.consumeAll more = (.ok rest, p'') ∧ out = tokens ++ rest := by
  induction chunks generalizing p out with
  | nil => simp [consumeAll]
  | cons chunk chunks ih =>
    simp only [List.cons_append, consumeAll_cons_eq_ok_iff, ih]
    constructor
    · rintro ⟨tokens, p₁, _, hone, ⟨rest, p₂, last, hall, hmore, rfl⟩, rfl⟩
      exact ⟨tokens ++ rest, p₂, last, ⟨tokens, p₁, rest, hone, hall, rfl⟩, hmore,
        (List.append_assoc ..).symm⟩
    · rintro ⟨_, p₂, last, ⟨tokens, p₁, rest, hone, hall, rfl⟩, hmore, rfl⟩
      exact ⟨tokens, p₁, rest ++ last, hone, ⟨rest, p₂, last, hall, hmore, rfl⟩,
        List.append_assoc ..⟩

lemma readAll_eq_ok_iff :
    p.readAll chunks = (.ok out, p'') ↔
      ∃ tokens p' last, p.consumeAll chunks = (.ok tokens, p') ∧
        p'.finish = (.ok last, p'') ∧ out = tokens ++ last := by
  rw [readAll]
  rcases p.consumeAll chunks with ⟨_ | tokens, p₁⟩
  · simp
  · rcases hlast : p₁.finish with ⟨_ | last, p₂⟩
    · simp [hlast]
    · simp [hlast, eq_comm, and_comm]

/-- Tokenizing a text is a run over one chunk. -/
lemma tokenize_eq_readAll (p : Pipeline s) (text : String) :
    p.tokenize text = p.readAll [.text text] := by
  rw [tokenize, readAll, consumeAll]
  rcases p.consume (.text text) with ⟨_ | tokens, p₁⟩
  · rfl
  · rcases hlast : p₁.finish with ⟨_ | last, p₂⟩
    · simp [consumeAll, hlast]
    · simp [consumeAll, hlast]

/-! ## Runs of chains -/

lemma consume_chain_eq_ok_iff {q : Pipeline (.chain s₁ s₂)} :
    (chain first second).consume chunk = (.ok out, q) ↔
      ∃ tokens first' second', first.consume chunk = (.ok tokens, first') ∧
        second.consumeAll (tokens.map .token) = (.ok out, second') ∧ q = chain first' second' := by
  rw [consume]
  rcases first.consume chunk with ⟨_ | tokens, first'⟩
  · simp
  · simp only [feedTokens_eq_consumeAll]
    rcases hfeed : second.consumeAll (tokens.map .token) with ⟨_ | out', second'⟩
    · simp [hfeed]
    · simp [hfeed, eq_comm]

lemma finish_chain_eq_ok_iff {q : Pipeline (.chain s₁ s₂)} :
    (chain first second).finish = (.ok out, q) ↔
      ∃ tokens first' second', first.finish = (.ok tokens, first') ∧
        second.readAll (tokens.map .token) = (.ok out, second') ∧ q = chain first' second' := by
  rw [finish]
  rcases first.finish with ⟨_ | tokens, first'⟩
  · simp
  · simp only [feedTokens_eq_consumeAll]
    rcases hfeed : second.consumeAll (tokens.map .token) with ⟨_ | fed, second'⟩
    · simp [readAll, hfeed]
    · rcases hlast : second'.finish with ⟨_ | last, second''⟩
      · simp [readAll, hfeed, hlast]
      · simp [readAll, hfeed, hlast, eq_comm]

/-- The chunks of a chain are those of its first pass, and the tokens of that one are the chunks of
the second. -/
lemma consumeAll_chain_eq_ok_iff {q : Pipeline (.chain s₁ s₂)} :
    (chain first second).consumeAll chunks = (.ok out, q) ↔
      ∃ tokens first' second', first.consumeAll chunks = (.ok tokens, first') ∧
        second.consumeAll (tokens.map .token) = (.ok out, second') ∧ q = chain first' second' := by
  induction chunks generalizing first second out with
  | nil => simp [consumeAll, eq_comm]
  | cons chunk chunks ih =>
    simp only [consumeAll_cons_eq_ok_iff, consume_chain_eq_ok_iff]
    constructor
    · rintro ⟨_, _, _, ⟨tokens, first₁, second₁, hone, hfed, rfl⟩, hrest, rfl⟩
      obtain ⟨later, first', second', hall, hlater, rfl⟩ := ih.1 hrest
      refine ⟨_, first', second', ⟨tokens, first₁, later, hone, hall, rfl⟩, ?_, rfl⟩
      rw [List.map_append]
      exact consumeAll_append_eq_ok_iff.2 ⟨_, second₁, _, hfed, hlater, rfl⟩
    · rintro ⟨_, first', second', ⟨tokens, first₁, later, hone, hall, rfl⟩, hfed, rfl⟩
      rw [List.map_append] at hfed
      obtain ⟨out₁, second₁, out₂, hfed₁, hfed₂, rfl⟩ := consumeAll_append_eq_ok_iff.1 hfed
      exact ⟨out₁, chain first₁ second₁, out₂, ⟨tokens, first₁, second₁, hone, hfed₁, rfl⟩,
        ih.2 ⟨later, first', second', hall, hfed₂, rfl⟩, rfl⟩

/-- **Composition.**  A run of a chain is a run of its first pass and a run of the second over all
tokens of the first. -/
theorem readAll_chain_eq_ok_iff {q : Pipeline (.chain s₁ s₂)} :
    (chain first second).readAll chunks = (.ok out, q) ↔
      ∃ tokens first' second', first.readAll chunks = (.ok tokens, first') ∧
        second.readAll (tokens.map .token) = (.ok out, second') ∧ q = chain first' second' := by
  simp only [readAll_eq_ok_iff (p := chain first second), consumeAll_chain_eq_ok_iff]
  constructor
  · rintro ⟨_, _, _, ⟨tokens, first₁, second₁, hall, hfed, rfl⟩, hend, rfl⟩
    obtain ⟨later, first', second', hfinish, hrest, rfl⟩ := finish_chain_eq_ok_iff.1 hend
    obtain ⟨fed, second₂, last, hfed', hlast, rfl⟩ := readAll_eq_ok_iff.1 hrest
    refine ⟨tokens ++ later, first', second',
      readAll_eq_ok_iff.2 ⟨tokens, first₁, later, hall, hfinish, rfl⟩, ?_, rfl⟩
    rw [List.map_append, readAll_eq_ok_iff]
    exact ⟨_, second₂, last, consumeAll_append_eq_ok_iff.2 ⟨_, second₁, fed, hfed, hfed', rfl⟩,
      hlast, (List.append_assoc ..).symm⟩
  · rintro ⟨_, first', second', hfirst, hsecond, rfl⟩
    obtain ⟨tokens, first₁, later, hall, hfinish, rfl⟩ := readAll_eq_ok_iff.1 hfirst
    rw [List.map_append, readAll_eq_ok_iff] at hsecond
    obtain ⟨_, second₂, last, hboth, hlast, rfl⟩ := hsecond
    obtain ⟨out₁, second₁, out₂, hfed, hfed', rfl⟩ := consumeAll_append_eq_ok_iff.1 hboth
    have hrest : second₁.readAll (later.map .token) = (.ok (out₂ ++ last), second') :=
      readAll_eq_ok_iff.2 ⟨out₂, second₂, last, hfed', hlast, rfl⟩
    exact ⟨out₁, chain first₁ second₁, out₂ ++ last,
      ⟨tokens, first₁, second₁, hall, hfed, rfl⟩,
      finish_chain_eq_ok_iff.2 ⟨later, first', second', hfinish, hrest, rfl⟩,
      List.append_assoc ..⟩

/-! ## Runs succeed -/

/-- What a pass hands out suits the pass behind it. -/
lemma suits_of_mem_map_token {mode : Mode} {tokens : List Token} (hmode : mode = .token)
    (hkinds : ∀ token ∈ tokens, token.kind ≠ endOfStreamTag) :
    ∀ chunk ∈ tokens.map Chunk.token, chunk.Suits mode := by
  intro chunk hchunk
  obtain ⟨token, htoken, rfl⟩ := List.mem_map.1 hchunk
  exact ⟨hmode, hkinds token htoken⟩

/-- **Several chunks.**  Induction over the shape; on a single pass, over the chunks. -/
theorem Takes.exists_consumeAll (h : p.Takes) (hchunks : ∀ chunk ∈ chunks, chunk.Suits p.mode) :
    ∃ tokens p', p.consumeAll chunks = (.ok tokens, p') ∧ p'.Takes ∧ p'.mode = p.mode ∧
      ∀ token ∈ tokens, token.kind ≠ endOfStreamTag := by
  induction p generalizing chunks with
  | single t =>
    induction chunks generalizing t with
    | nil => exact ⟨[], single t, rfl, h, rfl, by simp⟩
    | cons chunk chunks ih =>
      obtain ⟨hchunk, hchunks⟩ := List.forall_mem_cons.1 hchunks
      obtain ⟨tokens, t', hconsume, ht', hconfig, hkinds⟩ :=
        Tokenizer.Takes.exists_consume h.every hchunk
      have hmode : (single t').mode = (single t).mode := congrArg Config.mode hconfig
      have hone := consume_single_eq_iff.2 ⟨t', hconsume, rfl⟩
      obtain ⟨rest, p', hall, hp', hmode', hkinds'⟩ :=
        ih t' (takes_single_iff.2 ht') (hmode ▸ hchunks)
      exact ⟨tokens ++ rest, p', consumeAll_cons_eq_ok_iff.2 ⟨tokens, _, rest, hone, hall, rfl⟩,
        hp', hmode'.trans hmode, List.forall_mem_append.2 ⟨hkinds, hkinds'⟩⟩
  | chain first second ih₁ ih₂ =>
    obtain ⟨hfirst, hsecond, hmode⟩ := takes_chain_iff.1 h
    obtain ⟨tokens, first', hall, hfirst', hmode₁, hkinds⟩ := ih₁ hfirst hchunks
    obtain ⟨out, second', hfed, hsecond', hmode₂, hkinds'⟩ :=
      ih₂ hsecond (suits_of_mem_map_token hmode hkinds)
    exact ⟨out, chain first' second',
      consumeAll_chain_eq_ok_iff.2 ⟨tokens, first', second', hall, hfed, rfl⟩,
      takes_chain_iff.2 ⟨hfirst', hsecond', hmode₂.trans hmode⟩, hmode₁, hkinds'⟩

/-- **The end.**  Induction over the shape; the second pass is fed what the first flushes and is not
the one it was. -/
theorem Takes.exists_finish (h : p.Takes) :
    ∃ tokens p', p.finish = (.ok tokens, p') ∧
      ∀ token ∈ tokens, token.kind ≠ endOfStreamTag := by
  induction s with
  | single =>
    cases p with
    | single t =>
      obtain ⟨tokens, t', hfinish, hkinds⟩ := Tokenizer.Takes.exists_finish h.every
      exact ⟨tokens, single t', finish_single_eq_iff.2 ⟨t', hfinish, rfl⟩, hkinds⟩
  | chain s₁ s₂ ih₁ ih₂ =>
    cases p with
    | chain first second =>
      obtain ⟨hfirst, hsecond, hmode⟩ := takes_chain_iff.1 h
      obtain ⟨tokens, first', hfinish, hkinds⟩ := ih₁ hfirst
      obtain ⟨out, second', hfed, hsecond', _, hkinds'⟩ :=
        hsecond.exists_consumeAll (suits_of_mem_map_token hmode hkinds)
      obtain ⟨last, second'', hlast, hkinds''⟩ := ih₂ hsecond'
      have hrest : second.readAll (tokens.map .token) = (.ok (out ++ last), second'') :=
        readAll_eq_ok_iff.2 ⟨out, second', last, hfed, hlast, rfl⟩
      exact ⟨out ++ last, chain first' second'',
        finish_chain_eq_ok_iff.2 ⟨tokens, first', second'', hfinish, hrest, rfl⟩,
        List.forall_mem_append.2 ⟨hkinds', hkinds''⟩⟩

/-- **A run.**  A pipeline of passes that take chunks reads all chunks that suit its first pass. -/
theorem Takes.exists_readAll (h : p.Takes) (hchunks : ∀ chunk ∈ chunks, chunk.Suits p.mode) :
    ∃ tokens p', p.readAll chunks = (.ok tokens, p') := by
  obtain ⟨tokens, p₁, hall, hp₁, _⟩ := h.exists_consumeAll hchunks
  obtain ⟨last, p₂, hfinish, _⟩ := hp₁.exists_finish
  exact ⟨tokens ++ last, p₂, readAll_eq_ok_iff.2 ⟨tokens, p₁, last, hall, hfinish, rfl⟩⟩

/-- A pass that sets marks apart from text, and one that makes headings of the two. -/
def outline : Pipeline (.chain .single .single) :=
  chain (single .marker) (single .outliner)

lemma takes_outline : outline.Takes :=
  takes_chain_iff.2 ⟨takes_single_iff.2 Tokenizer.ready_marker.takes,
    takes_single_iff.2 Tokenizer.ready_outliner.takes, rfl⟩

end Pipeline

end Lexing
