import Lexing.Proofs.Accepted
import Lexing.Proofs.Conservation
import Lexing.Tokenizer

/-!
# Tokenizers in use

A tokenizer is *reachable* if calls lead to it, from one without lexemes or from a compiled table.
Whatever the calls, and whether they succeed or not, its draft was made by calls on drafts, or its
automaton is where some walker is on the trie of an accepted lexicon (`Phase.Sound`).

So if it has a machine, or could compile one, there is a lexicon and a walker to speak of
(`Tokenizer.At`).  What the calls that read do can then be told from the symbols of the chunk and
from what the automaton of the walker does with them (`Tokenizer.At.consume_eq`,
`Tokenizer.At.exists_finish`).
-/

namespace Lexing

/-! ## The symbols of a chunk -/

/-- No segment of a text is read as the end of the stream. -/
lemma Segment.isEndOfStream_symbol (segment : Segment) :
    segment.symbol.isEndOfStream = false := by
  cases segment with
  | text run => rfl
  | special c =>
    refine beq_eq_false_iff_ne.2 fun h => ?_
    have hlength : c.toString.length = endOfStreamTag.length := congrArg String.length h
    rw [Char.toString_eq_singleton, String.length_singleton] at hlength
    exact absurd hlength (by decide)

lemma Cursor.isEndOfStream_of_mem_place {file? : Option String} {c : Cursor}
    {segments : List Segment} :
    ∀ s ∈ (c.place file? segments).1, s.isEndOfStream = false := by
  induction segments generalizing c with
  | nil => simp [place]
  | cons segment segments ih =>
    rw [place, List.forall_mem_cons]
    exact ⟨segment.isEndOfStream_symbol, ih⟩

/-- The chunk is of the kind that is read in a mode and, if it is a token, does not pose as the end
of the stream. -/
def Chunk.Suits : Chunk → Mode → Prop
  | .text _, mode => mode = .character
  | .token t, mode => mode = .token ∧ t.kind ≠ endOfStreamTag

namespace Tokenizer

variable {t : Tokenizer} {chunk : Chunk}

/-- A chunk that suits the mode has symbols, of which none ends the stream. -/
lemma exists_symbols (specials : List Char) (h : chunk.Suits t.config.mode) :
    ∃ ss cursor, t.symbols specials chunk = .ok (ss, cursor) ∧
      ∀ s ∈ ss, s.isEndOfStream = false := by
  cases chunk with
  | text content =>
    have hmode : t.config.mode = .character := h
    have hsymbols : t.symbols specials (.text content) =
        .ok (t.cursor.place t.config.file? (Segment.split specials content)) := by
      simp only [symbols, hmode]
    exact ⟨_, _, hsymbols, Cursor.isEndOfStream_of_mem_place⟩
  | token token =>
    obtain ⟨hmode, hkind⟩ : t.config.mode = .token ∧ token.kind ≠ endOfStreamTag := h
    refine ⟨[.ofToken token], t.cursor, ?_, ?_⟩
    · simp only [symbols, hmode, if_neg hkind]
    · simpa [Symbol.isEndOfStream, Symbol.ofToken] using hkind

/-- A chunk that does not suit the mode has none. -/
lemma exists_symbols_eq_error (specials : List Char) (h : ¬ chunk.Suits t.config.mode) :
    ∃ fault, t.symbols specials chunk = .error fault := by
  unfold symbols
  split
  · rename_i hmode
    exact absurd hmode h
  · rename_i token hmode
    by_cases hkind : token.kind = endOfStreamTag
    · exact ⟨_, if_pos hkind⟩
    · exact absurd ⟨hmode, hkind⟩ h
  · exact ⟨_, rfl⟩

end Tokenizer

/-! ## Tokenizers made by calls -/

lemma Draft.mode_of_toLexicon {draft : Draft} {l : Lexicon} (h : draft.toLexicon = .ok l) :
    l.mode = draft.mode := by
  obtain ⟨_, _, _, rfl⟩ := exists_of_toLexicon h
  rfl

/-- The machine that is where the walker is. -/
def Walker.machine (w : Walker) (config : Config) (l : Lexicon) : Machine :=
  { automaton := w.automaton (.ofLexicon l) l, specials := config.specialChars.resolve l }

lemma Machine.new_compile (config : Config) (l : Lexicon) :
    Machine.new config l.compile = Walker.start.machine config l := by
  rw [Walker.machine, Walker.automaton_start (Trie.fits_ofLexicon l)]
  rfl

/-- What holds of the phase of a tokenizer at all times. -/
def Phase.Sound (config : Config) : Phase → Prop
  | .drafting draft => draft.Reachable ∧ draft.mode = config.mode
  | .compiled machine => ∃ (l : Lexicon) (w : Walker), l.Accepted ∧ l.mode = config.mode ∧
      w.Traced (.ofLexicon l) l ∧ machine = w.machine config l

namespace Tokenizer

variable {t t' : Tokenizer} {chunk : Chunk} {l : Lexicon} {w w' : Walker} {ss : List Symbol}
  {tokens : List Token}

/-- The tokenizers that calls lead to.  A call to set up that reports an error leaves the tokenizer
as it was, so only those that succeed are listed; a call to read always has a result. -/
inductive Reachable : Tokenizer → Prop where
  | new (config : Config) : Reachable (.new config)
  | withTable {config : Config} {l : Lexicon} {t : Tokenizer} (hl : l.Accepted)
      (h : withTable config l.compile = .ok t) : Reachable t
  | setDefault {t t' : Tokenizer} {d : Definition} (ht : Reachable t)
      (h : t.setDefault d = .ok t') : Reachable t'
  | addLexeme {t t' : Tokenizer} {d : Definition} {id : LexemeId} (ht : Reachable t)
      (h : t.addLexeme d = .ok (id, t')) : Reachable t'
  | prepare {t t' : Tokenizer} (ht : Reachable t) (h : t.prepare = .ok t') : Reachable t'
  | consume {t : Tokenizer} (chunk : Chunk) (ht : Reachable t) : Reachable (t.consume chunk).2
  | finish {t : Tokenizer} (ht : Reachable t) : Reachable t.finish.2
  | restart {t : Tokenizer} (ht : Reachable t) : Reachable t.restart

/-- A call that registers several lexemes is several calls, up to the first that fails. -/
lemma Reachable.addLexemes (h : t.Reachable) (ds : List Definition) :
    (t.addLexemes ds).2.Reachable := by
  induction ds generalizing t with
  | nil => exact h
  | cons d ds ih =>
    cases hd : t.addLexeme d with
    | error fault => simpa only [Tokenizer.addLexemes, hd] using h
    | ok r => simpa only [Tokenizer.addLexemes, hd] using ih (h.addLexeme hd)

/-- The tokenizer runs the lexicon `l`, or would do so if it got a chunk now, and is where the
walker `w` is. -/
structure At (t : Tokenizer) (l : Lexicon) (w : Walker) : Prop where
  accepted : l.Accepted
  mode_eq : l.mode = t.config.mode
  traced : w.Traced (.ofLexicon l) l
  machine_eq : t.machine = .ok (w.machine t.config l)

lemma machine_of_compiled {machine : Machine} (h : t.phase = .compiled machine) :
    t.machine = .ok machine := by
  simp only [Tokenizer.machine, h]

lemma machine_of_drafting {draft : Draft} (h : t.phase = .drafting draft)
    (hl : draft.toLexicon = .ok l) : t.machine = .ok (.new t.config l.compile) := by
  simp only [machine, h, hl]

lemma exists_toLexicon {draft : Draft} {machine : Machine} (h : t.phase = .drafting draft)
    (hmachine : t.machine = .ok machine) : ∃ l, draft.toLexicon = .ok l := by
  cases hl : draft.toLexicon with
  | error fault => simp [Tokenizer.machine, h, hl] at hmachine
  | ok l => exact ⟨l, rfl⟩

/-! ## Calls to set up -/

lemma mode_eq_of_withTable {config : Config} {table : StateTable}
    (h : withTable config table = .ok t) :
    table.mode = config.mode ∧ t = { config, phase := .compiled (.new config table) } := by
  unfold withTable at h
  split at h
  · rename_i hmode
    cases h
    exact ⟨hmode, rfl⟩
  · cases h

/-- Only a draft takes a default lexeme. -/
lemma exists_of_setDefault {d : Definition} (h : t.setDefault d = .ok t') :
    ∃ draft draft', t.phase = .drafting draft ∧ draft.setDefault d = .ok draft' ∧
      t' = { t with phase := .drafting draft' } := by
  unfold setDefault at h
  split at h
  · cases h
  · rename_i draft hphase
    split at h
    · cases h
    · rename_i draft' hd
      cases h
      exact ⟨draft, draft', hphase, hd, rfl⟩

/-- Only a draft takes a lexeme. -/
lemma exists_of_addLexeme {d : Definition} {id : LexemeId} (h : t.addLexeme d = .ok (id, t')) :
    ∃ draft draft', t.phase = .drafting draft ∧ draft.add d = .ok (id, draft') ∧
      t' = { t with phase := .drafting draft' } := by
  unfold addLexeme at h
  split at h
  · cases h
  · rename_i draft hphase
    split at h
    · cases h
    · rename_i id draft' hd
      cases h
      exact ⟨draft, draft', hphase, hd, rfl⟩

lemma exists_of_prepare (h : t.prepare = .ok t') :
    ∃ machine, t.machine = .ok machine ∧ t' = { t with phase := .compiled machine } := by
  unfold prepare at h
  split at h
  · cases h
  · rename_i machine hmachine
    cases h
    exact ⟨machine, hmachine, rfl⟩

/-! ## Calls that read -/

lemma consume_of_ne_accepting (h : t.status ≠ .accepting) : (t.consume chunk).2 = t := by
  unfold consume
  cases hstatus : t.status with
  | accepting => exact absurd hstatus h
  | finished => rfl
  | poisoned => rfl

/-- Without a machine nothing is read. -/
lemma consume_of_error {fault : LexiconError} (hopen : t.status = .accepting)
    (hmachine : t.machine = .error fault) :
    t.consume chunk = (.error (.lexicon fault), t) := by
  simp only [consume, hopen, hmachine]

lemma consume_of_machine {machine : Machine} (hopen : t.status = .accepting)
    (hmachine : t.machine = .ok machine) :
    t.consume chunk = run { t with phase := .compiled machine } machine chunk := by
  simp only [consume, hopen, hmachine]

lemma run_of_error {machine : Machine} {fault : PipelineError}
    (h : t.symbols machine.specials chunk = .error fault) :
    t.run machine chunk = (.error fault, t) := by
  simp only [run, h]

lemma run_of_symbols {machine : Machine} {cursor : Cursor} {automaton : Automaton}
    (hsymbols : t.symbols machine.specials chunk = .ok (ss, cursor))
    (hrun : machine.automaton.driveAll ss = .ok (tokens, automaton)) :
    t.run machine chunk =
      (.ok tokens, { t with phase := .compiled { machine with automaton }, cursor }) := by
  simp only [run, hsymbols, hrun]

/-- A draft that makes a lexicon is where a walker starts. -/
lemma at_start_of_drafting {draft : Draft} (hphase : t.phase = .drafting draft)
    (h : t.phase.Sound t.config) (hl : draft.toLexicon = .ok l) : t.At l .start := by
  rw [hphase] at h
  obtain ⟨hdraft, hmode⟩ := h
  refine ⟨⟨draft, hdraft, hl⟩, ?_, Walker.traced_start (Trie.fits_ofLexicon l), ?_⟩
  · rw [Draft.mode_of_toLexicon hl, hmode]
  · rw [machine_of_drafting hphase hl, Machine.new_compile]

/-- What a tokenizer can run, it runs like a walker. -/
lemma exists_at_of_sound (h : t.phase.Sound t.config) {machine : Machine}
    (hmachine : t.machine = .ok machine) : ∃ l w, t.At l w := by
  cases hphase : t.phase with
  | compiled running =>
    rw [hphase] at h
    obtain ⟨l, w, hl, hmode, hw, hrunning⟩ := h
    exact ⟨l, w, hl, hmode, hw, hrunning ▸ machine_of_compiled hphase⟩
  | drafting draft =>
    obtain ⟨l, hl⟩ := exists_toLexicon hphase hmachine
    exact ⟨l, .start, at_start_of_drafting hphase h hl⟩

namespace At

/-- Compiling now or later makes no difference. -/
lemma compiled (h : t.At l w) (hw : w'.Traced (.ofLexicon l) l) (cursor : Cursor)
    (status : Status) :
    At { t with phase := .compiled (w'.machine t.config l), cursor, status } l w' where
  accepted := h.accepted
  mode_eq := h.mode_eq
  traced := hw
  machine_eq := rfl

lemma sound (h : t.At l w) : Phase.Sound t.config (.compiled (w.machine t.config l)) :=
  ⟨l, w, h.accepted, h.mode_eq, h.traced, rfl⟩

/-- **One chunk.**  The symbols of a chunk are driven through the automaton. -/
lemma consume_eq (h : t.At l w) (hopen : t.status = .accepting) {cursor : Cursor}
    (hsymbols : t.symbols (t.config.specialChars.resolve l) chunk = .ok (ss, cursor))
    (hrun : (w.automaton (.ofLexicon l) l).driveAll ss =
      .ok (tokens, w'.automaton (.ofLexicon l) l)) :
    t.consume chunk =
      (.ok tokens, { t with phase := .compiled (w'.machine t.config l), cursor }) := by
  rw [consume_of_machine hopen h.machine_eq]
  exact run_of_symbols hsymbols hrun

/-- A chunk that does not suit the mode is refused. -/
lemma exists_consume_eq_error (h : t.At l w) (hopen : t.status = .accepting)
    (hchunk : ¬ chunk.Suits t.config.mode) :
    ∃ fault, t.consume chunk =
      (.error fault, { t with phase := .compiled (w.machine t.config l) }) := by
  obtain ⟨fault, hsymbols⟩ :=
    exists_symbols_eq_error (t.config.specialChars.resolve l) hchunk
  refine ⟨fault, ?_⟩
  rw [consume_of_machine hopen h.machine_eq]
  exact run_of_error hsymbols

/-- **The end.**  What the automaton flushes is handed out.  A tokenizer that has not compiled its
lexicon yet has nothing to flush. -/
lemma exists_finish (h : t.At l w) (hopen : t.status = .accepting)
    (hflush : (w.automaton (.ofLexicon l) l).drive .endOfStream =
      .ok (tokens, w'.automaton (.ofLexicon l) l)) :
    t.finish = (.ok tokens,
        { t with phase := .compiled (w'.machine t.config l), status := .finished }) ∨
      t.finish = (.ok [], { t with status := .finished }) ∧ w.history = .empty := by
  cases hphase : t.phase with
  | compiled running =>
    have hrunning := (machine_of_compiled hphase).symm.trans h.machine_eq
    cases hrunning
    left
    have hflush' : (w.machine t.config l).automaton.drive .endOfStream =
      .ok (tokens, w'.automaton (.ofLexicon l) l) := hflush
    simp only [finish, hopen, hphase, hflush']
    rfl
  | drafting draft =>
    obtain ⟨l', hl'⟩ := exists_toLexicon hphase h.machine_eq
    have hmachine := (machine_of_drafting hphase hl').symm.trans h.machine_eq
    have hhistory := congrArg (·.automaton.history) (Except.ok.inj hmachine)
    right
    exact ⟨by simp only [finish, hopen, hphase], hhistory.symm⟩

end At

/-- The calls that read keep the phase sound. -/
lemma sound_consume (h : t.phase.Sound t.config) (chunk : Chunk) :
    (t.consume chunk).2.phase.Sound (t.consume chunk).2.config := by
  by_cases hopen : t.status = .accepting
  · cases hmachine : t.machine with
    | error fault =>
      rw [consume_of_error hopen hmachine]
      exact h
    | ok machine =>
      obtain ⟨l, w, hat⟩ := exists_at_of_sound h hmachine
      by_cases hchunk : chunk.Suits t.config.mode
      · obtain ⟨ss, cursor, hsymbols, hss⟩ :=
          exists_symbols (t.config.specialChars.resolve l) hchunk
        obtain ⟨_, tokens, w', hrun, hw', _⟩ :=
          hat.traced.exists_driveAll_conserves (Trie.fits_ofLexicon l) hss
        rw [hat.consume_eq hopen hsymbols hrun]
        exact (hat.compiled hw' cursor t.status).sound
      · obtain ⟨fault, hconsume⟩ := hat.exists_consume_eq_error hopen hchunk
        rw [hconsume]
        exact hat.sound
  · rw [consume_of_ne_accepting hopen]
    exact h

lemma sound_finish (h : t.phase.Sound t.config) :
    t.finish.2.phase.Sound t.finish.2.config := by
  cases hstatus : t.status with
  | finished => simpa only [finish, hstatus] using h
  | poisoned => simpa only [finish, hstatus] using h
  | accepting =>
    cases hphase : t.phase with
    | drafting draft => simpa only [finish, hstatus, hphase] using h
    | compiled machine =>
      obtain ⟨l, w, hat⟩ := exists_at_of_sound h (machine_of_compiled hphase)
      have ht := Trie.fits_ofLexicon l
      obtain ⟨_, tokens, hflush, _⟩ := hat.traced.exists_flush ht
      rcases hat.exists_finish hstatus hflush with hfinish | ⟨hfinish, _⟩
      · rw [hfinish]
        exact (hat.compiled (Walker.traced_start ht) t.cursor .finished).sound
      · rw [hfinish]
        exact h

lemma sound_restart (h : t.phase.Sound t.config) :
    t.restart.phase.Sound t.restart.config := by
  unfold restart
  cases hphase : t.phase with
  | drafting draft => rwa [hphase] at h
  | compiled machine =>
    rw [hphase] at h
    obtain ⟨l, w, hl, hmode, _, rfl⟩ := h
    have ht := Trie.fits_ofLexicon l
    refine ⟨l, .start, hl, hmode, Walker.traced_start ht, ?_⟩
    simp only [Walker.machine, Walker.reset_automaton ht]

/-- Induction over the calls. -/
theorem Reachable.sound (h : t.Reachable) : t.phase.Sound t.config := by
  induction h with
  | new config => exact ⟨.new config.mode, rfl⟩
  | @withTable config l t hl h =>
    obtain ⟨hmode, rfl⟩ := mode_eq_of_withTable h
    have ht := Trie.fits_ofLexicon l
    exact ⟨l, .start, hl, hmode, Walker.traced_start ht, Machine.new_compile config l⟩
  | setDefault _ h ih =>
    obtain ⟨draft, draft', hphase, hd, rfl⟩ := exists_of_setDefault h
    obtain ⟨hdraft, hmode⟩ := hphase ▸ ih
    obtain ⟨_, _, hsame⟩ := Draft.exists_of_setDefault hd
    refine ⟨hdraft.setDefault hd, ?_⟩
    rw [hsame]
    exact hmode
  | addLexeme _ h ih =>
    obtain ⟨draft, draft', hphase, hd, rfl⟩ := exists_of_addLexeme h
    obtain ⟨hdraft, hmode⟩ := hphase ▸ ih
    obtain ⟨_, _, hsame⟩ := Draft.exists_of_add hd
    refine ⟨hdraft.add hd, ?_⟩
    rw [hsame]
    exact hmode
  | prepare _ h ih =>
    obtain ⟨machine, hmachine, rfl⟩ := exists_of_prepare h
    obtain ⟨l, w, hat⟩ := exists_at_of_sound ih hmachine
    cases hmachine.symm.trans hat.machine_eq
    exact hat.sound
  | consume chunk _ ih => exact sound_consume ih chunk
  | finish _ ih => exact sound_finish ih
  | restart _ ih => exact sound_restart ih

/-- What a reachable tokenizer can run, it runs like a walker on the trie of an accepted lexicon. -/
theorem Reachable.exists_at (h : t.Reachable) {machine : Machine}
    (hmachine : t.machine = .ok machine) : ∃ l w, t.At l w :=
  exists_at_of_sound h.sound hmachine

end Tokenizer

end Lexing
