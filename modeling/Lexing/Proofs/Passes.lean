import Lexing.Proofs.Sessions
import Lexing.Proofs.Texts

/-!
# Single passes

What a tokenizer does is told by the lexicon that it runs and the walker that it is like
(`Tokenizer.At`), and by what is *pending*: the symbols that it has read without having made a token
of them.  A chunk that suits the mode is read, and what was pending and the symbols of the chunk are
cut into blocks, one for each token, and what is pending then (`Tokenizer.At.exists_consume`).  At
the end of the stream the rest is handed out (`Tokenizer.At.exists_finish_eq`).

A tokenizer that is open and has a default lexeme takes all chunks that suit its mode
(`Tokenizer.Takes`).  Its creation and every restart leave it at the start of a stream
(`Tokenizer.Begins`).
-/

namespace Lexing

/-- No token is made of nothing. -/
lemma StateTable.eq_nil_of_forall₂_makes {t : StateTable} {blocks : List (List Symbol)}
    {tokens : List Token} (h : List.Forall₂ t.Makes blocks tokens) (hempty : blocks.flatten = []) :
    tokens = [] := by
  cases h with
  | nil => rfl
  | cons hmakes _ => exact absurd (List.append_eq_nil_iff.1 hempty).1 hmakes.ne_nil

/-- A walker at the root is at its start. -/
lemma Walker.Sound.eq_start {t : Trie} {w : Walker} (hw : w.Sound t)
    (hroot : w.node = Trie.rootId) : w = start := by
  have hempty := hw.history_eq_empty hroot
  obtain ⟨node, history⟩ := w
  cases hroot
  cases hempty
  rfl

/-- A walker that has read nothing is at its start. -/
lemma Walker.Traced.eq_start {t : Trie} {l : Lexicon} {w : Walker} (hw : w.Traced t l)
    (hempty : w.history = .empty) : w = start := by
  have hroot : w.node = Trie.rootId := by
    rw [← hw.isEmpty_iff, hempty]
    rfl
  exact hw.toSound.eq_start hroot

/-- At the start of a stream nothing is flushed. -/
lemma Walker.drive_start (l : Lexicon) :
    (start.automaton (.ofLexicon l) l).drive .endOfStream =
      .ok ([], start.automaton (.ofLexicon l) l) := by
  have ht := Trie.fits_ofLexicon l
  obtain ⟨blocks, tokens, hflush, hmakes, hblocks⟩ := (traced_start (l := l) ht).exists_flush ht
  obtain rfl := StateTable.eq_nil_of_forall₂_makes hmakes hblocks
  exact hflush

namespace Tokenizer

variable {t t' : Tokenizer} {chunk : Chunk} {l : Lexicon} {w : Walker}

/-! ## Pending symbols -/

/-- What has been read without having become a token yet. -/
def pending (t : Tokenizer) : List Symbol :=
  match t.phase with
  | .drafting _ => []
  | .compiled machine => machine.automaton.history.symbols

/-- The match in progress is pending. -/
lemma history_symbols_of_machine {machine : Machine} (h : t.machine = .ok machine) :
    machine.automaton.history.symbols = t.pending := by
  unfold pending
  cases hphase : t.phase with
  | drafting draft =>
    obtain ⟨l, hl⟩ := exists_toLexicon hphase h
    cases (machine_of_drafting hphase hl).symm.trans h
    rfl
  | compiled machine =>
    cases (machine_of_compiled hphase).symm.trans h
    rfl

lemma At.pending_eq (h : t.At l w) : t.pending = w.history.symbols :=
  (history_symbols_of_machine h.machine_eq).symm

/-- The tokenizer has nothing pending, whether or not its stream is still going on. -/
structure Idle (t : Tokenizer) : Prop where
  reachable : t.Reachable
  pending_eq : t.pending = []

/-! ## Default lexemes -/

/-- The tokenizer has a default lexeme.  A lexicon that has been compiled always does. -/
def HasDefault (t : Tokenizer) : Prop :=
  ∀ draft, t.phase = .drafting draft → draft.defaultLexeme? ≠ none

/-- Reading leaves a draft as it was, or compiles it. -/
lemma drafting_of_consume {draft : Draft} (h : (t.consume chunk).2.phase = .drafting draft) :
    t.phase = .drafting draft := by
  by_cases hopen : t.status = .accepting
  · cases hmachine : t.machine with
    | error fault => rwa [consume_of_error hopen hmachine] at h
    | ok machine =>
      rw [consume_of_machine hopen hmachine, run] at h
      split at h
      · cases h
      · split at h <;> cases h
  · rwa [consume_of_ne_accepting hopen] at h

lemma drafting_of_finish {draft : Draft} (h : t.finish.2.phase = .drafting draft) :
    t.phase = .drafting draft := by
  cases hphase : t.phase with
  | drafting before => cases hstatus : t.status <;> simpa [finish, hstatus, hphase] using h
  | compiled machine =>
    unfold finish at h
    split at h
    · rwa [hphase] at h
    · rwa [hphase] at h
    · simp only [hphase] at h
      split at h <;> cases h

lemma drafting_of_restart {draft : Draft} (h : t.restart.phase = .drafting draft) :
    t.phase = .drafting draft := by
  cases hphase : t.phase with
  | drafting before => simpa [restart, hphase] using h
  | compiled machine => simp [restart, hphase] at h

/-- The calls to a tokenizer report errors at once and keep none for later. -/
lemma Reachable.fault?_eq_none (h : t.Reachable) {draft : Draft}
    (hphase : t.phase = .drafting draft) : draft.fault? = none := by
  induction h generalizing draft with
  | new config =>
    cases hphase
    rfl
  | withTable _ h =>
    obtain ⟨_, rfl⟩ := mode_eq_of_withTable h
    cases hphase
  | setDefault _ h ih =>
    obtain ⟨before, _, hbefore, hd, rfl⟩ := exists_of_setDefault h
    obtain ⟨_, _, rfl⟩ := Draft.exists_of_setDefault hd
    have hfault := ih hbefore
    cases hphase
    exact hfault
  | addLexeme _ h ih =>
    obtain ⟨before, _, hbefore, hd, rfl⟩ := exists_of_addLexeme h
    obtain ⟨_, _, rfl⟩ := Draft.exists_of_add hd
    have hfault := ih hbefore
    cases hphase
    exact hfault
  | prepare _ h =>
    obtain ⟨_, _, rfl⟩ := exists_of_prepare h
    cases hphase
  | consume _ _ ih => exact ih (drafting_of_consume hphase)
  | finish _ ih => exact ih (drafting_of_finish hphase)
  | restart _ ih => exact ih (drafting_of_restart hphase)

/-- All that a lexicon needs to be compiled is a default lexeme. -/
lemma Reachable.exists_machine_iff (h : t.Reachable) :
    (∃ machine, t.machine = .ok machine) ↔ t.HasDefault := by
  constructor
  · rintro ⟨machine, hmachine⟩ draft hphase hnone
    obtain ⟨l, hl⟩ := exists_toLexicon hphase hmachine
    simp [Draft.toLexicon, h.fault?_eq_none hphase, hnone] at hl
  · intro hdefault
    cases hphase : t.phase with
    | compiled machine => exact ⟨machine, machine_of_compiled hphase⟩
    | drafting draft =>
      obtain ⟨lexeme, hlexeme⟩ := Option.ne_none_iff_exists'.1 (hdefault draft hphase)
      cases hl : draft.toLexicon with
      | ok l => exact ⟨_, machine_of_drafting hphase hl⟩
      | error fault => simp [Draft.toLexicon, h.fault?_eq_none hphase, hlexeme] at hl

/-! ## Passes that take chunks -/

/-- The stream of the tokenizer is still going on. -/
structure Open (t : Tokenizer) : Prop where
  reachable : t.Reachable
  accepting : t.status = .accepting

/-- The tokenizer is open and has a default lexeme, so it has compiled its lexicon or can do so. -/
structure Takes (t : Tokenizer) : Prop extends t.Open where
  hasDefault : t.HasDefault

lemma Open.takes {machine : Machine} (h : t.Open) (hmachine : t.machine = .ok machine) : t.Takes :=
  ⟨h, h.reachable.exists_machine_iff.1 ⟨machine, hmachine⟩⟩

lemma Takes.exists_machine (h : t.Takes) : ∃ machine, t.machine = .ok machine :=
  h.reachable.exists_machine_iff.2 h.hasDefault

lemma Takes.exists_at (h : t.Takes) : ∃ l w, t.At l w := by
  obtain ⟨machine, hmachine⟩ := h.exists_machine
  exact h.reachable.exists_at hmachine

lemma Takes.prepare (h : t.Takes) (hprepare : t.prepare = .ok t') : t'.Takes := by
  have hreachable := h.reachable.prepare hprepare
  obtain ⟨machine, _, rfl⟩ := exists_of_prepare hprepare
  exact Open.takes ⟨hreachable, h.accepting⟩ (machine_of_compiled rfl)

/-- A chunk that suits the mode is read: its symbols are driven through the automaton. -/
lemma At.exists_consume (h : t.At l w) (hopen : t.status = .accepting)
    (hchunk : chunk.Suits t.config.mode) :
    ∃ (ss : List Symbol) (cursor : Cursor) (blocks : List (List Symbol)) (tokens : List Token)
      (w' : Walker),
      t.symbols (t.config.specialChars.resolve l) chunk = .ok (ss, cursor) ∧
      (w.automaton (.ofLexicon l) l).driveAll ss = .ok (tokens, w'.automaton (.ofLexicon l) l) ∧
      t.consume chunk =
        (.ok tokens, { t with phase := .compiled (w'.machine t.config l), cursor }) ∧
      At { t with phase := .compiled (w'.machine t.config l), cursor } l w' ∧
      List.Forall₂ l.compile.Makes blocks tokens ∧
      blocks.flatten ++ w'.history.symbols = w.history.symbols ++ ss := by
  obtain ⟨ss, cursor, hsymbols, hss⟩ := exists_symbols (t.config.specialChars.resolve l) hchunk
  obtain ⟨blocks, tokens, w', hrun, hw', hmakes, hblocks, _⟩ :=
    h.traced.exists_driveAll_conserves (Trie.fits_ofLexicon l) hss
  exact ⟨ss, cursor, blocks, tokens, w', hsymbols, hrun, h.consume_eq hopen hsymbols hrun,
    h.compiled hw' cursor t.status, hmakes, hblocks⟩

/-- What is flushed at the end is what the automaton hands out for its match in progress, whether or
not the lexicon has been compiled. -/
lemma At.exists_finish_eq (h : t.At l w) (hopen : t.status = .accepting) :
    ∃ (blocks : List (List Symbol)) (tokens : List Token) (t' : Tokenizer),
      t.finish = (.ok tokens, t') ∧
      (w.automaton (.ofLexicon l) l).drive .endOfStream =
        .ok (tokens, Walker.start.automaton (.ofLexicon l) l) ∧
      t'.status = .finished ∧ t'.config = t.config ∧ t'.At l .start ∧
      List.Forall₂ l.compile.Makes blocks tokens ∧ blocks.flatten = w.history.symbols := by
  have ht := Trie.fits_ofLexicon l
  obtain ⟨blocks, tokens, hflush, hmakes, hblocks⟩ := h.traced.exists_flush ht
  rcases h.exists_finish hopen hflush with hfinish | ⟨hfinish, hhistory⟩
  · exact ⟨blocks, tokens, _, hfinish, hflush, rfl, rfl,
      h.compiled (Walker.traced_start ht) t.cursor .finished, hmakes, hblocks⟩
  · -- nothing has been compiled, so nothing is pending, and nothing would be flushed
    obtain rfl := h.traced.eq_start hhistory
    cases hflush.symm.trans (Walker.drive_start l)
    exact ⟨blocks, [], _, hfinish, Walker.drive_start l, rfl, rfl,
      ⟨h.accepted, h.mode_eq, h.traced, h.machine_eq⟩, hmakes, hblocks⟩

/-- **One chunk.**  The tokenizer goes on taking chunks. -/
lemma Takes.exists_consume (h : t.Takes) (hchunk : chunk.Suits t.config.mode) :
    ∃ tokens t', t.consume chunk = (.ok tokens, t') ∧ t'.Takes ∧ t'.config = t.config ∧
      ∀ token ∈ tokens, token.kind ≠ endOfStreamTag := by
  obtain ⟨l, w, hat⟩ := h.exists_at
  obtain ⟨_, cursor, _, tokens, w', _, _, hconsume, hat', hmakes, _⟩ :=
    hat.exists_consume h.accepting hchunk
  have hreachable := h.reachable.consume chunk
  rw [hconsume] at hreachable
  exact ⟨tokens, _, hconsume, Open.takes ⟨hreachable, h.accepting⟩ hat'.machine_eq, rfl,
    StateTable.kind_ne_endOfStreamTag_of_forall₂_makes hat.accepted hmakes⟩

/-- A chunk that is refused changes nothing in that. -/
lemma Takes.exists_consume_eq_error (h : t.Takes) (hchunk : ¬ chunk.Suits t.config.mode) :
    ∃ fault t', t.consume chunk = (.error fault, t') ∧ t'.Takes ∧ t'.config = t.config := by
  obtain ⟨l, w, hat⟩ := h.exists_at
  obtain ⟨fault, hconsume⟩ := hat.exists_consume_eq_error h.accepting hchunk
  have hreachable := h.reachable.consume chunk
  rw [hconsume] at hreachable
  exact ⟨fault, _, hconsume, Open.takes ⟨hreachable, h.accepting⟩ (machine_of_compiled rfl), rfl⟩

/-- **The end.** -/
lemma Takes.exists_finish (h : t.Takes) :
    ∃ tokens t', t.finish = (.ok tokens, t') ∧
      ∀ token ∈ tokens, token.kind ≠ endOfStreamTag := by
  obtain ⟨l, w, hat⟩ := h.exists_at
  obtain ⟨_, tokens, t', hfinish, _, _, _, _, hmakes, _⟩ := hat.exists_finish_eq h.accepting
  exact ⟨tokens, t', hfinish,
    StateTable.kind_ne_endOfStreamTag_of_forall₂_makes hat.accepted hmakes⟩

/-- Without a machine there is only a draft. -/
lemma exists_draft_of_machine_eq_error {fault : LexiconError} (h : t.machine = .error fault) :
    ∃ draft, t.phase = .drafting draft := by
  cases hphase : t.phase with
  | drafting draft => exact ⟨draft, rfl⟩
  | compiled machine =>
    rw [machine_of_compiled hphase] at h
    cases h

/-- Without a machine nothing is handed out at the end. -/
lemma finish_of_machine_eq_error {fault : LexiconError} (hopen : t.status = .accepting)
    (hmachine : t.machine = .error fault) :
    t.finish = (.ok [], { t with status := .finished }) := by
  obtain ⟨draft, hphase⟩ := exists_draft_of_machine_eq_error hmachine
  simp only [finish, hopen, hphase]

/-! ## After the end -/

lemma finish_of_finished (h : t.status = .finished) : t.finish = (.ok [], t) := by
  simp only [finish, h]

lemma consume_of_finished (h : t.status = .finished) (chunk : Chunk) :
    t.consume chunk = (.error .finished, t) := by
  simp only [consume, h]

/-- What has been ended stays so. -/
lemma status_of_finish {tokens : List Token} (h : t.finish = (.ok tokens, t')) :
    t'.status = .finished := by
  unfold finish at h
  split at h
  · rename_i hfinished
    cases h
    exact hfinished
  · cases h
  · split at h
    · cases h
      rfl
    · split at h
      · cases h
      · cases h
        rfl

/-- Once the stream has been ended, ending it again changes nothing. -/
lemma finish_again {tokens : List Token} (h : t.finish = (.ok tokens, t')) :
    t'.finish = (.ok [], t') :=
  finish_of_finished (status_of_finish h)

/-! ## Where a stream begins -/

/-- The tokenizer is as it is after its creation or a restart: open, at the start of a stream, and
with nothing pending. -/
structure Begins (t : Tokenizer) : Prop extends t.Open, t.Idle where
  cursor_eq : t.cursor = {}

lemma begins_new (config : Config) : (new config).Begins where
  reachable := .new config
  accepting := rfl
  cursor_eq := rfl
  pending_eq := rfl

lemma begins_withTable {config : Config} {l : Lexicon} (hl : l.Accepted)
    (h : withTable config l.compile = .ok t) : t.Begins := by
  have hreachable := Reachable.withTable hl h
  obtain ⟨_, rfl⟩ := mode_eq_of_withTable h
  exact ⟨⟨hreachable, rfl⟩, rfl, rfl⟩

lemma Begins.setDefault {d : Definition} (ht : t.Begins) (h : t.setDefault d = .ok t') :
    t'.Begins := by
  have hreachable := ht.reachable.setDefault h
  obtain ⟨_, _, _, _, rfl⟩ := exists_of_setDefault h
  exact ⟨⟨hreachable, ht.accepting⟩, rfl, ht.cursor_eq⟩

lemma Begins.addLexeme {d : Definition} {id : LexemeId} (ht : t.Begins)
    (h : t.addLexeme d = .ok (id, t')) : t'.Begins := by
  have hreachable := ht.reachable.addLexeme h
  obtain ⟨_, _, _, _, rfl⟩ := exists_of_addLexeme h
  exact ⟨⟨hreachable, ht.accepting⟩, rfl, ht.cursor_eq⟩

lemma Begins.prepare (ht : t.Begins) (h : t.prepare = .ok t') : t'.Begins := by
  have hreachable := ht.reachable.prepare h
  obtain ⟨machine, hmachine, rfl⟩ := exists_of_prepare h
  refine ⟨⟨hreachable, ht.accepting⟩, ?_, ht.cursor_eq⟩
  rw [← ht.pending_eq, ← history_symbols_of_machine hmachine]
  rfl

lemma Reachable.begins_restart (h : t.Reachable) : t.restart.Begins where
  reachable := h.restart
  accepting := rfl
  cursor_eq := rfl
  pending_eq := by
    cases hphase : t.phase with
    | drafting draft => simp only [pending, Tokenizer.restart, hphase]
    | compiled machine =>
      simp only [pending, Tokenizer.restart, hphase]
      rfl

end Tokenizer

end Lexing
