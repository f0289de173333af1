import Lexing.Proofs.Calls

/-!
# Where a tokenizer comes from

A tokenizer compiles its lexicon when it gets the first chunk, or before, or it is given a table that
was compiled elsewhere; and it may have read another stream before it was restarted.  None of this
makes a difference to what it answers.

Two tokenizers that become the same when they are prepared answer every call alike, and become the
same again when they are prepared after it (`Tokenizer.call_of_prepare`).  Whatever the calls before,
a restart leads to a tokenizer that becomes, when it is prepared, what it would have been without
them (`Tokenizer.At.prepare_restart`).
-/

namespace Lexing

/-! ## Chained calls that succeed -/

namespace Draft

variable {draft : Draft} {d : Definition} {ds : List Definition}

/-- Without an error to keep, the chained call is the one that reports at once. -/
lemma setDefault_of_withDefault (h : (draft.withDefault d).fault? = none) :
    draft.setDefault d = .ok (draft.withDefault d) := by
  unfold withDefault at h ⊢
  cases hd : draft.setDefault d with
  | ok draft' => rfl
  | error fault => simp [hd, record] at h

lemma exists_add_of_withLexeme (h : (draft.withLexeme d).fault? = none) :
    ∃ id, draft.add d = .ok (id, draft.withLexeme d) := by
  unfold withLexeme at h ⊢
  cases hd : draft.add d with
  | ok r => exact ⟨r.1, rfl⟩
  | error fault => simp [hd, record] at h

/-- An error that has been kept is not forgotten. -/
lemma fault?_of_withLexeme (h : (draft.withLexeme d).fault? = none) : draft.fault? = none := by
  obtain ⟨id, hd⟩ := exists_add_of_withLexeme h
  obtain ⟨_, _, hadded⟩ := exists_of_add hd
  rw [hadded] at h
  exact h

lemma fault?_of_withLexemes (h : (draft.withLexemes ds).fault? = none) : draft.fault? = none := by
  induction ds generalizing draft with
  | nil => exact h
  | cons d ds ih => exact fault?_of_withLexeme (ih h)

end Draft

namespace Tokenizer

variable {t v : Tokenizer} {l : Lexicon} {w : Walker} {config : Config} {draft : Draft}
  {d : Definition} {ds : List Definition}

/-- A tokenizer takes the lexemes that its draft takes. -/
lemma exists_addLexemes (hphase : t.phase = .drafting draft)
    (hds : (draft.withLexemes ds).fault? = none) :
    ∃ ids, t.addLexemes ds =
      (.ok ids, { t with phase := .drafting (draft.withLexemes ds) }) := by
  induction ds generalizing t draft with
  | nil =>
    refine ⟨[], ?_⟩
    rw [addLexemes, Draft.withLexemes, List.foldl_nil, ← hphase]
  | cons d ds ih =>
    obtain ⟨id, hd⟩ := Draft.exists_add_of_withLexeme (Draft.fault?_of_withLexemes hds)
    have hadd : t.addLexeme d = .ok (id, { t with phase := .drafting (draft.withLexeme d) }) := by
      simp only [addLexeme, hphase, hd]
    obtain ⟨ids, hids⟩ := ih (t := { t with phase := .drafting (draft.withLexeme d) }) rfl hds
    refine ⟨id :: ids, ?_⟩
    simp only [addLexemes, hadd, hids]
    rfl

/-! ## Calls -/

/-- A call to a tokenizer whose lexicon is complete. -/
inductive Call where
  | consume (chunk : Chunk)
  | finish
  | restart
  deriving Inhabited

/-- What a call does.  A restart cannot fail and hands out nothing. -/
def call (t : Tokenizer) : Call → Except PipelineError (List Token) × Tokenizer
  | .consume chunk => t.consume chunk
  | .finish => t.finish
  | .restart => (.ok [], t.restart)

/-- A lexicon that has been compiled stays so. -/
lemma drafting_of_call {c : Call} (h : (t.call c).2.phase = .drafting draft) :
    t.phase = .drafting draft := by
  cases c with
  | consume chunk => exact drafting_of_consume h
  | finish => exact drafting_of_finish h
  | restart => exact drafting_of_restart h

/-! ## Preparing -/

lemma prepare_of_machine {machine : Machine} (h : t.machine = .ok machine) :
    t.prepare = .ok { t with phase := .compiled machine } := by
  simp only [prepare, h]

lemma prepare_of_compiled {machine : Machine} (h : t.phase = .compiled machine) :
    t.prepare = .ok t := by
  rw [prepare_of_machine (machine_of_compiled h), ← h]

lemma prepare_call_of_compiled {machine : Machine} (h : t.phase = .compiled machine) (c : Call) :
    (t.call c).2.prepare = .ok (t.call c).2 := by
  cases hphase : (t.call c).2.phase with
  | drafting draft =>
    rw [drafting_of_call hphase] at h
    cases h
  | compiled machine' => exact prepare_of_compiled hphase

lemma At.prepare_eq (h : t.At l w) :
    t.prepare = .ok { t with phase := .compiled (w.machine t.config l) } :=
  prepare_of_machine h.machine_eq

/-- The first chunk makes a tokenizer compile its lexicon, if that has not been done. -/
lemma consume_of_prepare (hopen : t.status = .accepting) (hprepare : t.prepare = .ok v)
    (chunk : Chunk) : v.consume chunk = t.consume chunk := by
  obtain ⟨machine, hmachine, rfl⟩ := exists_of_prepare hprepare
  rw [consume_of_machine hopen hmachine]
  exact consume_of_machine hopen rfl

/-- The end does not, but there is nothing to flush then. -/
lemma finish_of_prepare (hopen : t.status = .accepting) (hphase : t.phase = .drafting draft)
    (hprepare : t.prepare = .ok v) :
    v.finish.1 = t.finish.1 ∧ t.finish.2.prepare = .ok v.finish.2 := by
  obtain ⟨machine, hmachine, rfl⟩ := exists_of_prepare hprepare
  obtain ⟨l, hl⟩ := exists_toLexicon hphase hmachine
  cases (machine_of_drafting hphase hl).symm.trans hmachine
  have hflush : (Machine.new t.config l.compile).automaton.drive .endOfStream =
      .ok ([], (Machine.new t.config l.compile).automaton) := by
    rw [Machine.new_compile]
    exact Walker.drive_start l
  simp only [finish, hopen, hphase, hflush, true_and]
  exact prepare_of_machine (machine_of_drafting rfl hl)

lemma restart_of_prepare (hphase : t.phase = .drafting draft) (hprepare : t.prepare = .ok v) :
    t.restart.prepare = .ok v.restart := by
  obtain ⟨machine, hmachine, rfl⟩ := exists_of_prepare hprepare
  obtain ⟨l, hl⟩ := exists_toLexicon hphase hmachine
  cases (machine_of_drafting hphase hl).symm.trans hmachine
  have hphase' : t.restart.phase = .drafting draft := by simp only [restart, hphase]
  exact prepare_of_machine (machine_of_drafting hphase' hl)

/-- A stream that is not going on is answered by its status, and only a restart changes that. -/
lemma call_of_closed (hclosed : t.status ≠ .accepting) (hstatus : v.status = t.status) {c : Call}
    (hc : c ≠ .restart) :
    (v.call c).1 = (t.call c).1 ∧ (t.call c).2 = t ∧ (v.call c).2 = v := by
  cases h : t.status with
  | accepting => exact absurd h hclosed
  | finished =>
    cases c with
    | consume chunk => simp only [call, consume, hstatus, h, and_self]
    | finish => simp only [call, finish, hstatus, h, and_self]
    | restart => exact absurd rfl hc
  | poisoned =>
    cases c with
    | consume chunk => simp only [call, consume, hstatus, h, and_self]
    | finish => simp only [call, finish, hstatus, h, and_self]
    | restart => exact absurd rfl hc

lemma call_of_prepare_of_closed (hclosed : t.status ≠ .accepting) (hprepare : t.prepare = .ok v)
    {c : Call} (hc : c ≠ .restart) :
    (v.call c).1 = (t.call c).1 ∧ (t.call c).2.prepare = .ok (v.call c).2 := by
  obtain ⟨machine, _, hv⟩ := exists_of_prepare hprepare
  have hstatus : v.status = t.status := by rw [hv]
  obtain ⟨hanswer, hsame, hsame'⟩ := call_of_closed hclosed hstatus hc
  rw [hsame, hsame']
  exact ⟨hanswer, hprepare⟩

/-- **One call.**  Preparing a tokenizer before the call or after it makes no difference. -/
lemma call_of_prepare (hprepare : t.prepare = .ok v) (c : Call) :
    (v.call c).1 = (t.call c).1 ∧ (t.call c).2.prepare = .ok (v.call c).2 := by
  cases hphase : t.phase with
  | compiled machine =>
    cases (prepare_of_compiled hphase).symm.trans hprepare
    exact ⟨rfl, prepare_call_of_compiled hphase c⟩
  | drafting draft =>
    by_cases hopen : t.status = .accepting
    · cases c with
      | consume chunk =>
        obtain ⟨machine, _, hv⟩ := exists_of_prepare hprepare
        have hsame : v.call (.consume chunk) = t.call (.consume chunk) :=
          consume_of_prepare hopen hprepare chunk
        rw [← hsame]
        exact ⟨rfl, prepare_call_of_compiled (congrArg phase hv) (.consume chunk)⟩
      | finish => exact finish_of_prepare hopen hphase hprepare
      | restart => exact ⟨rfl, restart_of_prepare hphase hprepare⟩
    · cases c with
      | consume chunk => exact call_of_prepare_of_closed hopen hprepare nofun
      | finish => exact call_of_prepare_of_closed hopen hprepare nofun
      | restart => exact ⟨rfl, restart_of_prepare hphase hprepare⟩

/-- **Several calls.** -/
lemma callAll_of_prepare (hprepare : t.prepare = .ok v) (calls : List Call) :
    (callAll call v calls).1 = (callAll call t calls).1 := by
  induction calls generalizing t v with
  | nil => rfl
  | cons c calls ih =>
    obtain ⟨hanswer, hprepare'⟩ := call_of_prepare hprepare c
    simp only [callAll, hanswer, ih hprepare']

/-! ## Restarting -/

/-- A tokenizer that is about to compile its lexicon is at the start of a stream. -/
lemma At.eq_start_of_drafting (h : t.At l w) (hphase : t.phase = .drafting draft) : w = .start := by
  obtain ⟨l', hl'⟩ := exists_toLexicon hphase h.machine_eq
  have hmachine := (machine_of_drafting hphase hl').symm.trans h.machine_eq
  have hhistory := congrArg (·.automaton.history) (Except.ok.inj hmachine)
  exact h.traced.eq_start hhistory.symm

lemma At.restart (h : t.At l w) : t.restart.At l .start := by
  have ht := Trie.fits_ofLexicon l
  refine ⟨h.accepted, h.mode_eq, Walker.traced_start ht, ?_⟩
  cases hphase : t.phase with
  | drafting draft =>
    obtain rfl := h.eq_start_of_drafting hphase
    obtain ⟨l', hl'⟩ := exists_toLexicon hphase h.machine_eq
    have hphase' : t.restart.phase = .drafting draft := by simp only [Tokenizer.restart, hphase]
    have hmachine := (machine_of_drafting hphase hl').symm.trans h.machine_eq
    exact (machine_of_drafting hphase' hl').trans hmachine
  | compiled machine =>
    cases (machine_of_compiled hphase).symm.trans h.machine_eq
    have hphase' : t.restart.phase = .compiled (Walker.start.machine t.config l) := by
      simp only [Tokenizer.restart, hphase, Walker.machine, Walker.reset_automaton ht]
    exact machine_of_compiled hphase'

/-- A chunk leaves the configuration and the lexicon alone, whether it is read or refused. -/
lemma At.consume (h : t.At l w) (chunk : Chunk) :
    ∃ w', (t.consume chunk).2.At l w' ∧ (t.consume chunk).2.config = t.config := by
  by_cases hopen : t.status = .accepting
  · by_cases hchunk : chunk.Suits t.config.mode
    · obtain ⟨_, _, _, _, w', _, _, hconsume, hat, _⟩ := h.exists_consume hopen hchunk
      rw [hconsume]
      exact ⟨w', hat, rfl⟩
    · obtain ⟨fault, hconsume⟩ := h.exists_consume_eq_error hopen hchunk
      rw [hconsume]
      exact ⟨w, h.compiled h.traced t.cursor t.status, rfl⟩
  · rw [consume_of_ne_accepting hopen]
    exact ⟨w, h, rfl⟩

lemma At.finish (h : t.At l w) :
    ∃ w', t.finish.2.At l w' ∧ t.finish.2.config = t.config := by
  by_cases hopen : t.status = .accepting
  · obtain ⟨_, _, t', hfinish, _, _, hconfig, hat, _⟩ := h.exists_finish_eq hopen
    rw [hfinish]
    exact ⟨.start, hat, hconfig⟩
  · obtain ⟨_, hsame, _⟩ := call_of_closed (c := .finish) hopen rfl nofun
    have hfinish : t.finish.2 = t := hsame
    rw [hfinish]
    exact ⟨w, h, rfl⟩

lemma At.call (h : t.At l w) (c : Call) :
    ∃ w', (t.call c).2.At l w' ∧ (t.call c).2.config = t.config := by
  cases c with
  | consume chunk => exact h.consume chunk
  | finish => exact h.finish
  | restart => exact ⟨.start, h.restart, rfl⟩

lemma At.callAll (h : t.At l w) (calls : List Call) :
    ∃ w', (Lexing.callAll Tokenizer.call t calls).2.At l w' ∧
      (Lexing.callAll Tokenizer.call t calls).2.config = t.config := by
  induction calls generalizing t w with
  | nil => exact ⟨w, h, rfl⟩
  | cons c calls ih =>
    obtain ⟨w₁, hat, hconfig⟩ := h.call c
    obtain ⟨w', hat', hconfig'⟩ := ih hat
    exact ⟨w', hat', hconfig'.trans hconfig⟩

/-- **A restart.**  Whatever came before, nothing but the configuration and the lexicon is left of
it. -/
lemma At.prepare_restart (h : t.At l w) :
    t.restart.prepare =
      .ok { config := t.config, phase := .compiled (Walker.start.machine t.config l) } :=
  h.restart.prepare_eq

/-! ## Four ways to come by a table -/

/-- Where the chained calls make a lexicon, those that report at once set up a tokenizer that is at
the start of a stream, with its lexicon not compiled yet. -/
lemma exists_at_of_toLexicon
    (hl : (((Draft.new config.mode).withDefault d).withLexemes ds).toLexicon = .ok l) :
    ∃ blank ids lazy, (new config).setDefault d = .ok blank ∧
      blank.addLexemes ds = (.ok ids, lazy) ∧ lazy.At l .start ∧ lazy.config = config ∧
      lazy.prepare = .ok { config, phase := .compiled (Walker.start.machine config l) } := by
  obtain ⟨hds, _⟩ := Draft.exists_of_toLexicon hl
  have hd := Draft.setDefault_of_withDefault (Draft.fault?_of_withLexemes hds)
  have hblank : (new config).setDefault d =
      .ok { config, phase := .drafting ((Draft.new config.mode).withDefault d) } := by
    simp only [new, setDefault, hd]
  obtain ⟨ids, hids⟩ := exists_addLexemes (t :=
    { config, phase := .drafting ((Draft.new config.mode).withDefault d) }) rfl hds
  have hreachable := (Reachable.setDefault (.new config) hblank).addLexemes ds
  rw [hids] at hreachable
  have hat := at_start_of_drafting rfl hreachable.sound hl
  exact ⟨_, ids, _, hblank, hids, hat, rfl, hat.prepare_eq⟩

/-- **Origins make no difference.**  Let the builder accept a default lexeme and others.  Then a
tokenizer accepts them in calls of its own, can be prepared, and can be made from a table that was
compiled from them in the same mode.  Without being prepared it gives the same results, to any calls,
as when it is prepared, as the one made from the table, and as any of these three after any calls and
a restart. -/
theorem callAll_origins
    (hl : (((Draft.new config.mode).withDefault d).withLexemes ds).toLexicon = .ok l) :
    ∃ blank ids lazy eager tabled,
      (new config).setDefault d = .ok blank ∧ blank.addLexemes ds = (.ok ids, lazy) ∧
      lazy.prepare = .ok eager ∧ withTable config l.compile = .ok tabled ∧
      (∀ calls, (callAll call eager calls).1 = (callAll call lazy calls).1) ∧
      (∀ calls, (callAll call tabled calls).1 = (callAll call lazy calls).1) ∧
      ∀ t ∈ [lazy, eager, tabled], ∀ earlier calls,
        (callAll call (callAll call t earlier).2.restart calls).1 =
          (callAll call lazy calls).1 := by
  obtain ⟨blank, ids, lazy, hblank, hids, hlazy, hconfig, hprepare⟩ := exists_at_of_toLexicon hl
  subst hconfig
  have heager := hlazy.compiled hlazy.traced {} .accepting
  have hmode : l.compile.mode = lazy.config.mode := hlazy.mode_eq
  have htabled : withTable lazy.config l.compile =
      .ok { config := lazy.config, phase := .compiled (Walker.start.machine lazy.config l) } := by
    rw [withTable, if_pos hmode, Machine.new_compile]
  refine ⟨blank, ids, lazy, _, _, hblank, hids, hprepare, htabled, callAll_of_prepare hprepare,
    callAll_of_prepare hprepare, ?_⟩
  intro t ht earlier calls
  have hat : t.At l .start ∧ t.config = lazy.config := by
    simp only [List.mem_cons, List.not_mem_nil, or_false] at ht
    rcases ht with rfl | rfl | rfl
    · exact ⟨hlazy, rfl⟩
    · exact ⟨heager, rfl⟩
    · exact ⟨heager, rfl⟩
  obtain ⟨w', hat', hconfig⟩ := hat.1.callAll earlier
  have hrestart := hat'.prepare_restart
  rw [hconfig, hat.2] at hrestart
  rw [← callAll_of_prepare hrestart calls]
  exact callAll_of_prepare hprepare calls

/-- Runs of number signs. -/
def markLexeme : Definition :=
  { kind := "marks"
    pattern? := some (.sequence [.element { symbol := "#", repeats := true }])
    fullMatch := .concat }

/-- A pass that sets number signs apart from text.  It reads a text after another stream, which was
not ended, and in which a chunk was refused. -/
theorem callAll_origins_marks :
    ∃ l blank ids lazy eager tabled,
      (((Draft.new .character).withDefault { kind := "text" }).withLexemes [markLexeme]).toLexicon =
        .ok l ∧
      (new { specialChars := .fromLexicon }).setDefault { kind := "text" } = .ok blank ∧
      blank.addLexemes [markLexeme] = (.ok ids, lazy) ∧ lazy.prepare = .ok eager ∧
      withTable { specialChars := .fromLexicon } l.compile = .ok tabled ∧
      ∀ t ∈ [lazy, eager, tabled],
        (callAll call (callAll call t
          [.consume (.text "so#"), .consume (.token { kind := "x", value := .absent })]).2.restart
            [.consume (.text "##"), .finish]).1 =
          (callAll call lazy [.consume (.text "##"), .finish]).1 := by
  obtain ⟨l, hl⟩ : ∃ l, (((Draft.new ({ specialChars := .fromLexicon } : Config).mode).withDefault
      { kind := "text" }).withLexemes [markLexeme]).toLexicon = .ok l := ⟨_, rfl⟩
  obtain ⟨blank, ids, lazy, eager, tabled, hblank, hids, heager, htabled, _, _, hrestarted⟩ :=
    callAll_origins hl
  exact ⟨l, blank, ids, lazy, eager, tabled, hl, hblank, hids, heager, htabled,
    fun t ht => hrestarted t ht _ _⟩

end Tokenizer

end Lexing
