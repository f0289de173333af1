import Lexing.Proofs.Origins

/-!
# What a tokenizer refuses

Calls to a tokenizer can fail, and the run goes on after that.  What can go wrong is little, and can
be told before the call: the tokenizer looks at whether the stream has ended, whether there is a
lexicon, and whether the chunk suits the mode, in this order (`Tokenizer.refusal?`).  Once its table
has been compiled the lexicon takes no more lexemes.  Nothing else is refused where a call reads,
and what the automaton might complain about never comes up (`Tokenizer.callAll_refusals`).

One chunk is the step that carries this (`Tokenizer.Reachable.consume_refusal`).  The automaton is
where some walker is and so can go on, which keeps the tokenizer from being poisoned; the rest is an
induction over the calls.
-/

namespace Lexing

/-! ## Refused definitions -/

section Frozen

variable (d : Definition) (mode : Mode) (draft : Draft)

namespace Definition

/-- A definition that is refused is not refused for coming too late. -/
lemma toDefault_ne_frozen : d.toDefault ≠ .error .frozen := by
  unfold toDefault checkKind
  grind

lemma toLexeme_ne_frozen : d.toLexeme mode ≠ .error .frozen := by
  intro h
  have hchecks := d.checks_toLexeme mode
  rw [h] at hchecks
  cases hchecks with
  | kind _ hfault => exact hfault
  | symbols _ _ hfault => exact hfault

end Definition

lemma Draft.setDefault_ne_frozen : draft.setDefault d ≠ .error .frozen := by
  have hd := Definition.toDefault_ne_frozen d
  unfold setDefault
  grind

lemma Draft.add_ne_frozen : draft.add d ≠ .error .frozen := by
  have hd := Definition.toLexeme_ne_frozen d draft.mode
  unfold add
  grind

end Frozen

/-! ## Refused chunks -/

/-- The error is the caller's: none of an automaton, nor of one that went wrong before. -/
def PipelineError.IsRefusal : PipelineError → Prop
  | automaton _ => False
  | poisoned => False
  | _ => True

/-- The kind of chunks that are read in a mode. -/
def Mode.chunkKind : Mode → ChunkKind
  | character => .text
  | token => .token

/-- What is wrong with a chunk in a mode: its kind, or, if that is right, the kind of its token. -/
def Chunk.misfit? (chunk : Chunk) (mode : Mode) : Option PipelineError :=
  if chunk.kind ≠ mode.chunkKind then
    some (.chunkMismatch mode chunk.kind)
  else
    match chunk with
    | text _ => none
    | token t => if t.kind = endOfStreamTag then some (.reservedTokenKind t.kind) else none

lemma Chunk.suits_iff {chunk : Chunk} {mode : Mode} :
    chunk.Suits mode ↔ chunk.misfit? mode = none := by
  cases chunk <;> cases mode <;> simp [Suits, misfit?, kind, Mode.chunkKind]

namespace Tokenizer

variable {t t' t₀ : Tokenizer} {chunk : Chunk} {d : Definition} {fault : PipelineError}

/-- What is wrong with a chunk is what is reported. -/
lemma symbols_of_misfit (specials : List Char) (h : chunk.misfit? t.config.mode = some fault) :
    t.symbols specials chunk = .error fault := by
  cases chunk with
  | text content =>
    cases hmode : t.config.mode <;>
      simp_all [Chunk.misfit?, Chunk.kind, Mode.chunkKind, symbols]
  | token token =>
    cases hmode : t.config.mode <;>
      simp_all [Chunk.misfit?, Chunk.kind, Mode.chunkKind, symbols]

lemma consume_of_misfit {machine : Machine} (hopen : t.status = .accepting)
    (hmachine : t.machine = .ok machine) (h : chunk.misfit? t.config.mode = some fault) :
    t.consume chunk = (.error fault, { t with phase := .compiled machine }) := by
  rw [consume_of_machine hopen hmachine]
  exact run_of_error (symbols_of_misfit machine.specials h)

/-- The lexicon under construction, as long as it has not been compiled. -/
def draft? (t : Tokenizer) : Option Draft :=
  match t.phase with
  | .drafting draft => some draft
  | .compiled _ => none

/-- What a chunk is refused for: the end of the stream, the lack of a lexicon, or the chunk itself,
whichever comes first. -/
def refusal? (t : Tokenizer) (chunk : Chunk) : Option PipelineError :=
  if t.status = .finished then
    some .finished
  else if t.table?.isNone && (t.draft?.bind Draft.defaultLexeme?).isNone then
    some (.lexicon .missingDefault)
  else
    chunk.misfit? t.config.mode

lemma refusal?_of_finished (h : t.status = .finished) : t.refusal? chunk = some .finished :=
  if_pos h

/-- Where there is a machine there is a lexicon. -/
lemma refusal?_of_machine {machine : Machine} (hopen : t.status = .accepting)
    (hmachine : t.machine = .ok machine) : t.refusal? chunk = chunk.misfit? t.config.mode := by
  rw [refusal?, if_neg (by simp [hopen])]
  cases hphase : t.phase with
  | compiled machine' => simp [table?, hphase]
  | drafting draft =>
    obtain ⟨l, hl⟩ := exists_toLexicon hphase hmachine
    obtain ⟨_, _, hdefault, _⟩ := Draft.exists_of_toLexicon hl
    simp [draft?, hphase, hdefault]

/-- Where there is none, and none could be compiled, the default lexeme is missing. -/
lemma Reachable.refusal?_of_machine_eq_error (h : t.Reachable) {cause : LexiconError}
    (hopen : t.status = .accepting) (hmachine : t.machine = .error cause) :
    cause = .missingDefault ∧ t.refusal? chunk = some (.lexicon cause) := by
  obtain ⟨draft, hphase⟩ := exists_draft_of_machine_eq_error hmachine
  have hfault := h.fault?_eq_none hphase
  cases hdefault : draft.defaultLexeme? with
  | some lexeme => simp [machine, hphase, Draft.toLexicon, hfault, hdefault] at hmachine
  | none =>
    simp only [machine, hphase, Draft.toLexicon, hfault, hdefault, Except.error.injEq] at hmachine
    subst hmachine
    simp [refusal?, hopen, table?, draft?, hphase, hdefault]

/-! ## One call -/

/-- **One chunk.**  It is read, or refused for the reason that can be told before. -/
lemma Reachable.consume_refusal (h : t.Reachable) (hstatus : t.status ≠ .poisoned) (chunk : Chunk) :
    (t.consume chunk).2.status = t.status ∧
      (t.refusal? chunk = none ∧ (∃ tokens, (t.consume chunk).1 = .ok tokens) ∨
        ∃ fault, t.refusal? chunk = some fault ∧ (t.consume chunk).1 = .error fault) := by
  cases hopen : t.status with
  | poisoned => exact absurd hopen hstatus
  | finished =>
    rw [consume_of_finished hopen]
    exact ⟨hopen, .inr ⟨_, refusal?_of_finished hopen, rfl⟩⟩
  | accepting =>
    cases hmachine : t.machine with
    | error cause =>
      rw [consume_of_error hopen hmachine]
      exact ⟨hopen, .inr ⟨_, (h.refusal?_of_machine_eq_error hopen hmachine).2, rfl⟩⟩
    | ok machine =>
      rw [refusal?_of_machine hopen hmachine]
      cases hchunk : chunk.misfit? t.config.mode with
      | some fault =>
        rw [consume_of_misfit hopen hmachine hchunk]
        exact ⟨hopen, .inr ⟨fault, rfl, rfl⟩⟩
      | none =>
        obtain ⟨l, w, hat⟩ := h.exists_at hmachine
        obtain ⟨_, _, _, tokens, _, _, _, hconsume, _⟩ :=
          hat.exists_consume hopen (Chunk.suits_iff.2 hchunk)
        rw [hconsume]
        exact ⟨hopen, .inl ⟨rfl, tokens, rfl⟩⟩

/-- **The end.** -/
lemma Reachable.exists_finish (h : t.Reachable) (hstatus : t.status ≠ .poisoned) :
    ∃ tokens t', t.finish = (.ok tokens, t') ∧ t'.status = .finished := by
  have hfinish : ∃ tokens t', t.finish = (.ok tokens, t') := by
    cases hopen : t.status with
    | poisoned => exact absurd hopen hstatus
    | finished => exact ⟨_, _, finish_of_finished hopen⟩
    | accepting =>
      cases hmachine : t.machine with
      | error cause => exact ⟨_, _, finish_of_machine_eq_error hopen hmachine⟩
      | ok machine =>
        obtain ⟨l, w, hat⟩ := h.exists_at hmachine
        obtain ⟨_, tokens, t', hfinish, _⟩ := hat.exists_finish_eq hopen
        exact ⟨tokens, t', hfinish⟩
  obtain ⟨tokens, t', hfinish⟩ := hfinish
  exact ⟨tokens, t', hfinish, status_of_finish hfinish⟩

lemma setDefault_eq_frozen_iff : t.setDefault d = .error .frozen ↔ t.table? ≠ none := by
  unfold setDefault table?
  cases t.phase with
  | compiled machine => simp
  | drafting draft =>
    have hd := Draft.setDefault_ne_frozen d draft
    grind

lemma addLexeme_eq_frozen_iff : t.addLexeme d = .error .frozen ↔ t.table? ≠ none := by
  unfold addLexeme table?
  cases t.phase with
  | compiled machine => simp
  | drafting draft =>
    have hd := Draft.add_ne_frozen d draft
    grind

/-! ## Several calls -/

/-- A call to a tokenizer, to set it up or to use it. -/
inductive Operation where
  | setDefault (d : Definition)
  | addLexeme (d : Definition)
  | prepare
  | call (c : Call)
  deriving Inhabited

/-- The result of a call to set up.  It hands out nothing, and changes nothing if it fails. -/
def report (t : Tokenizer) : Except LexiconError Tokenizer →
    Except PipelineError (List Token) × Tokenizer
  | .error cause => (.error (.lexicon cause), t)
  | .ok t' => (.ok [], t')

/-- What a call does. -/
def operate (t : Tokenizer) : Operation → Except PipelineError (List Token) × Tokenizer
  | .setDefault d => t.report (t.setDefault d)
  | .addLexeme d => t.report ((t.addLexeme d).map Prod.snd)
  | .prepare => t.report t.prepare
  | .call c => t.call c

/-- Whether the stream has ended after a call, given whether it had before. -/
def endsStream (ended : Bool) : Operation → Bool
  | .call .finish => true
  | .call .restart => false
  | _ => ended

/-- Whether the stream has ended after several calls: it was ended, and not restarted since. -/
def ended (operations : List Operation) : Bool :=
  operations.foldl endsStream false

/-- The status of a tokenizer whose stream has ended or not. -/
def statusOf (ended : Bool) : Status :=
  if ended then .finished else .accepting

/-- The two ways to make a tokenizer. -/
inductive Made : Tokenizer → Prop where
  | new (config : Config) : Made (.new config)
  | withTable {config : Config} {l : Lexicon} {t : Tokenizer} (hl : l.Accepted)
      (h : withTable config l.compile = .ok t) : Made t

/-- The tokenizer is where calls lead, and its stream has ended or not. -/
structure Runs (t : Tokenizer) (ended : Bool) : Prop where
  reachable : t.Reachable
  status_eq : t.status = statusOf ended

lemma Runs.ne_poisoned {e : Bool} (h : t.Runs e) : t.status ≠ .poisoned := by
  rw [h.status_eq, statusOf]
  split <;> decide

lemma Runs.finished_iff {e : Bool} (h : t.Runs e) : t.status = .finished ↔ e = true := by
  rw [h.status_eq, statusOf]
  split <;> simp_all

lemma Made.runs (h : t.Made) : t.Runs false := by
  cases h with
  | new config => exact ⟨.new config, rfl⟩
  | withTable hl h => exact ⟨.withTable hl h, (begins_withTable hl h).accepting⟩

/-- Setting up has nothing to do with the stream. -/
lemma Runs.report {e : Bool} (h : t.Runs e) {r : Except LexiconError Tokenizer}
    (hr : ∀ t', r = .ok t' → t'.Reachable ∧ t'.status = t.status) :
    (t.report r).2.Runs e ∧ ∀ fault, (t.report r).1 = .error fault → fault.IsRefusal := by
  cases r with
  | error cause =>
    refine ⟨h, fun fault hfault => ?_⟩
    cases hfault
    trivial
  | ok t' =>
    obtain ⟨ht', hstatus⟩ := hr t' rfl
    exact ⟨⟨ht', hstatus.trans h.status_eq⟩, nofun⟩

lemma isRefusal_of_refusal? (h : t.refusal? chunk = some fault) : fault.IsRefusal := by
  unfold refusal? Chunk.misfit? at h
  grind [PipelineError.IsRefusal]

/-- **One call.**  It leads on to where calls lead, and does not fail for a reason that is not the
caller's.  Only the two calls for it end a stream or start a new one. -/
lemma Runs.operate {e : Bool} (h : t.Runs e) (o : Operation) :
    (t.operate o).2.Runs (endsStream e o) ∧
      ∀ fault, (t.operate o).1 = .error fault → fault.IsRefusal := by
  rcases o with d | d | _ | chunk | _ | _
  · refine h.report fun t' ht' => ⟨h.reachable.setDefault ht', ?_⟩
    obtain ⟨_, _, _, _, rfl⟩ := exists_of_setDefault ht'
    rfl
  · refine h.report fun t' ht' => ?_
    cases hd : t.addLexeme d with
    | error cause => simp [hd, Except.map] at ht'
    | ok r =>
      obtain rfl : r.2 = t' := by simpa [hd, Except.map] using ht'
      refine ⟨h.reachable.addLexeme hd, ?_⟩
      obtain ⟨_, _, _, _, hr⟩ := exists_of_addLexeme hd
      rw [hr]
  · refine h.report fun t' ht' => ⟨h.reachable.prepare ht', ?_⟩
    obtain ⟨_, _, rfl⟩ := exists_of_prepare ht'
    rfl
  · obtain ⟨hstatus, hresult⟩ := h.reachable.consume_refusal h.ne_poisoned chunk
    refine ⟨⟨h.reachable.consume chunk, hstatus.trans h.status_eq⟩, fun fault hfault => ?_⟩
    have hfault' : (t.consume chunk).1 = .error fault := hfault
    rcases hresult with ⟨-, tokens, hok⟩ | ⟨fault', hrefusal, herror⟩
    · cases hfault'.symm.trans hok
    · cases hfault'.symm.trans herror
      exact isRefusal_of_refusal? hrefusal
  · obtain ⟨tokens, t', hfinish, hstatus⟩ := h.reachable.exists_finish h.ne_poisoned
    have hreachable := h.reachable.finish
    rw [hfinish] at hreachable
    have hcall : t.operate (.call .finish) = (.ok tokens, t') := hfinish
    rw [hcall]
    exact ⟨⟨hreachable, hstatus⟩, nofun⟩
  · exact ⟨⟨h.reachable.restart, rfl⟩, nofun⟩

/-- **Several calls.** -/
lemma Runs.callAll_operate {e : Bool} (h : t.Runs e) (operations : List Operation) :
    (callAll Tokenizer.operate t operations).2.Runs (operations.foldl endsStream e) ∧
      ∀ fault, Except.error fault ∈ (callAll Tokenizer.operate t operations).1 →
        fault.IsRefusal := by
  induction operations generalizing t e with
  | nil => exact ⟨h, by simp [callAll]⟩
  | cons o operations ih =>
    obtain ⟨ht', hone⟩ := h.operate o
    obtain ⟨hlast, hall⟩ := ih ht'
    refine ⟨hlast, fun fault hfault => ?_⟩
    rcases List.mem_cons.1 hfault with hfault | hfault
    · exact hone fault hfault.symm
    · exact hall fault hfault

/-- **What is refused, over whole runs.**  After any calls to a tokenizer, failed ones included:
a chunk is refused for exactly the reason that can be told before, if there is one, where the stream
has ended if the calls ended it and did not restart it since; ending and restarting do not fail;
lexemes come too late if, and only if, there is a table; and there is a table or a draft of the
lexicon, but not both.  No call has reported an error of the automaton, or a tokenizer stopped by
one. -/
theorem callAll_refusals (hmade : t₀.Made) (operations : List Operation)
    {results : List (Except PipelineError (List Token))}
    (hrun : callAll operate t₀ operations = (results, t)) :
    (∀ chunk fault, (t.consume chunk).1 = .error fault ↔ t.refusal? chunk = some fault) ∧
      (t.status = .finished ↔ ended operations = true) ∧
      (∀ c ∈ [Call.finish, .restart], ∃ tokens, (t.call c).1 = .ok tokens) ∧
      (∀ d, t.setDefault d = .error .frozen ↔ t.table? ≠ none) ∧
      (∀ d, t.addLexeme d = .error .frozen ↔ t.table? ≠ none) ∧
      (t.draft? = none ↔ t.table? ≠ none) ∧
      ∀ fault, Except.error fault ∈ results →
        fault ≠ .poisoned ∧ ∀ cause, fault ≠ .automaton cause := by
  obtain ⟨hruns, hfaults⟩ := hmade.runs.callAll_operate operations
  rw [hrun] at hruns hfaults
  refine ⟨fun chunk fault => ?_, hruns.finished_iff, ?_, fun d => setDefault_eq_frozen_iff,
    fun d => addLexeme_eq_frozen_iff, ?_, fun fault hfault => ?_⟩
  · obtain ⟨-, ⟨hnone, tokens, hok⟩ | ⟨fault', hsome, herror⟩⟩ :=
      hruns.reachable.consume_refusal hruns.ne_poisoned chunk
    · simp [hnone, hok]
    · simp [hsome, herror]
  · obtain ⟨tokens, t', hfinish, -⟩ := hruns.reachable.exists_finish hruns.ne_poisoned
    simp [call, hfinish]
  · unfold draft? table?
    cases t.phase <;> simp
  · have := hfaults fault hfault
    unfold PipelineError.IsRefusal at this
    grind

/-- A tokenizer that gets a chunk before it has a lexicon, and another after its stream has ended.
Its lexicon has not been compiled in between. -/
theorem callAll_refusals_unprepared :
    ∃ results t,
      callAll operate (new {})
          [.call (.consume (.text "a")), .setDefault { kind := "text" }, .call .finish] =
        (results, t) ∧
      results.head? = some (.error (.lexicon .missingDefault)) ∧
      (t.consume (.text "b")).1 = .error .finished ∧
        ∀ d, t.addLexeme d ≠ .error .frozen := by
  obtain ⟨hchunks, hended, -, -, hlexemes, -⟩ := callAll_refusals (.new {})
    [.call (.consume (.text "a")), .setDefault { kind := "text" }, .call .finish] rfl
  refine ⟨_, _, rfl, rfl, ?_, fun d hfrozen => (hlexemes d).1 hfrozen rfl⟩
  exact (hchunks _ _).2 (refusal?_of_finished (hended.2 rfl))

end Tokenizer

end Lexing
