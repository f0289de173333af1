import Lexing.Proofs.Flow
import Lexing.Proofs.Hollow
import Lexing.Proofs.Refusals

/-!
# Tokenizers that differ in values only

Two open tokenizers are *alike* if their automata are alike when hollow (`Tokenizer.Alike`).  At the
start of a stream they are if their lexicons differ at most in what attributes compute
(`Tokenizer.Begins.alike`).

Chunks for the two *agree* if they are read as symbols with the same tags and positions
(`Chunk.Agrees`).  After such chunks the two are alike again, and both have gone through the same,
whether the chunks suit them (`Tokenizer.Alike.exists_consume`) or not
(`Tokenizer.Alike.exists_consume_eq_error`).  By induction this is so of several chunks and the end
of the stream (`Tokenizer.Alike.read`).
-/

namespace Lexing

/-! ## What is compared -/

namespace Tokenizer

/-- The lexicons of the tokenizers differ at most in what their attributes compute. -/
def SameButValues (t u : Tokenizer) : Prop :=
  ∃ l l', t.lexicon? = .ok l ∧ u.lexicon? = .ok l' ∧ l.hollow = l'.hollow

/-- The tokenizers are reading and cannot be told apart without values. -/
structure Alike (t u : Tokenizer) : Prop where
  left : t.Open
  right : u.Open
  exists_machine : ∃ machine machine', t.machine = .ok machine ∧ u.machine = .ok machine' ∧
    machine.automaton.hollow = machine'.automaton.hollow

end Tokenizer

/-- Two chunks that two tokenizers get agree: tokens in kind and position, and texts in the tags and
positions of the symbols that they are read as. -/
def Chunk.Agrees (t u : Tokenizer) : Chunk → Chunk → Prop
  | .token x, .token y => x.hollow = y.hollow
  | .text x, .text y =>
    (t.reads (.text x)).map Symbol.hollow = (u.reads (.text y)).map Symbol.hollow
  | _, _ => False

/-- Chunks that two tokenizers get, one after the other, agree. -/
inductive Chunk.AgreeAll : Tokenizer → Tokenizer → List Chunk → List Chunk → Prop
  | nil {t u : Tokenizer} : AgreeAll t u [] []
  | cons {t u : Tokenizer} {c d : Chunk} {chunks chunks' : List Chunk} (h : c.Agrees t u d)
      (hrest : AgreeAll (t.consume c).2 (u.consume d).2 chunks chunks') :
      AgreeAll t u (c :: chunks) (d :: chunks')

/-! ## Alike tokenizers -/

namespace Tokenizer

variable {t u : Tokenizer}

/-- At the start of a stream the walker is at its start. -/
lemma Begins.exists_at {l : Lexicon} (h : t.Begins) (hl : t.lexicon? = .ok l) :
    t.At l .start := by
  cases hmachine : t.machine with
  | error fault => simp [lexicon?, hmachine, Except.map] at hl
  | ok machine =>
    obtain ⟨l', w, hat⟩ := h.reachable.exists_at hmachine
    obtain rfl : l' = l := Except.ok.inj (hat.lexicon?_eq.symm.trans hl)
    have hempty : w.history = .empty := by
      have hsymbols := hat.pending_eq.symm.trans h.pending_eq
      obtain ⟨node, ⟨visits⟩⟩ := w
      exact congrArg History.mk (List.map_eq_nil_iff.1 hsymbols)
    exact hat.traced.eq_start hempty ▸ hat

/-- Tokenizers at the start of a stream are alike if their lexicons are. -/
lemma Begins.alike (ht : t.Begins) (hu : u.Begins) (h : t.SameButValues u) : t.Alike u := by
  obtain ⟨l, l', hl, hl', hsame⟩ := h
  have hat := ht.exists_at hl
  have hat' := hu.exists_at hl'
  refine ⟨ht.toOpen, hu.toOpen, _, _, hat.machine_eq, hat'.machine_eq, ?_⟩
  have hstart (l : Lexicon) : (Walker.start.automaton (.ofLexicon l) l).hollow =
      .new l.hollow.compile := by
    rw [Walker.automaton_start (Trie.fits_ofLexicon l), Automaton.hollow_new, l.compile_hollow]
    rfl
  exact (hstart l).trans (hsame ▸ (hstart l').symm)

lemma Alike.exists_at (h : t.Alike u) :
    ∃ l w l' w', t.At l w ∧ u.At l' w' ∧
      (w.automaton (.ofLexicon l) l).hollow = (w'.automaton (.ofLexicon l') l').hollow := by
  obtain ⟨machine, machine', hmachine, hmachine', hsame⟩ := h.exists_machine
  obtain ⟨l, w, hat⟩ := h.left.reachable.exists_at hmachine
  obtain ⟨l', w', hat'⟩ := h.right.reachable.exists_at hmachine'
  cases hmachine.symm.trans hat.machine_eq
  cases hmachine'.symm.trans hat'.machine_eq
  exact ⟨l, w, l', w', hat, hat', hsame⟩

lemma Alike.mode_eq (h : t.Alike u) : t.config.mode = u.config.mode := by
  obtain ⟨l, w, l', w', hat, hat', hsame⟩ := h.exists_at
  have hmode : l.mode = l'.mode := congrArg (fun a => a.table.lexicon.mode) hsame
  rw [← hat.mode_eq, ← hat'.mode_eq, hmode]

lemma Alike.takes (h : t.Alike u) : t.Takes ∧ u.Takes := by
  obtain ⟨_, _, hmachine, hmachine', _⟩ := h.exists_machine
  exact ⟨h.left.takes hmachine, h.right.takes hmachine'⟩

end Tokenizer

/-! ## Chunks that agree -/

namespace Chunk

variable {t u : Tokenizer} {c d : Chunk}

/-- What is wrong with a chunk does not depend on values. -/
lemma Agrees.misfit?_eq (h : c.Agrees t u d) (mode : Mode) : c.misfit? mode = d.misfit? mode := by
  match c, d with
  | .text _, .text _ => rfl
  | .token ⟨kind, _, position⟩, .token ⟨kind', _, position'⟩ =>
    obtain ⟨rfl, rfl⟩ : kind = kind' ∧ position = position' := by
      simpa [Agrees, Token.hollow] using h
    rfl
  | .text _, .token _ => exact h.elim
  | .token _, .text _ => exact h.elim

lemma Agrees.suits_iff (h : c.Agrees t u d) (mode : Mode) : c.Suits mode ↔ d.Suits mode := by
  rw [Chunk.suits_iff, Chunk.suits_iff, h.misfit?_eq]

/-- Chunks that agree are read as symbols that agree. -/
lemma Agrees.hollow_reads (h : c.Agrees t u d) (halike : t.Alike u) :
    (t.reads c).map Symbol.hollow = (u.reads d).map Symbol.hollow := by
  match c, d with
  | .text _, .text _ => exact h
  | .token ⟨kind, _, position⟩, .token ⟨kind', _, position'⟩ =>
    obtain ⟨machine, machine', hmachine, hmachine', _⟩ := halike.exists_machine
    obtain ⟨rfl, rfl⟩ : kind = kind' ∧ position = position' := by
      simpa [Agrees, Token.hollow] using h
    simp only [Tokenizer.reads, hmachine, hmachine', Tokenizer.symbols, halike.mode_eq]
    cases u.config.mode with
    | character => rfl
    | token =>
      by_cases hend : kind = endOfStreamTag
      · simp [hend]
      · simp [hend, Symbol.hollow, Symbol.ofToken]
  | .text _, .token _ => exact h.elim
  | .token _, .text _ => exact h.elim

/-- Tokens of the same kinds and positions agree, whoever gets them. -/
lemma agreeAll_map_token {tokens tokens' : List Token}
    (h : tokens.map Token.hollow = tokens'.map Token.hollow) (t u : Tokenizer) :
    AgreeAll t u (tokens.map .token) (tokens'.map .token) := by
  induction tokens generalizing tokens' t u with
  | nil =>
    obtain rfl := List.map_eq_nil_iff.1 h.symm
    exact .nil
  | cons token tokens ih =>
    obtain ⟨token', tokens', rfl, htoken, htokens⟩ := List.map_eq_cons_iff.1 h.symm
    exact .cons htoken.symm (ih htokens.symm _ _)

end Chunk

/-! ## One call -/

namespace Tokenizer

variable {t u : Tokenizer} {c d : Chunk}

/-- A tokenizer that is not stopped by a chunk stays open. -/
lemma Open.consume {t' : Tokenizer} {result : Except PipelineError (List Token)} (h : t.Open)
    (hconsume : t.consume c = (result, t')) (hstatus : t'.status = .accepting) : t'.Open := by
  have hreachable := h.reachable.consume c
  rw [hconsume] at hreachable
  exact ⟨hreachable, hstatus⟩

/-- **One chunk.** -/
lemma Alike.exists_consume (h : t.Alike u) (hagrees : c.Agrees t u d)
    (hchunk : c.Suits t.config.mode) :
    ∃ tokens t' tokens' u', t.consume c = (.ok tokens, t') ∧ u.consume d = (.ok tokens', u') ∧
      tokens.map Token.hollow = tokens'.map Token.hollow ∧ t'.Alike u' ∧
      (t.passagesOfConsume c).map Passage.hollow = (u.passagesOfConsume d).map Passage.hollow := by
  obtain ⟨l, w, l', w', hat, hat', hsame⟩ := h.exists_at
  have hopen := h.left.accepting
  have hopen' := h.right.accepting
  have hchunk' : d.Suits u.config.mode := h.mode_eq ▸ (hagrees.suits_iff _).1 hchunk
  obtain ⟨ss, _, _, tokens, _, hsymbols, hrun, hconsume, hat₁, _⟩ :=
    hat.exists_consume hopen hchunk
  obtain ⟨ss', _, _, tokens', _, hsymbols', hrun', hconsume', hat₁', _⟩ :=
    hat'.exists_consume hopen' hchunk'
  have hss := hagrees.hollow_reads h
  rw [hat.reads_eq hsymbols, hat'.reads_eq hsymbols'] at hss
  obtain ⟨htokens, hlast, hpassages⟩ := Automaton.driveAll_alike hsame hss hrun hrun'
  have hleft := h.left.consume hconsume hopen
  have hright := h.right.consume hconsume' hopen'
  refine ⟨tokens, _, tokens', _, hconsume, hconsume', htokens,
    ⟨hleft, hright, _, _, hat₁.machine_eq, hat₁'.machine_eq, hlast⟩, ?_⟩
  rw [hat.passagesOfConsume_eq hopen, hat'.passagesOfConsume_eq hopen', hat.reads_eq hsymbols,
    hat'.reads_eq hsymbols']
  exact hpassages

/-- A chunk that has something wrong with it is not read. -/
lemma passagesOfConsume_of_misfit {fault : PipelineError}
    (h : c.misfit? t.config.mode = some fault) : t.passagesOfConsume c = [] := by
  have hreads : t.reads c = [] := by
    unfold reads
    split
    · rfl
    · rw [symbols_of_misfit _ h]
  unfold passagesOfConsume
  split
  · rw [hreads]
    rfl
  · rfl

/-- **A refused chunk.** -/
lemma Alike.exists_consume_eq_error (h : t.Alike u) (hagrees : c.Agrees t u d)
    (hchunk : ¬ c.Suits t.config.mode) :
    ∃ fault t' u', t.consume c = (.error fault, t') ∧ u.consume d = (.error fault, u') ∧
      t'.Alike u' ∧ t.passagesOfConsume c = [] ∧ u.passagesOfConsume d = [] := by
  obtain ⟨machine, machine', hmachine, hmachine', hsame⟩ := h.exists_machine
  have hopen := h.left.accepting
  have hopen' := h.right.accepting
  obtain ⟨fault, hfault⟩ := Option.ne_none_iff_exists'.1 fun hnone =>
    hchunk (Chunk.suits_iff.2 hnone)
  have hfault' : d.misfit? u.config.mode = some fault := by
    rw [← hagrees.misfit?_eq, ← h.mode_eq, hfault]
  have hconsume := consume_of_misfit hopen hmachine hfault
  have hconsume' := consume_of_misfit hopen' hmachine' hfault'
  have hleft := h.left.consume hconsume hopen
  have hright := h.right.consume hconsume' hopen'
  exact ⟨fault, _, _, hconsume, hconsume',
    ⟨hleft, hright, _, _, machine_of_compiled rfl, machine_of_compiled rfl, hsame⟩,
    passagesOfConsume_of_misfit hfault, passagesOfConsume_of_misfit hfault'⟩

/-- **The end.** -/
lemma Alike.exists_finish (h : t.Alike u) :
    ∃ tokens t' tokens' u', t.finish = (.ok tokens, t') ∧ u.finish = (.ok tokens', u') ∧
      tokens.map Token.hollow = tokens'.map Token.hollow ∧
      t'.status = .finished ∧ u'.status = .finished ∧
      t.passagesOfFinish.map Passage.hollow = u.passagesOfFinish.map Passage.hollow := by
  obtain ⟨l, w, l', w', hat, hat', hsame⟩ := h.exists_at
  have hopen := h.left.accepting
  have hopen' := h.right.accepting
  obtain ⟨_, tokens, t', hfinish, hflush, hstatus, _⟩ := hat.exists_finish_eq hopen
  obtain ⟨_, tokens', u', hfinish', hflush', hstatus', _⟩ := hat'.exists_finish_eq hopen'
  obtain ⟨htokens, _, hpassages⟩ := Automaton.flush_alike hsame hflush hflush'
  refine ⟨tokens, t', tokens', u', hfinish, hfinish', htokens, hstatus, hstatus', ?_⟩
  rw [hat.passagesOfFinish_eq hopen, hat'.passagesOfFinish_eq hopen']
  exact hpassages

/-! ## Several chunks -/

/-- The tokenizers are alike, or, if the stream has been ended, both have ended it. -/
def AlikeAfter (ends : Bool) (t u : Tokenizer) : Prop :=
  if ends then t.status = .finished ∧ u.status = .finished else t.Alike u

/-- **Several chunks.**  Induction over the chunks. -/
lemma Alike.read {t' u' : Tokenizer} {chunks chunks' : List Chunk} {ends : Bool}
    {tokens tokens' : List Token} (h : t.Alike u) (hagree : Chunk.AgreeAll t u chunks chunks')
    (hok : (Pipeline.single t).read ends chunks = (.ok tokens, .single t'))
    (hok' : (Pipeline.single u).read ends chunks' = (.ok tokens', .single u')) :
    tokens.map Token.hollow = tokens'.map Token.hollow ∧ t'.AlikeAfter ends u' ∧
      (t.passages ends chunks).map Passage.hollow =
        (u.passages ends chunks').map Passage.hollow := by
  induction hagree generalizing tokens tokens' with
  | nil =>
    rw [Pipeline.read_nil] at hok hok'
    cases ends with
    | false =>
      cases hok
      cases hok'
      exact ⟨rfl, h, rfl⟩
    | true =>
      obtain ⟨_, hfinish, hsame⟩ := Pipeline.finish_single_eq_iff.1 hok
      obtain ⟨_, hfinish', hsame'⟩ := Pipeline.finish_single_eq_iff.1 hok'
      cases hsame
      cases hsame'
      obtain ⟨_, _, _, _, hone, hone', htokens, hstatus, hstatus', hpassages⟩ := h.exists_finish
      cases hfinish.symm.trans hone
      cases hfinish'.symm.trans hone'
      exact ⟨htokens, ⟨hstatus, hstatus'⟩, hpassages⟩
  | cons hchunk hrest ih =>
    obtain ⟨first, _, rest, hone, hmore, rfl⟩ := Pipeline.read_cons_eq_ok_iff.1 hok
    obtain ⟨first', _, rest', hone', hmore', rfl⟩ := Pipeline.read_cons_eq_ok_iff.1 hok'
    obtain ⟨t₁, hconsume, rfl⟩ := Pipeline.consume_single_eq_iff.1 hone
    obtain ⟨u₁, hconsume', rfl⟩ := Pipeline.consume_single_eq_iff.1 hone'
    obtain ⟨_, hsuits⟩ := h.left.takes_of_consume hconsume
    obtain ⟨_, _, _, _, hc, hc', htokens, h₁, hpassages⟩ := h.exists_consume hchunk hsuits
    cases hconsume.symm.trans hc
    cases hconsume'.symm.trans hc'
    rw [hconsume, hconsume'] at ih
    obtain ⟨hmoreTokens, hlast, hmorePassages⟩ := ih h₁ hmore hmore'
    refine ⟨?_, hlast, ?_⟩
    · rw [List.map_append, List.map_append, htokens, hmoreTokens]
    · rw [passages, passages, List.map_append, List.map_append, hpassages, hconsume, hconsume',
        hmorePassages]

end Tokenizer

end Lexing
