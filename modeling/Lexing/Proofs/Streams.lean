import Lexing.Pipeline.TokenStream
import Lexing.Proofs.Coverage

/-!
# Tokens on demand

However often the next token is asked for, what has been answered so far tells where the stream of
tokens is (`TokenStream.Reads`): still running, with some tokens of the last chunk left; ended,
since the input was over; or stopped by an error.

If there was no error, the early stop ends the stream, and what it hands out completes what was
handed out before to the tokens of a run over the chunks that were pulled
(`TokenStream.exists_finish_covers`).  After an error this is not so: the early stop takes the
sequence for ended, while the pipeline still goes on with what was pending
(`TokenStream.exists_finish_of_rejected`).  It has to be ended by itself.
-/

namespace Lexing

variable {s : Shape}

/-! ## Pipelines that have been ended -/

/-- Once the stream has been ended, ending it again changes nothing. -/
lemma Pipeline.finish_again {p q : Pipeline s} {tokens : List Token}
    (h : p.finish = (.ok tokens, q)) : q.finish = (.ok [], q) := by
  induction s generalizing tokens with
  | single =>
    cases p with
    | single t =>
      obtain ⟨t', hfinish, rfl⟩ := finish_single_eq_iff.1 h
      exact finish_single_eq_iff.2 ⟨t', Tokenizer.finish_again hfinish, rfl⟩
  | chain s₁ s₂ ih₁ ih₂ =>
    cases p with
    | chain first second =>
      obtain ⟨flushed, first', second', hfirst, hsecond, rfl⟩ := finish_chain_eq_ok_iff.1 h
      obtain ⟨_, second₁, last, _, hlast, _⟩ := readAll_eq_ok_iff.1 hsecond
      refine finish_chain_eq_ok_iff.2 ⟨[], first', second', ih₁ hfirst, ?_, rfl⟩
      exact readAll_eq_ok_iff.2 ⟨[], second', [], rfl, ih₂ hlast, rfl⟩

/-- Passes that take chunks go on taking them. -/
lemma Pipeline.Takes.of_consumeAll {p q : Pipeline s} {chunks : List Chunk} {tokens : List Token}
    (h : p.Takes) (hall : p.consumeAll chunks = (.ok tokens, q)) : q.Takes ∧ q.mode = p.mode := by
  have hchunks := takes_of_consumeAll h.every_open hall
  obtain ⟨_, _, hall', hq, hmode, _⟩ :=
    h.exists_consumeAll fun chunk hchunk => (hchunks chunk hchunk).2
  cases hall.symm.trans hall'
  exact ⟨hq, hmode⟩

/-- They refuse only what does not suit the first of them. -/
lemma Pipeline.Takes.not_suits_of_consume {p q : Pipeline s} {chunk : Chunk} {fault : PipelineError}
    (h : p.Takes) (hchunk : p.consume chunk = (.error fault, q)) : ¬ chunk.Suits p.mode := by
  intro hsuits
  obtain ⟨_, _, hall, _⟩ := h.exists_consumeAll (List.forall_mem_singleton.2 hsuits)
  obtain ⟨_, _, _, hone, _⟩ := consumeAll_cons_eq_ok_iff.1 hall
  cases hchunk.symm.trans hone

/-- A chunk that is refused changes nothing in what ending the stream hands out. -/
lemma Pipeline.Takes.exists_finish_of_not_suits {p : Pipeline s} {chunk : Chunk} (h : p.Takes)
    (hchunk : ¬ chunk.Suits p.mode) :
    ∃ fault p', p.consume chunk = (.error fault, p') ∧
      ∃ last q q', p.finish = (.ok last, q) ∧ p'.finish = (.ok last, q') := by
  induction p with
  | single t =>
    have ht := takes_single_iff.1 h
    obtain ⟨l, w, hat⟩ := ht.exists_at
    obtain ⟨fault, hconsume⟩ := hat.exists_consume_eq_error ht.accepting hchunk
    have hat' := hat.compiled hat.traced t.cursor t.status
    obtain ⟨_, last, u, hfinish, hflush, _⟩ := hat.exists_finish_eq ht.accepting
    obtain ⟨_, last', u', hfinish', hflush', _⟩ := hat'.exists_finish_eq ht.accepting
    cases hflush.symm.trans hflush'
    exact ⟨fault, _, consume_single_eq_iff.2 ⟨_, hconsume, rfl⟩, last, _, _,
      finish_single_eq_iff.2 ⟨u, hfinish, rfl⟩, finish_single_eq_iff.2 ⟨u', hfinish', rfl⟩⟩
  | chain first second ih _ =>
    obtain ⟨hfirst, hsecond, hmode⟩ := takes_chain_iff.1 h
    obtain ⟨fault, first', hconsume, flushed, u, u', hfinish, hfinish'⟩ := ih hfirst hchunk
    obtain ⟨_, _, hfinish'', hkinds⟩ := hfirst.exists_finish
    cases hfinish.symm.trans hfinish''
    obtain ⟨last, v, hrun⟩ := hsecond.exists_readAll (suits_of_mem_map_token hmode hkinds)
    exact ⟨fault, chain first' second, by simp only [consume, hconsume], last, _, _,
      finish_chain_eq_ok_iff.2 ⟨flushed, u, v, hfinish, hrun, rfl⟩,
      finish_chain_eq_ok_iff.2 ⟨flushed, u', v, hfinish', hrun, rfl⟩⟩

/-! ## Answers -/

namespace TokenStream

/-- What is answered when the next token is asked for. -/
abbrev Answer := Option (Except PipelineError Token)

/-- The answers when the next token is asked for several times, and the stream after them. -/
def takeNext (it : TokenStream s) : Nat → List Answer × TokenStream s
  | 0 => ([], it)
  | k + 1 => (it.next?.1 :: (takeNext it.next?.2 k).1, (takeNext it.next?.2 k).2)

/-- The answers that hand out tokens. -/
def answersOf (tokens : List Token) : List Answer :=
  tokens.map fun token => some (.ok token)

/-- The tokens that answers hand out. -/
def tokensOf (answers : List Answer) : List Token :=
  answers.filterMap fun
    | some (.ok token) => some token
    | _ => none

lemma answersOf_concat (tokens : List Token) (token : Token) :
    answersOf (tokens ++ [token]) = answersOf tokens ++ [some (.ok token)] :=
  List.map_append

lemma error_not_mem (tokens : List Token) (n : Nat) (fault : PipelineError) :
    some (.error fault) ∉ answersOf tokens ++ .replicate n none := by
  simp [answersOf]

lemma tokensOf_append (answers more : List Answer) :
    tokensOf (answers ++ more) = tokensOf answers ++ tokensOf more :=
  List.filterMap_append

@[simp] lemma tokensOf_answersOf (tokens : List Token) : tokensOf (answersOf tokens) = tokens := by
  simp [tokensOf, answersOf, List.filterMap_map]

@[simp] lemma tokensOf_replicate_none (n : Nat) : tokensOf (.replicate n none) = [] := by
  simp [tokensOf]

lemma tokensOf_stopped (tokens : List Token) (fault : PipelineError) (n : Nat) :
    tokensOf (answersOf tokens ++ some (.error fault) :: .replicate n none) = tokens := by
  rw [tokensOf_append, tokensOf_answersOf]
  simp [tokensOf]

/-- Where a stream of the tokens of `input` by the pipeline `p` is, once it has given the answers.
-/
inductive Reads (p : Pipeline s) (input : List Chunk) : List Answer → TokenStream s → Prop
  /-- Some chunks were pulled.  Their tokens are handed out or ready. -/
  | running {pulled rest : List Chunk} {tokens ready : List Token} {q : Pipeline s}
      (hinput : input = pulled ++ rest) (hall : p.consumeAll pulled = (.ok (tokens ++ ready), q)) :
      Reads p input (answersOf tokens) { stage := q, input := rest, ready }
  /-- All chunks were pulled, and the stream was ended. -/
  | ended {tokens ready : List Token} {q : Pipeline s} (n : Nat)
      (hrun : p.readAll input = (.ok (tokens ++ ready), q)) (hn : n = 0 ∨ ready = []) :
      Reads p input (answersOf tokens ++ .replicate n none)
        { stage := q, input := [], ready, done := true }
  /-- A chunk was refused, when the tokens of those before it had been handed out. -/
  | rejected {pulled rest : List Chunk} {chunk : Chunk} {tokens : List Token} {q q' : Pipeline s}
      {fault : PipelineError} (n : Nat) (hinput : input = pulled ++ chunk :: rest)
      (hall : p.consumeAll pulled = (.ok tokens, q))
      (hchunk : q.consume chunk = (.error fault, q')) :
      Reads p input (answersOf tokens ++ some (.error fault) :: .replicate n none)
        { stage := q', input := rest, done := true }
  /-- All chunks were pulled, and the stream could not be ended. -/
  | failed {tokens : List Token} {q q' : Pipeline s} {fault : PipelineError} (n : Nat)
      (hall : p.consumeAll input = (.ok tokens, q)) (hend : q.finish = (.error fault, q')) :
      Reads p input (answersOf tokens ++ some (.error fault) :: .replicate n none)
        { stage := q', input := [], done := true }

section Reads

variable {p : Pipeline s} {input : List Chunk} {answers : List Answer} {it : TokenStream s}

lemma reads_new (p : Pipeline s) (input : List Chunk) : Reads p input [] (new p input) := by
  have hall : p.consumeAll [] = (.ok ([] ++ []), p) := rfl
  exact .running (List.nil_append input).symm hall

/-- A token of the last chunk is handed out. -/
lemma reads_running_concat {q : Pipeline s} {pulled rest : List Chunk} {tokens ready : List Token}
    {token : Token} (hinput : input = pulled ++ rest)
    (hall : p.consumeAll pulled = (.ok (tokens ++ token :: ready), q)) :
    Reads p input (answersOf tokens ++ [some (.ok token)])
      { stage := q, input := rest, ready } := by
  rw [List.append_cons] at hall
  rw [← answersOf_concat]
  exact .running hinput hall

/-- A token that came out at the end of the stream is handed out. -/
lemma reads_ended_concat {q : Pipeline s} {tokens ready : List Token} {token : Token}
    (hrun : p.readAll input = (.ok (tokens ++ token :: ready), q)) :
    Reads p input (answersOf tokens ++ [some (.ok token)])
      { stage := q, input := [], ready, done := true } := by
  rw [List.append_cons] at hrun
  rw [← answersOf_concat, ← List.append_nil (answersOf _)]
  exact .ended 0 hrun (.inl rfl)

/-- Pulling goes on until there is an answer.  Induction over the chunks that are left. -/
lemma reads_pull {q : Pipeline s} {pulled rest : List Chunk} {tokens : List Token}
    (hinput : input = pulled ++ rest) (hall : p.consumeAll pulled = (.ok tokens, q)) :
    Reads p input (answersOf tokens ++ [(pull q rest).1]) (pull q rest).2 := by
  induction rest generalizing q pulled tokens with
  | nil =>
    rw [List.append_nil] at hinput
    subst hinput
    rw [pull]
    rcases hend : q.finish with ⟨fault | last, q'⟩
    · exact .failed 0 hall hend
    · have hrun := Pipeline.readAll_eq_ok_iff.2 ⟨tokens, q, last, hall, hend, rfl⟩
      cases last with
      | nil => exact .ended 1 hrun (.inr rfl)
      | cons token ready => exact reads_ended_concat hrun
  | cons chunk rest ih =>
    rw [pull]
    rcases hchunk : q.consume chunk with ⟨fault | out, q'⟩
    · exact .rejected 0 hinput hall hchunk
    · have hone : q.consumeAll [chunk] = (.ok (out ++ []), q') :=
        Pipeline.consumeAll_cons_eq_ok_iff.2 ⟨out, q', [], hchunk, rfl, rfl⟩
      rw [List.append_nil] at hone
      have hmore := Pipeline.consumeAll_append_eq_ok_iff.2 ⟨tokens, q, out, hall, hone, rfl⟩
      rw [List.append_cons] at hinput
      cases out with
      | nil =>
        rw [List.append_nil] at hmore
        exact ih hinput hmore
      | cons token ready => exact reads_running_concat hinput hmore

/-- **One more.**  Each answer follows from where the stream is. -/
lemma Reads.next? (h : Reads p input answers it) :
    Reads p input (answers ++ [it.next?.1]) it.next?.2 := by
  cases h with
  | @running pulled rest tokens ready q hinput hall =>
    cases ready with
    | nil =>
      rw [List.append_nil] at hall
      exact reads_pull hinput hall
    | cons token ready => exact reads_running_concat hinput hall
  | @ended tokens ready q n hrun hn =>
    cases ready with
    | nil =>
      have hreads := Reads.ended (n + 1) hrun (.inr rfl)
      rwa [List.replicate_succ', ← List.append_assoc] at hreads
    | cons token ready =>
      obtain rfl : n = 0 := hn.resolve_right (by simp)
      rw [List.replicate_zero, List.append_nil]
      exact reads_ended_concat hrun
  | @rejected pulled rest chunk tokens q q' fault n hinput hall hchunk =>
    have hreads := Reads.rejected (n + 1) hinput hall hchunk
    rwa [List.replicate_succ', ← List.cons_append, ← List.append_assoc] at hreads
  | @failed tokens q q' fault n hall hend =>
    have hreads := Reads.failed (n + 1) hall hend
    rwa [List.replicate_succ', ← List.cons_append, ← List.append_assoc] at hreads

/-- **Several more.**  Induction over their number. -/
lemma Reads.takeNext (h : Reads p input answers it) (k : Nat) :
    Reads p input (answers ++ (it.takeNext k).1) (it.takeNext k).2 := by
  induction k generalizing answers it with
  | zero => simpa [TokenStream.takeNext] using h
  | succ k ih =>
    have hrest := ih h.next?
    rwa [List.append_assoc] at hrest

end Reads

/-! ## Stopping early -/

variable {p q : Pipeline s} {input : List Chunk} {answers : List Answer} {it : TokenStream s}
  {tokens : List Token}

/-- If there was no error, the tokens handed out and those of the early stop are the tokens of a run
over the chunks that were pulled. -/
lemma Reads.exists_readAll (h : Reads p input answers it)
    (hanswers : ∀ fault, some (.error fault) ∉ answers) (hfinish : it.finish = (.ok tokens, q)) :
    ∃ pulled, input = pulled ++ it.input ∧
      p.readAll pulled = (.ok (tokensOf answers ++ tokens), q) := by
  cases h with
  | @running pulled rest out ready q' hinput hall =>
    simp only [finish] at hfinish
    rcases hend : q'.finish with ⟨fault | last, q''⟩
    · simp [hend] at hfinish
    · simp only [hend, Bool.false_eq_true, if_false, Prod.mk.injEq, Except.ok.injEq] at hfinish
      obtain ⟨rfl, rfl⟩ := hfinish
      refine ⟨pulled, hinput, Pipeline.readAll_eq_ok_iff.2 ⟨_, q', last, hall, hend, ?_⟩⟩
      rw [tokensOf_answersOf, List.append_assoc]
  | @ended out ready q' n hrun hn =>
    cases hfinish
    refine ⟨input, (List.append_nil _).symm, ?_⟩
    rwa [tokensOf_append, tokensOf_answersOf, tokensOf_replicate_none, List.append_nil]
  | rejected => exact absurd (List.mem_append_right _ List.mem_cons_self) (hanswers _)
  | failed => exact absurd (List.mem_append_right _ List.mem_cons_self) (hanswers _)

/-- Where no chunk is to be refused there is no error, and the early stop succeeds. -/
lemma Reads.exists_finish (h : Reads p input answers it) (htakes : p.Takes)
    (hchunks : ∀ chunk ∈ input, chunk.Suits p.mode) :
    (∀ fault, some (.error fault) ∉ answers) ∧ ∃ tokens q, it.finish = (.ok tokens, q) := by
  cases h with
  | @running pulled rest out ready q' hinput hall =>
    obtain ⟨last, q, hend, _⟩ := (htakes.of_consumeAll hall).1.exists_finish
    refine ⟨?_, ready ++ last, q, ?_⟩
    · simpa using error_not_mem out 0
    · simp only [finish, hend, Bool.false_eq_true, if_false]
  | @ended out ready q' n _ _ => exact ⟨error_not_mem out n, ready, q', rfl⟩
  | failed _ hall hend =>
    obtain ⟨_, _, hok, _⟩ := (htakes.of_consumeAll hall).1.exists_finish
    cases hend.symm.trans hok
  | @rejected pulled rest chunk _ _ _ _ _ hinput hall hchunk =>
    obtain ⟨hq, hmode⟩ := htakes.of_consumeAll hall
    have hsuits := hchunks chunk (hinput ▸ List.mem_append_right _ List.mem_cons_self)
    exact absurd (hmode ▸ hsuits) (hq.not_suits_of_consume hchunk)

/-- **Stopping early.**  Ask a stream of the tokens of open passes for the next token any number of
times.  If no answer was an error and the early stop succeeds, then the pipeline has been ended, and
the tokens handed out and those of the early stop stand for all symbols of the chunks that were
pulled. -/
theorem exists_finish_covers (hlinked : p.Linked) (hopen : p.Every Tokenizer.Open) {k : Nat}
    (htake : (new p input).takeNext k = (answers, it))
    (hanswers : ∀ fault, some (.error fault) ∉ answers) (hfinish : it.finish = (.ok tokens, q)) :
    q.finish = (.ok [], q) ∧
      ∃ pulled outs, input = pulled ++ it.input ∧
        outs.map (·.item) = tokensOf answers ++ tokens ∧
        p.Covers ((p.symbolsOf pulled).map .own) outs ∧
        outs.flatMap (·.span) = p.symbolsOf pulled := by
  have hreads := (reads_new p input).takeNext k
  rw [htake] at hreads
  obtain ⟨pulled, hinput, hrun⟩ := hreads.exists_readAll hanswers hfinish
  obtain ⟨outs, houts, hcovers, hspans⟩ := Pipeline.exists_covers_own hlinked hopen hrun
  obtain ⟨_, _, _, _, hend, _⟩ := Pipeline.readAll_eq_ok_iff.1 hrun
  exact ⟨Pipeline.finish_again hend, pulled, outs, hinput, houts, hcovers, hspans⟩

/-- **After an error.**  Ask a stream of the tokens of passes that take chunks for the next token
until a chunk is refused.  The early stop then hands out nothing and leaves the pipeline as it is,
with what is pending; only when the pipeline itself is ended, the tokens handed out stand for all
symbols of the chunks before the one that was refused. -/
theorem exists_finish_of_rejected (h : p.Takes) {k : Nat}
    (htake : (new p input).takeNext k = (answers, it)) {fault : PipelineError}
    (hfault : some (.error fault) ∈ answers) :
    it.finish = (.ok [], it.stage) ∧
      ∃ pulled chunk outs last q', input = pulled ++ chunk :: it.input ∧
        it.stage.finish = (.ok last, q') ∧
        outs.map (·.item) = tokensOf answers ++ last ∧
        p.Covers ((p.symbolsOf pulled).map .own) outs ∧
        outs.flatMap (·.span) = p.symbolsOf pulled := by
  have hreads := (reads_new p input).takeNext k
  rw [htake, List.nil_append] at hreads
  cases hreads with
  | @running _ _ out =>
    have hnot := error_not_mem out 0 fault
    rw [List.replicate_zero, List.append_nil] at hnot
    exact absurd hfault hnot
  | @ended out _ _ n => exact absurd hfault (error_not_mem out n fault)
  | failed _ hall hend =>
    obtain ⟨_, _, hok, _⟩ := (h.of_consumeAll hall).1.exists_finish
    cases hend.symm.trans hok
  | @rejected pulled rest chunk out q q' fault' n hinput hall hchunk =>
    obtain ⟨hq, _⟩ := h.of_consumeAll hall
    obtain ⟨_, _, hchunk', last, r, r', hend, hend'⟩ :=
      hq.exists_finish_of_not_suits (hq.not_suits_of_consume hchunk)
    cases hchunk.symm.trans hchunk'
    have hrun := Pipeline.readAll_eq_ok_iff.2 ⟨out, q, last, hall, hend, rfl⟩
    obtain ⟨outs, houts, hcovers, hspans⟩ :=
      Pipeline.exists_covers_own h.linked h.every_open hrun
    have htokens := congrArg (· ++ last) (tokensOf_stopped out fault' n)
    exact ⟨rfl, pulled, chunk, outs, last, r', hinput, hend', houts.trans htokens.symm, hcovers,
      hspans⟩

/-- Two passes are asked for three tokens, and then stopped before the last piece of the text. -/
theorem exists_finish_covers_outline :
    ∃ answers it tokens q,
      (new .outline [.text "so#", .text "#one", .text "##"]).takeNext 3 = (answers, it) ∧
      it.finish = (.ok tokens, q) ∧ q.finish = (.ok [], q) ∧
      ∃ pulled outs, [.text "so#", .text "#one", .text "##"] = pulled ++ it.input ∧
        outs.map (·.item) = tokensOf answers ++ tokens ∧
        Pipeline.outline.Covers ((Pipeline.outline.symbolsOf pulled).map .own) outs ∧
        outs.flatMap (·.span) = Pipeline.outline.symbolsOf pulled := by
  have htakes := Pipeline.takes_outline
  have hreads := (reads_new .outline [.text "so#", .text "#one", .text "##"]).takeNext 3
  obtain ⟨hanswers, tokens, q, hfinish⟩ := hreads.exists_finish htakes
    (by simp [Chunk.Suits, Pipeline.outline, Pipeline.mode, Tokenizer.marker])
  exact ⟨_, _, tokens, q, rfl, hfinish,
    exists_finish_covers (k := 3) htakes.linked htakes.every_open rfl hanswers hfinish⟩

/-- A pass over text that is given a mark, and then a token. -/
def misfit : TokenStream .single :=
  new (.single .marker) [.text "#", .token { kind := "x", value := .absent }]

/-- The token is refused when the mark is pending.  The early stop succeeds and hands out nothing,
but the pipeline has not been ended: the mark comes out when it is. -/
theorem exists_finish_not_flushed :
    ∃ fault it token q, misfit.takeNext 1 = ([some (.error fault)], it) ∧
      it.finish = (.ok [], it.stage) ∧ it.stage.finish = (.ok [token], q) ∧ token.text = "#" := by
  have hfails : (misfit.takeNext 1).1.map (Option.map Except.isOk) = [some false] := by
    decide +kernel
  have htexts :
      (misfit.takeNext 1).2.stage.finish.1.toOption.map (·.map Token.text) = some ["#"] := by
    decide +kernel
  obtain ⟨answer, hanswer, hfails⟩ := List.map_eq_singleton_iff.1 hfails
  rcases answer with _ | fault | token
  · cases hfails
  · have htake : misfit.takeNext 1 = ([some (.error fault)], (misfit.takeNext 1).2) :=
      Prod.ext hanswer rfl
    obtain ⟨hstop, _⟩ := exists_finish_of_rejected
      (Pipeline.takes_single_iff.2 Tokenizer.ready_marker.takes) htake List.mem_cons_self
    rcases hend : (misfit.takeNext 1).2.stage.finish with ⟨_ | last, q⟩
    · simp [hend, Except.toOption] at htexts
    · simp only [hend, Except.toOption, Option.map_some, Option.some.injEq] at htexts
      obtain ⟨token, rfl, htoken⟩ := List.map_eq_singleton_iff.1 htexts
      exact ⟨fault, _, token, q, htake, hstop, hend, htoken⟩
  · cases hfails

end TokenStream

end Lexing
