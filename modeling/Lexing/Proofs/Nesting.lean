import Lexing.Proofs.Calls
import Lexing.Proofs.Streams

/-!
# Nested chains

Three passes can be chained in two ways.  The calls are the same, but not their order: if the first
two are one pass, the second reads all tokens of a chunk before the third gets any, and otherwise the
third gets what comes of one token before the second reads the next.  As long as no call fails the
order does not matter (`Pipeline.call_nested_iff`).

Passes that take chunks fail only in the first of them, before anything is handed on, or after the
end of the stream, when they do nothing more (`Pipeline.Ended`).  So the two chains answer alike
whatever the calls, and the passes in them go through the same states
(`Pipeline.callAll_nested`).
-/

namespace Lexing

namespace Pipeline

variable {s s₁ s₂ s₃ : Shape} {p q : Pipeline s} {first first' : Pipeline s₁}
  {second second' : Pipeline s₂} {third third' : Pipeline s₃} {chunk : Chunk} {c : Call}
  {calls : List Call} {tokens out : List Token}

lemma exists_eq_chain (q : Pipeline (.chain s₁ s₂)) : ∃ first second, q = chain first second := by
  cases q with
  | chain first second => exact ⟨first, second, rfl⟩

/-! ## After the end -/

/-- The stream of the pipeline has been ended: no more chunks are taken, nothing comes out, and
nothing changes. -/
structure Ended (p : Pipeline s) : Prop where
  finish_eq : p.finish = (.ok [], p)
  consume_eq : ∀ chunk, p.consume chunk = (.error .finished, p)

/-- Induction over the shape.  The first pass is the one that refuses chunks. -/
lemma ended_of_finish (h : p.finish = (.ok tokens, q)) : q.Ended := by
  refine ⟨finish_again h, ?_⟩
  induction s generalizing tokens with
  | single =>
    cases p with
    | single t =>
      obtain ⟨t', hfinish, rfl⟩ := finish_single_eq_iff.1 h
      have hfinished := Tokenizer.status_of_finish hfinish
      intro chunk
      exact consume_single_eq_iff.2 ⟨t', Tokenizer.consume_of_finished hfinished chunk, rfl⟩
  | chain s₁ s₂ ih _ =>
    cases p with
    | chain first second =>
      obtain ⟨flushed, first', second', hfirst, _, rfl⟩ := finish_chain_eq_ok_iff.1 h
      intro chunk
      simp only [consume, ih hfirst chunk]

/-- What a call answers after the end. -/
def Call.late : Call → Except PipelineError (List Token)
  | .consume _ => .error .finished
  | .finish => .ok []

lemma Ended.call (h : p.Ended) (c : Call) : p.call c = (c.late, p) := by
  cases c with
  | consume chunk => exact h.consume_eq chunk
  | finish => exact h.finish_eq

lemma Ended.callAll (h : p.Ended) (calls : List Call) :
    Lexing.callAll Pipeline.call p calls = (calls.map Call.late, p) := by
  induction calls with
  | nil => rfl
  | cons c calls ih => exact callAll_cons (h.call c) ih

/-! ## Refused chunks -/

/-- A chunk that does not suit the first pass is refused by it, and all passes go on taking chunks.
-/
lemma Takes.exists_consume_eq_error (h : p.Takes) (hchunk : ¬ chunk.Suits p.mode) :
    ∃ fault q, p.consume chunk = (.error fault, q) ∧ q.Takes ∧ q.mode = p.mode := by
  induction p with
  | single t =>
    obtain ⟨fault, t', hconsume, ht', hconfig⟩ :=
      (takes_single_iff.1 h).exists_consume_eq_error hchunk
    exact ⟨fault, single t', consume_single_eq_iff.2 ⟨t', hconsume, rfl⟩,
      takes_single_iff.2 ht', congrArg Config.mode hconfig⟩
  | chain first second ih _ =>
    obtain ⟨hfirst, hsecond, hmode⟩ := takes_chain_iff.1 h
    obtain ⟨fault, first', hconsume, hfirst', hmode'⟩ := ih hfirst hchunk
    exact ⟨fault, chain first' second, by simp only [consume, hconsume],
      takes_chain_iff.2 ⟨hfirst', hsecond, hmode⟩, hmode'⟩

/-! ## Two ways to nest -/

/-- What a pass does with the chunks that a call to the pass before it hands out: it reads them, and
ends the stream if the call did. -/
def follow (p : Pipeline s) (chunks : List Chunk) :
    Call → Except PipelineError (List Token) × Pipeline s
  | .consume _ => p.consumeAll chunks
  | .finish => p.readAll chunks

lemma call_chain_eq_ok_iff {q : Pipeline (.chain s₁ s₂)} :
    call (chain first second) c = (.ok out, q) ↔
      ∃ tokens first' second', call first c = (.ok tokens, first') ∧
        second.follow (tokens.map .token) c = (.ok out, second') ∧ q = chain first' second' := by
  cases c with
  | consume chunk => exact consume_chain_eq_ok_iff
  | finish => exact finish_chain_eq_ok_iff

lemma follow_chain_eq_ok_iff {q : Pipeline (.chain s₁ s₂)} {chunks : List Chunk} :
    (chain first second).follow chunks c = (.ok out, q) ↔
      ∃ tokens first' second', first.follow chunks c = (.ok tokens, first') ∧
        second.follow (tokens.map .token) c = (.ok out, second') ∧ q = chain first' second' := by
  cases c with
  | consume chunk => exact consumeAll_chain_eq_ok_iff
  | finish => exact readAll_chain_eq_ok_iff

/-- **One call.**  If no pass fails, both chains answer with what the third pass makes of all that
the second makes of all that the first hands out. -/
lemma call_nested_iff :
    call (chain (chain first second) third) c =
        (.ok out, chain (chain first' second') third') ↔
      call (chain first (chain second third)) c =
        (.ok out, chain first' (chain second' third')) := by
  simp only [call_chain_eq_ok_iff, follow_chain_eq_ok_iff]
  constructor
  · rintro ⟨_, _, _, ⟨tokens, _, _, hfirst, hsecond, rfl⟩, hthird, hsame⟩
    cases hsame
    exact ⟨tokens, _, _, hfirst, ⟨_, _, _, hsecond, hthird, rfl⟩, rfl⟩
  · rintro ⟨tokens, _, _, hfirst, ⟨_, _, _, hsecond, hthird, rfl⟩, hsame⟩
    cases hsame
    exact ⟨_, _, _, ⟨tokens, _, _, hfirst, hsecond, rfl⟩, hthird, rfl⟩

/-- **A chunk.**  Either no pass fails, or the first refuses the chunk and the others are left alone.
-/
lemma Takes.exists_consume_nested (h : (chain (chain first second) third).Takes) (chunk : Chunk) :
    ∃ result first' second' third',
      (chain (chain first second) third).consume chunk =
        (result, chain (chain first' second') third') ∧
      (chain first (chain second third)).consume chunk =
        (result, chain first' (chain second' third')) ∧
      (chain (chain first' second') third').Takes ∧ first'.mode = first.mode ∧
      (chunk.Suits first.mode → ∀ fault, result ≠ .error fault) := by
  by_cases hchunk : chunk.Suits first.mode
  · obtain ⟨tokens, q, hleft, hq, hmode, _⟩ := h.exists_consume hchunk
    obtain ⟨both, third', rfl⟩ := exists_eq_chain q
    obtain ⟨first', second', rfl⟩ := exists_eq_chain both
    have hcall : call (chain (chain first second) third) (.consume chunk) = _ := hleft
    have hright := call_nested_iff.1 hcall
    exact ⟨.ok tokens, first', second', third', hleft, hright, hq, hmode, fun _ _ => nofun⟩
  · obtain ⟨hboth, hthird, hmode₃⟩ := takes_chain_iff.1 h
    obtain ⟨hfirst, hsecond, hmode₂⟩ := takes_chain_iff.1 hboth
    obtain ⟨fault, first', hrefused, hfirst', hmode⟩ := hfirst.exists_consume_eq_error hchunk
    have hboth' := takes_chain_iff.2 ⟨hfirst', hsecond, hmode₂⟩
    exact ⟨.error fault, first', second, third, by simp only [consume, hrefused],
      by simp only [consume, hrefused], takes_chain_iff.2 ⟨hboth', hthird, hmode₃⟩, hmode,
      fun hsuits => absurd hsuits hchunk⟩

/-- **The end.**  After it both chains have been ended. -/
lemma Takes.exists_finish_nested (h : (chain (chain first second) third).Takes) :
    ∃ tokens first' second' third',
      (chain (chain first second) third).finish =
        (.ok tokens, chain (chain first' second') third') ∧
      (chain first (chain second third)).finish =
        (.ok tokens, chain first' (chain second' third')) ∧
      (chain (chain first' second') third').Ended ∧
      (chain first' (chain second' third')).Ended := by
  obtain ⟨tokens, q, hleft, _⟩ := h.exists_finish
  obtain ⟨both, third', rfl⟩ := exists_eq_chain q
  obtain ⟨first', second', rfl⟩ := exists_eq_chain both
  have hcall : call (chain (chain first second) third) .finish = _ := hleft
  have hright := call_nested_iff.1 hcall
  exact ⟨tokens, first', second', third', hleft, hright, ended_of_finish hleft,
    ended_of_finish hright⟩

/-- Once the stream has been ended, only chunks are answered with errors. -/
lemma Call.eq_finished_of_late {fault : PipelineError} (h : c.late = .error fault) :
    fault = .finished := by
  cases c with
  | consume chunk =>
    cases h
    rfl
  | finish => cases h

/-- **Several calls.**  Induction over the calls: the passes take chunks until the first of them that
ends the stream, and after that both chains have been ended. -/
lemma Takes.exists_callAll_nested (h : (chain (chain first second) third).Takes) :
    ∃ (results : List (Except PipelineError (List Token))) (first' : Pipeline s₁)
      (second' : Pipeline s₂) (third' : Pipeline s₃),
      callAll call (chain (chain first second) third) calls =
        (results, chain (chain first' second') third') ∧
      callAll call (chain first (chain second third)) calls =
        (results, chain first' (chain second' third')) ∧
      ((∀ chunk, .consume chunk ∈ calls → chunk.Suits first.mode) →
        ∀ k fault, results[k]? = some (.error fault) →
          fault = .finished ∧ .finish ∈ calls.take k) := by
  induction calls generalizing first second third with
  | nil => exact ⟨[], first, second, third, rfl, rfl, by simp⟩
  | cons c calls ih =>
    cases c with
    | finish =>
      obtain ⟨tokens, first', second', third', hleft, hright, hleft', hright'⟩ :=
        h.exists_finish_nested
      refine ⟨.ok tokens :: calls.map Call.late, first', second', third',
        callAll_cons hleft (hleft'.callAll calls), callAll_cons hright (hright'.callAll calls), ?_⟩
      intro _ k fault hfault
      cases k with
      | zero => simp at hfault
      | succ k =>
        rw [List.getElem?_cons_succ, List.getElem?_map, Option.map_eq_some_iff] at hfault
        obtain ⟨c, _, hlate⟩ := hfault
        exact ⟨Call.eq_finished_of_late hlate, List.mem_cons_self⟩
    | consume chunk =>
      obtain ⟨result, first₁, second₁, third₁, hleft, hright, h₁, hmode, hresult⟩ :=
        h.exists_consume_nested chunk
      obtain ⟨results, first', second', third', hlefts, hrights, hresults⟩ := ih h₁
      refine ⟨result :: results, first', second', third', callAll_cons hleft hlefts,
        callAll_cons hright hrights, ?_⟩
      intro hsuits k fault hfault
      cases k with
      | zero =>
        rw [List.getElem?_cons_zero, Option.some.injEq] at hfault
        exact absurd hfault (hresult (hsuits chunk List.mem_cons_self) fault)
      | succ k =>
        rw [List.getElem?_cons_succ] at hfault
        obtain ⟨hfinished, hend⟩ := hresults
          (fun chunk hchunk => hmode ▸ hsuits chunk (List.mem_cons_of_mem _ hchunk)) k fault hfault
        exact ⟨hfinished, List.mem_cons_of_mem _ hend⟩

/-- **Chaining is associative.**  Three passes that take chunks, the last two of them tokens, can be
chained in both ways.  Whatever the calls, both chains give the same results, and leave the passes in
the same states.  If all chunks suit the first pass, a call fails only if it gives a chunk to passes
whose stream has been ended before. -/
theorem callAll_nested (hfirst : first.Takes) (hsecond : second.Takes) (hthird : third.Takes)
    (hmode₂ : second.mode = .token) (hmode₃ : third.mode = .token) (calls : List Call) :
    (first.chain? second = .ok (chain first second) ∧
      (chain first second).chain? third = .ok (chain (chain first second) third) ∧
      second.chain? third = .ok (chain second third) ∧
      first.chain? (chain second third) = .ok (chain first (chain second third))) ∧
    ∃ (results : List (Except PipelineError (List Token))) (first' : Pipeline s₁)
      (second' : Pipeline s₂) (third' : Pipeline s₃),
      callAll call (chain (chain first second) third) calls =
        (results, chain (chain first' second') third') ∧
      callAll call (chain first (chain second third)) calls =
        (results, chain first' (chain second' third')) ∧
      ((∀ chunk, .consume chunk ∈ calls → chunk.Suits first.mode) →
        ∀ k fault, results[k]? = some (.error fault) →
          fault = .finished ∧ .finish ∈ calls.take k) := by
  refine ⟨⟨?_, ?_, ?_, ?_⟩, Takes.exists_callAll_nested ?_⟩
  · simp only [chain?, hmode₂]
  · simp only [chain?, hmode₃]
  · simp only [chain?, hmode₃]
  · simp only [chain?, mode, hmode₂]
  · exact takes_chain_iff.2 ⟨takes_chain_iff.2 ⟨hfirst, hsecond, hmode₂⟩, hthird, hmode₃⟩

/-- A text in three pieces goes through three passes.  After the end of the stream another piece
comes, and the stream is ended again. -/
theorem callAll_nested_outline :
    ∃ (calls : List Call) (results : List (Except PipelineError (List Token)))
      (first' second' third' : Pipeline .single),
      calls = callsOf [.text "so#", .text "#one", .text "##"] ++ callsOf [.text "more"] ∧
      callAll call (chain (chain (single .marker) (single .outliner)) (single .outliner)) calls =
        (results, chain (chain first' second') third') ∧
      callAll call (chain (single .marker) (chain (single .outliner) (single .outliner))) calls =
        (results, chain first' (chain second' third')) ∧
      ∀ k fault, results[k]? = some (.error fault) →
        fault = .finished ∧ .finish ∈ calls.take k := by
  have hmarker := takes_single_iff.2 Tokenizer.ready_marker.takes
  have houtliner := takes_single_iff.2 Tokenizer.ready_outliner.takes
  obtain ⟨_, results, first', second', third', hleft, hright, hresults⟩ :=
    callAll_nested hmarker houtliner houtliner rfl rfl
      (callsOf [.text "so#", .text "#one", .text "##"] ++ callsOf [.text "more"])
  refine ⟨_, results, first', second', third', rfl, hleft, hright, hresults ?_⟩
  simp [callsOf, Chunk.Suits, mode, Tokenizer.marker]

end Pipeline

end Lexing
