import Lexing.Proofs.Chains

/-!
# Call by call

Calls are made one after the other, whatever they answer (`callAll`).  The tokens of one call to the
first pass of a chain are the chunks of several calls to the second (`Pipeline.feed`), and what these
answer is one answer of the chain.

If both passes take chunks, none of the calls to either of them fails: what the first hands out suits
the second (`Pipeline.Takes.exists_feed`).  So a chain answers each chunk, and the end of the stream,
with what the second pass makes of the first one's answer (`Pipeline.chain_callAll`).
-/

namespace Lexing

/-- The results of several calls, one after the other, and the state after them. -/
def callAll {σ κ ρ : Type} (call : σ → κ → ρ × σ) (state : σ) : List κ → List ρ × σ
  | [] => ([], state)
  | c :: calls =>
    ((call state c).1 :: (callAll call (call state c).2 calls).1,
      (callAll call (call state c).2 calls).2)

section callAll

variable {σ κ ρ : Type} {call : σ → κ → ρ × σ} {state state' state'' : σ} {c : κ}
  {calls more : List κ} {result : ρ} {results results' : List ρ}

lemma callAll_cons (hone : call state c = (result, state'))
    (hall : callAll call state' calls = (results, state'')) :
    callAll call state (c :: calls) = (result :: results, state'') := by
  rw [callAll, hone, hall]

lemma callAll_append (hcalls : callAll call state calls = (results, state'))
    (hmore : callAll call state' more = (results', state'')) :
    callAll call state (calls ++ more) = (results ++ results', state'') := by
  induction calls generalizing state results with
  | nil =>
    cases hcalls
    exact hmore
  | cons c calls ih =>
    cases hcalls
    exact callAll_cons rfl (ih rfl)

end callAll

namespace Pipeline

variable {s s₁ s₂ : Shape} {p q : Pipeline s} {first : Pipeline s₁} {second : Pipeline s₂}
  {chunks : List Chunk} {tokens out : List Token}

/-- A call to a pass. -/
inductive Call where
  | consume (chunk : Chunk)
  | finish
  deriving Inhabited

/-- What a call does. -/
def call (p : Pipeline s) : Call → Except PipelineError (List Token) × Pipeline s
  | .consume chunk => p.consume chunk
  | .finish => p.finish

/-- The results when tokens are given to a pass, one chunk each. -/
def feed (p : Pipeline s) (tokens : List Token) :
    List (Except PipelineError (List Token)) × Pipeline s :=
  callAll call p (tokens.map fun token => .consume (.token token))

/-- The calls that read several chunks and then end the stream. -/
def callsOf (chunks : List Chunk) : List Call :=
  chunks.map .consume ++ [.finish]

/-- Where all chunks are read, each call has been answered with a part of the tokens. -/
lemma exists_callAll_of_consumeAll (h : p.consumeAll chunks = (.ok out, q)) :
    ∃ outs : List (List Token),
      callAll call p (chunks.map .consume) = (outs.map .ok, q) ∧ outs.flatten = out := by
  induction chunks generalizing p out with
  | nil =>
    cases h
    exact ⟨[], rfl, rfl⟩
  | cons chunk chunks ih =>
    obtain ⟨tokens, p', rest, hone, hall, rfl⟩ := consumeAll_cons_eq_ok_iff.1 h
    obtain ⟨outs, hcalls, rfl⟩ := ih hall
    exact ⟨tokens :: outs, callAll_cons hone hcalls, rfl⟩

/-- **One chunk.** -/
lemma Takes.exists_consume {chunk : Chunk} (h : p.Takes) (hchunk : chunk.Suits p.mode) :
    ∃ tokens p', p.consume chunk = (.ok tokens, p') ∧ p'.Takes ∧ p'.mode = p.mode ∧
      ∀ token ∈ tokens, token.kind ≠ endOfStreamTag := by
  obtain ⟨out, p', hall, hp', hmode, hkinds⟩ :=
    h.exists_consumeAll (List.forall_mem_singleton.2 hchunk)
  obtain ⟨tokens, _, rest, hone, hrest, rfl⟩ := consumeAll_cons_eq_ok_iff.1 hall
  cases hrest
  exact ⟨tokens, p', hone, hp', hmode, (List.forall_mem_append.1 hkinds).1⟩

/-- **Between two passes.**  No call fails that gives a pass a token of the pass before it. -/
lemma Takes.exists_feed (h : p.Takes) (hmode : p.mode = .token)
    (hkinds : ∀ token ∈ tokens, token.kind ≠ endOfStreamTag) :
    ∃ (outs : List (List Token)) (q : Pipeline s), p.feed tokens = (outs.map .ok, q) ∧
      p.consumeAll (tokens.map .token) = (.ok outs.flatten, q) ∧ q.Takes ∧ q.mode = .token := by
  obtain ⟨_, q, hall, hq, hmode', _⟩ := h.exists_consumeAll (suits_of_mem_map_token hmode hkinds)
  obtain ⟨outs, hcalls, rfl⟩ := exists_callAll_of_consumeAll hall
  rw [List.map_map] at hcalls
  exact ⟨outs, q, hcalls, hall, hq, hmode'.trans hmode⟩

/-- **The chunks.**  Induction over the chunks: after each of them both passes take chunks again. -/
lemma Takes.exists_callAll_consume (hfirst : first.Takes) (hsecond : second.Takes)
    (hmode : second.mode = .token) (hchunks : ∀ chunk ∈ chunks, chunk.Suits first.mode) :
    ∃ (handed : List (List Token)) (fed : List (List (List Token))) (first' : Pipeline s₁)
      (second' : Pipeline s₂),
      callAll call first (chunks.map .consume) = (handed.map .ok, first') ∧
      callAll feed second handed = (fed.map (·.map .ok), second') ∧
      callAll call (chain first second) (chunks.map .consume) =
        ((fed.map List.flatten).map .ok, chain first' second') ∧
      first'.Takes ∧ second'.Takes ∧ second'.mode = .token := by
  induction chunks generalizing first second with
  | nil => exact ⟨[], [], first, second, rfl, rfl, rfl, hfirst, hsecond, hmode⟩
  | cons chunk chunks ih =>
    obtain ⟨hchunk, hchunks⟩ := List.forall_mem_cons.1 hchunks
    obtain ⟨tokens, first₁, hconsume, hfirst₁, hmode₁, hkinds⟩ := hfirst.exists_consume hchunk
    obtain ⟨outs, second₁, hfeed, hfed, hsecond₁, hmode₂⟩ := hsecond.exists_feed hmode hkinds
    have hchain := consume_chain_eq_ok_iff.2 ⟨tokens, first₁, second₁, hconsume, hfed, rfl⟩
    obtain ⟨handed, fed, first', second', hcalls, hfeeds, hchains, htakes⟩ :=
      ih hfirst₁ hsecond₁ hmode₂ (hmode₁ ▸ hchunks)
    exact ⟨tokens :: handed, outs :: fed, first', second', callAll_cons hconsume hcalls,
      callAll_cons hfeed hfeeds, callAll_cons hchain hchains, htakes⟩

/-- **The end.** -/
lemma Takes.exists_callAll_finish (hfirst : first.Takes) (hsecond : second.Takes)
    (hmode : second.mode = .token) :
    ∃ (flushed : List Token) (last : List (List Token)) (own : List Token) (first' : Pipeline s₁)
      (second' second'' : Pipeline s₂),
      callAll call first [.finish] = ([.ok flushed], first') ∧
      callAll feed second [flushed] = ([last.map .ok], second') ∧
      second'.finish = (.ok own, second'') ∧
      callAll call (chain first second) [.finish] =
        ([.ok (last.flatten ++ own)], chain first' second'') := by
  obtain ⟨flushed, first', hflush, hkinds⟩ := hfirst.exists_finish
  obtain ⟨last, second', hfeed, hfed, hsecond', _⟩ := hsecond.exists_feed hmode hkinds
  obtain ⟨own, second'', hown, _⟩ := hsecond'.exists_finish
  have hrest : second.readAll (flushed.map .token) = (.ok (last.flatten ++ own), second'') :=
    readAll_eq_ok_iff.2 ⟨_, second', own, hfed, hown, rfl⟩
  have hchain := finish_chain_eq_ok_iff.2 ⟨flushed, first', second'', hflush, hrest, rfl⟩
  exact ⟨flushed, last, own, first', second', second'', callAll_cons hflush rfl,
    callAll_cons hfeed rfl, hown, callAll_cons hchain rfl⟩

/-- **A chain, call by call.**  Let two passes take chunks, the second those of token mode, and let
the chunks suit the first.  Then they can be chained, and no call fails that reads the chunks and
ends the stream.  What the chain answers is what the second pass answers when it is given the tokens
that the first hands out in that call, one at a time.  At the end of the stream the second pass is
ended after that, and what it flushes comes last. -/
theorem chain_callAll (hfirst : first.Takes) (hsecond : second.Takes) (hmode : second.mode = .token)
    (hchunks : ∀ chunk ∈ chunks, chunk.Suits first.mode) :
    first.chain? second = .ok (chain first second) ∧
      ∃ (handed : List (List Token)) (flushed : List Token) (fed : List (List (List Token)))
        (last : List (List Token)) (own : List Token) (first' : Pipeline s₁)
        (second' second'' : Pipeline s₂),
        callAll call first (callsOf chunks) = ((handed ++ [flushed]).map .ok, first') ∧
        callAll feed second (handed ++ [flushed]) = ((fed ++ [last]).map (·.map .ok), second') ∧
        second'.finish = (.ok own, second'') ∧
        callAll call (chain first second) (callsOf chunks) =
          ((fed.map List.flatten ++ [last.flatten ++ own]).map .ok, chain first' second'') := by
  refine ⟨by simp only [chain?, hmode], ?_⟩
  obtain ⟨handed, fed, first₁, second₁, hcalls, hfeeds, hchains, hfirst₁, hsecond₁, hmode₁⟩ :=
    hfirst.exists_callAll_consume hsecond hmode hchunks
  obtain ⟨flushed, last, own, first', second', second'', hend, hfeed, hown, hchain⟩ :=
    hfirst₁.exists_callAll_finish hsecond₁ hmode₁
  refine ⟨handed, flushed, fed, last, own, first', second', second'', ?_, ?_, hown, ?_⟩
  · rw [List.map_append]
    exact callAll_append hcalls hend
  · rw [List.map_append]
    exact callAll_append hfeeds hfeed
  · rw [List.map_append]
    exact callAll_append hchains hchain

/-- A text in three pieces goes through two passes. -/
theorem chain_callAll_outline :
    ∃ (handed : List (List Token)) (flushed : List Token) (fed : List (List (List Token)))
      (last : List (List Token)) (own : List Token) (first' : Pipeline .single)
      (second' second'' : Pipeline .single),
      callAll call (single .marker) (callsOf [.text "so#", .text "#one", .text "##"]) =
        ((handed ++ [flushed]).map .ok, first') ∧
      callAll feed (single .outliner) (handed ++ [flushed]) =
        ((fed ++ [last]).map (·.map .ok), second') ∧
      second'.finish = (.ok own, second'') ∧
      callAll call outline (callsOf [.text "so#", .text "#one", .text "##"]) =
        ((fed.map List.flatten ++ [last.flatten ++ own]).map .ok, chain first' second'') :=
  (chain_callAll (takes_single_iff.2 Tokenizer.ready_marker.takes)
    (takes_single_iff.2 Tokenizer.ready_outliner.takes) rfl
    (by simp [Chunk.Suits, Pipeline.mode, Tokenizer.marker])).2

end Pipeline

end Lexing
