import Lexing.Proofs.Coverage
import Lexing.Proofs.Nesting
import Lexing.Proofs.Passages

/-!
# Pipelines pass by pass

However a pipeline is nested, the stream goes through its passes one after the other
(`Pipeline.passes`): the first reads the chunks, and each of the others what the one before it hands
out (`Pipeline.exists_flow`).  What a call does is thus told by the transitions that each pass takes
in it (`Pipeline.passages`).

What is told is true of every pass: its tokens are made of the blocks that are told, and these and
what is pending afterwards are what was pending before and what was read
(`Tokenizer.At.account_read`).  The tokens that a pipeline hands out are those of its last pass
(`Pipeline.exists_getLast?_passages`).
-/

namespace Lexing

/-! ## Single passes -/

namespace Tokenizer

/-- The lexicon that the tokenizer runs, or would run if it got a chunk now. -/
def lexicon? (t : Tokenizer) : Except LexiconError Lexicon :=
  t.machine.map (·.automaton.table.lexicon)

/-- The symbols that a chunk is read as.  One that is refused is not read. -/
def reads (t : Tokenizer) (chunk : Chunk) : List Symbol :=
  match t.machine with
  | .error _ => []
  | .ok machine =>
    match t.symbols machine.specials chunk with
    | .error _ => []
    | .ok (ss, _) => ss

/-- The symbols that several chunks are read as, one after the other. -/
def readsAll (t : Tokenizer) : List Chunk → List Symbol
  | [] => []
  | chunk :: chunks => t.reads chunk ++ readsAll (t.consume chunk).2 chunks

/-- The transitions taken while a chunk is read. -/
def passagesOfConsume (t : Tokenizer) (chunk : Chunk) : List Passage :=
  match t.status, t.machine with
  | .accepting, .ok machine => machine.automaton.passagesAll (t.reads chunk)
  | _, _ => []

/-- The transitions taken when the stream is ended. -/
def passagesOfFinish (t : Tokenizer) : List Passage :=
  match t.status, t.machine with
  | .accepting, .ok machine => machine.automaton.passages .endOfStream
  | _, _ => []

/-- The transitions taken while several chunks are read, and then, if the stream ends there, at its
end. -/
def passages (t : Tokenizer) (ends : Bool) : List Chunk → List Passage
  | [] => if ends then t.passagesOfFinish else []
  | chunk :: chunks => t.passagesOfConsume chunk ++ passages (t.consume chunk).2 ends chunks

end Tokenizer

/-! ## Several chunks -/

namespace Pipeline

variable {s s₁ s₂ : Shape} {p p' p'' : Pipeline s} {first : Pipeline s₁} {second : Pipeline s₂}
  {chunk : Chunk} {chunks : List Chunk} {ends : Bool} {ts ts' us us' : List Tokenizer}
  {traces traces' : List (List Passage)} {tokens out more : List Token}

/-- Reads several chunks, and then ends the stream if it ends there. -/
def read (p : Pipeline s) (ends : Bool) (chunks : List Chunk) :
    Except PipelineError (List Token) × Pipeline s :=
  if ends then p.readAll chunks else p.consumeAll chunks

lemma read_nil (p : Pipeline s) (ends : Bool) :
    p.read ends [] = if ends then p.finish else (.ok [], p) := by
  cases ends with
  | false => rfl
  | true =>
    rw [read, if_pos rfl, if_pos rfl, readAll, consumeAll]
    rcases hfinish : p.finish with ⟨_ | tokens, p'⟩ <;> simp [hfinish]

lemma read_cons_eq_ok_iff :
    p.read ends (chunk :: chunks) = (.ok out, p'') ↔
      ∃ tokens p' rest, p.consume chunk = (.ok tokens, p') ∧
        p'.read ends chunks = (.ok rest, p'') ∧ out = tokens ++ rest := by
  cases ends with
  | false => exact consumeAll_cons_eq_ok_iff
  | true =>
    simp only [read, if_pos, readAll_eq_ok_iff, consumeAll_cons_eq_ok_iff]
    constructor
    · rintro ⟨_, p₂, last, ⟨tokens, p₁, rest, hone, hall, rfl⟩, hlast, rfl⟩
      exact ⟨tokens, p₁, rest ++ last, hone, ⟨rest, p₂, last, hall, hlast, rfl⟩,
        List.append_assoc ..⟩
    · rintro ⟨tokens, p₁, _, hone, ⟨rest, p₂, last, hall, hlast, rfl⟩, rfl⟩
      exact ⟨tokens ++ rest, p₂, last, ⟨tokens, p₁, rest, hone, hall, rfl⟩, hlast,
        (List.append_assoc ..).symm⟩

lemma read_chain_eq_ok_iff {q : Pipeline (.chain s₁ s₂)} :
    (chain first second).read ends chunks = (.ok out, q) ↔
      ∃ tokens first' second', first.read ends chunks = (.ok tokens, first') ∧
        second.read ends (tokens.map .token) = (.ok out, second') ∧ q = chain first' second' := by
  cases ends with
  | false => exact consumeAll_chain_eq_ok_iff
  | true => exact readAll_chain_eq_ok_iff

end Pipeline

/-! ## What a pass accounts for -/

namespace Tokenizer

open Passage

variable {t t' : Tokenizer} {chunk : Chunk} {chunks : List Chunk} {l : Lexicon} {w : Walker}
  {ends : Bool} {tokens : List Token}

lemma At.lexicon?_eq (h : t.At l w) : t.lexicon? = .ok l := by
  rw [lexicon?, h.machine_eq]
  rfl

lemma At.reads_eq {ss : List Symbol} {cursor : Cursor} (h : t.At l w)
    (hsymbols : t.symbols (t.config.specialChars.resolve l) chunk = .ok (ss, cursor)) :
    t.reads chunk = ss := by
  have hspecials : (w.machine t.config l).specials = t.config.specialChars.resolve l := rfl
  simp only [reads, h.machine_eq, hspecials, hsymbols]

lemma At.passagesOfConsume_eq (h : t.At l w) (hopen : t.status = .accepting) (chunk : Chunk) :
    t.passagesOfConsume chunk = (w.automaton (.ofLexicon l) l).passagesAll (t.reads chunk) := by
  simp only [passagesOfConsume, hopen, h.machine_eq]
  rfl

lemma At.passagesOfFinish_eq (h : t.At l w) (hopen : t.status = .accepting) :
    t.passagesOfFinish = (w.automaton (.ofLexicon l) l).passages .endOfStream := by
  simp only [passagesOfFinish, hopen, h.machine_eq]
  rfl

/-- **One chunk.** -/
lemma At.account_consume (h : t.At l w) (hopen : t.status = .accepting)
    (hchunk : chunk.Suits t.config.mode) :
    ∃ tokens t' w', t.consume chunk = (.ok tokens, t') ∧ t'.At l w' ∧ t'.status = .accepting ∧
      Account l.compile (t.pending ++ t.reads chunk) (t.passagesOfConsume chunk) tokens
        t'.pending := by
  have ht := Trie.fits_ofLexicon l
  obtain ⟨ss, cursor, hsymbols, hss⟩ := exists_symbols (t.config.specialChars.resolve l) hchunk
  obtain ⟨tokens, w', hrun, hw', haccount⟩ := h.traced.account_passagesAll ht hss
  have hat := h.compiled hw' cursor t.status
  refine ⟨tokens, _, w', h.consume_eq hopen hsymbols hrun, hat, hopen, ?_⟩
  rw [h.pending_eq, hat.pending_eq, h.passagesOfConsume_eq hopen, h.reads_eq hsymbols]
  exact haccount

/-- **The end.** -/
lemma At.account_finish (h : t.At l w) (hopen : t.status = .accepting) :
    ∃ tokens t', t.finish = (.ok tokens, t') ∧
      Account l.compile t.pending t.passagesOfFinish tokens [] := by
  obtain ⟨tokens, hflush, haccount⟩ := h.traced.account_flush (Trie.fits_ofLexicon l)
  obtain ⟨_, tokens', t', hfinish, hflush', _⟩ := h.exists_finish_eq hopen
  cases hflush.symm.trans hflush'
  refine ⟨tokens, t', hfinish, ?_⟩
  rw [h.pending_eq, h.passagesOfFinish_eq hopen]
  exact haccount

/-- **Several chunks.**  Induction over the chunks. -/
theorem At.account_read (h : t.At l w) (hopen : t.status = .accepting)
    (hread : (Pipeline.single t).read ends chunks = (.ok tokens, .single t')) :
    Account l.compile (t.pending ++ t.readsAll chunks) (t.passages ends chunks) tokens
      (if ends then [] else t'.pending) := by
  induction chunks generalizing t w tokens with
  | nil =>
    rw [Pipeline.read_nil] at hread
    rw [readsAll, List.append_nil, passages]
    cases ends with
    | false =>
      cases hread
      exact .nil
    | true =>
      obtain ⟨_, hfinish, hsame⟩ := Pipeline.finish_single_eq_iff.1 hread
      obtain ⟨_, _, hfinish', haccount⟩ := h.account_finish hopen
      cases hsame
      cases hfinish.symm.trans hfinish'
      exact haccount
  | cons chunk chunks ih =>
    obtain ⟨first, _, rest, hone, hmore, rfl⟩ := Pipeline.read_cons_eq_ok_iff.1 hread
    obtain ⟨t₁, hconsume, rfl⟩ := Pipeline.consume_single_eq_iff.1 hone
    have hchunk : chunk.Suits t.config.mode := by
      by_contra hnot
      obtain ⟨fault, hrefused⟩ := h.exists_consume_eq_error hopen hnot
      cases hconsume.symm.trans hrefused
    obtain ⟨_, _, w₁, hconsume', hat, hopen₁, haccount⟩ := h.account_consume hopen hchunk
    cases hconsume.symm.trans hconsume'
    rw [readsAll, passages, hconsume, ← List.append_assoc]
    exact haccount.append (ih hat hopen₁ hmore)

end Tokenizer

/-! ## Pass by pass -/

namespace Pipeline

variable {s s₁ s₂ : Shape} {p p' : Pipeline s} {first : Pipeline s₁} {second : Pipeline s₂}
  {chunk : Chunk} {chunks : List Chunk} {ends : Bool} {ts ts' us us' : List Tokenizer}
  {traces traces' : List (List Passage)} {tokens out more : List Token}

/-- The passes behind the first. -/
def later : {s : Shape} → Pipeline s → List Tokenizer
  | _, single _ => []
  | _, chain first second => first.later ++ second.head :: second.later

/-- The passes in the order in which the stream goes through them, however they are nested. -/
def passes (p : Pipeline s) : List Tokenizer :=
  p.head :: p.later

lemma passes_chain : (chain first second).passes = first.passes ++ second.passes := rfl

lemma every_iff {P : Tokenizer → Prop} : p.Every P ↔ ∀ t ∈ p.passes, P t := by
  induction p with
  | single t => simp [Every, passes, head, later]
  | chain first second ih₁ ih₂ =>
    rw [passes_chain, List.forall_mem_append, ← ih₁, ← ih₂]
    rfl

/-- The transitions that each pass takes while several chunks are read, and then, if the stream ends
there, at its end.  A pass behind another gets what that one hands out. -/
def passages (ends : Bool) : {s : Shape} → Pipeline s → List Chunk → List (List Passage)
  | _, single t, chunks => [t.passages ends chunks]
  | _, chain first second, chunks =>
    first.passages ends chunks ++
      second.passages ends ((handedOut (first.read ends chunks).1).map .token)

/-- Tokens go through passes: each pass reads what the one before hands out. -/
inductive Flow (ends : Bool) : List Tokenizer → List Token → List (List Passage) → List Token →
    List Tokenizer → Prop
  | nil {tokens : List Token} : Flow ends [] tokens [] tokens []
  | cons {t t' : Tokenizer} {ts ts' : List Tokenizer} {tokens more out : List Token}
      {traces : List (List Passage)}
      (hone : (single t).read ends (tokens.map .token) = (.ok more, single t'))
      (hrest : Flow ends ts more traces out ts') :
      Flow ends (t :: ts) tokens (t.passages ends (tokens.map .token) :: traces) out (t' :: ts')

lemma Flow.append (h : Flow ends ts tokens traces more ts')
    (h' : Flow ends us more traces' out us') :
    Flow ends (ts ++ us) tokens (traces ++ traces') out (ts' ++ us') := by
  induction h with
  | nil => exact h'
  | cons hone _ ih => exact .cons hone (ih h')

/-- **Pass by pass.**  However a pipeline is nested, its first pass reads the chunks, and what that
one hands out goes through the others. -/
lemma exists_flow (h : p.read ends chunks = (.ok out, p')) :
    ∃ tokens traces, (single p.head).read ends chunks = (.ok tokens, single p'.head) ∧
      p.passages ends chunks = p.head.passages ends chunks :: traces ∧
      Flow ends p.later tokens traces out p'.later := by
  induction p generalizing chunks out with
  | single t =>
    cases p' with
    | single t' => exact ⟨out, [], h, rfl, .nil⟩
  | chain first second ih₁ ih₂ =>
    obtain ⟨tokens, first', second', hfirst, hsecond, rfl⟩ := read_chain_eq_ok_iff.1 h
    obtain ⟨fed, traces, hhead, hpassages, hflow⟩ := ih₁ hfirst
    obtain ⟨fed', traces', hhead', hpassages', hflow'⟩ := ih₂ hsecond
    refine ⟨fed, traces ++ second.head.passages ends (tokens.map .token) :: traces', hhead, ?_,
      hflow.append (.cons hhead' hflow')⟩
    rw [passages, hfirst, handedOut, hpassages, hpassages', List.cons_append]
    rfl

/-- What comes out are the tokens that the last pass makes. -/
lemma exists_getLast?_passages (h : p.Every Tokenizer.Takes)
    (hread : p.read ends chunks = (.ok out, p')) :
    ∃ last, (p.passages ends chunks).getLast? = some last ∧
      (Passage.madeAll last).map Prod.snd = out := by
  induction p generalizing chunks out with
  | single t =>
    cases p' with
    | single t' =>
      have ht : t.Takes := h
      obtain ⟨l, w, hat⟩ := ht.exists_at
      exact ⟨_, rfl, (hat.account_read ht.accepting hread).tokens_eq⟩
  | chain first second _ ih =>
    obtain ⟨tokens, first', second', hfirst, hsecond, rfl⟩ := read_chain_eq_ok_iff.1 hread
    obtain ⟨last, hlast, htokens⟩ := ih h.2 hsecond
    refine ⟨last, ?_, htokens⟩
    rw [passages, hfirst, handedOut, List.getLast?_append, hlast]
    rfl

/-! ## Calls without effect -/

/-- A chunk that the first pass refuses stays there. -/
lemma exists_consume_of_head {fault : PipelineError} {t' : Tokenizer}
    (h : p.head.consume chunk = (.error fault, t')) :
    ∃ p', p.consume chunk = (.error fault, p') ∧ p'.head = t' ∧ p'.later = p.later := by
  induction p with
  | single t => exact ⟨single t', consume_single_eq_iff.2 ⟨t', h, rfl⟩, rfl, rfl⟩
  | chain first second ih _ =>
    obtain ⟨first', hconsume, hhead, hlater⟩ := ih h
    refine ⟨chain first' second, by simp only [consume, hconsume], hhead, ?_⟩
    rw [later, later, hlater]

lemma passages_nil (p : Pipeline s) : p.passages false [] = p.passes.map fun _ => [] := by
  induction p with
  | single t => rfl
  | chain first second ih₁ ih₂ =>
    rw [passes_chain, List.map_append, ← ih₁, ← ih₂, passages]
    rfl

lemma passages_of_refused {fault : PipelineError} {t' : Tokenizer}
    (h : p.head.consume chunk = (.error fault, t')) (hnone : p.head.passagesOfConsume chunk = []) :
    p.passages false [chunk] = p.passes.map fun _ => [] := by
  induction p with
  | single t =>
    have ht : t.passagesOfConsume chunk = [] := hnone
    simp [passages, Tokenizer.passages, ht, passes, later]
  | chain first second ih _ =>
    have hhead : first.head.consume chunk = (.error fault, t') := h
    obtain ⟨first', hconsume, _⟩ := exists_consume_of_head hhead
    have hhanded : handedOut (first.read false [chunk]).1 = [] := by
      simp [read, consumeAll, hconsume, handedOut]
    rw [passes_chain, List.map_append, passages, ih hhead hnone, hhanded, List.map_nil,
      passages_nil]

/-- All passes have ended their stream. -/
def Finished (p : Pipeline s) : Prop :=
  p.Every fun t => t.status = .finished

/-- Induction over the shape: what ends a chain ends both passes. -/
lemma finished_of_finish (h : p.finish = (.ok tokens, p')) : p'.Finished := by
  induction s generalizing tokens with
  | single =>
    cases p with
    | single t =>
      obtain ⟨t', hfinish, rfl⟩ := finish_single_eq_iff.1 h
      exact Tokenizer.status_of_finish hfinish
  | chain s₁ s₂ ih₁ ih₂ =>
    cases p with
    | chain first second =>
      obtain ⟨_, first', second', hfirst, hrest, rfl⟩ := finish_chain_eq_ok_iff.1 h
      obtain ⟨_, _, _, _, hsecond, _⟩ := readAll_eq_ok_iff.1 hrest
      exact ⟨ih₁ hfirst, ih₂ hsecond⟩

namespace Finished

lemma finish_eq (h : p.Finished) : p.finish = (.ok [], p) := by
  induction p with
  | single t => exact finish_single_eq_iff.2 ⟨t, Tokenizer.finish_of_finished h, rfl⟩
  | chain first second ih₁ ih₂ => simp only [finish, ih₁ h.1, ih₂ h.2, feedTokens, List.append_nil]

lemma consume_eq (h : p.Finished) (chunk : Chunk) : p.consume chunk = (.error .finished, p) := by
  induction p with
  | single t =>
    exact consume_single_eq_iff.2 ⟨t, Tokenizer.consume_of_finished h chunk, rfl⟩
  | chain first second ih _ => simp only [consume, ih h.1]

lemma ended (h : p.Finished) : p.Ended :=
  ⟨h.finish_eq, h.consume_eq⟩

lemma handedOut_read (h : p.Finished) (ends : Bool) (chunks : List Chunk) :
    handedOut (p.read ends chunks).1 = [] := by
  cases chunks with
  | nil =>
    rw [read_nil, h.finish_eq]
    split <;> rfl
  | cons chunk chunks =>
    have hrefused : p.consumeAll (chunk :: chunks) = (.error .finished, p) := by
      simp only [consumeAll, h.consume_eq]
    unfold read
    split
    · simp only [readAll, hrefused, handedOut]
    · rw [hrefused, handedOut]

lemma passages_single {t : Tokenizer} (h : t.status = .finished) (ends : Bool)
    (chunks : List Chunk) : t.passages ends chunks = [] := by
  induction chunks with
  | nil => simp [Tokenizer.passages, Tokenizer.passagesOfFinish, h]
  | cons chunk chunks ih =>
    rw [Tokenizer.passages, Tokenizer.consume_of_finished h, ih]
    simp [Tokenizer.passagesOfConsume, h]

/-- After the end nothing happens any more. -/
lemma passages_eq (h : p.Finished) (ends : Bool) (chunks : List Chunk) :
    p.passages ends chunks = p.passes.map fun _ => [] := by
  induction p generalizing chunks with
  | single t =>
    have ht : t.status = .finished := h
    rw [passages, passages_single ht]
    rfl
  | chain first second ih₁ ih₂ =>
    have hhanded := handedOut_read h.1 ends chunks
    rw [passes_chain, List.map_append, passages, ih₁ h.1, hhanded, ih₂ h.2]

end Finished

end Pipeline

/-! ## Calls -/

namespace Pipeline

variable {s : Shape} {p p' : Pipeline s} {out : List Token}

/-- The chunks that a call brings. -/
def Call.chunks : Call → List Chunk
  | .consume chunk => [chunk]
  | .finish => []

/-- Whether a call ends the stream. -/
def Call.ends : Call → Bool
  | .consume _ => false
  | .finish => true

lemma read_of_call {c : Call} (h : p.call c = (.ok out, p')) :
    p.read c.ends c.chunks = (.ok out, p') := by
  cases c with
  | finish => rwa [Call.ends, Call.chunks, read_nil, if_pos rfl]
  | consume chunk =>
    refine read_cons_eq_ok_iff.2 ⟨out, p', [], h, ?_, (List.append_nil out).symm⟩
    rw [read_nil, Call.ends, if_neg (by simp)]

/-- The transitions that each pass takes in a call. -/
def passagesIn (p : Pipeline s) (c : Call) : List (List Passage) :=
  p.passages c.ends c.chunks

/-- The transitions taken in several calls. -/
def passagesAll (p : Pipeline s) : List Call → List (List (List Passage))
  | [] => []
  | c :: calls => p.passagesIn c :: passagesAll (p.call c).2 calls

/-- A call to a pipeline is one to its first pass. -/
lemma head_consume (p : Pipeline s) (chunk : Chunk) :
    (p.consume chunk).2.head = (p.head.consume chunk).2 := by
  induction p with
  | single t => rfl
  | chain first second ih _ =>
    rw [head, ← ih, consume]
    rcases first.consume chunk with ⟨_ | tokens, first'⟩ <;> rfl

/-! ## What is told of several calls -/

/-- The tokens that a call hands out are those that were made in the last pass. -/
def Tells (traces : List (List Passage)) (result : Except PipelineError (List Token)) : Prop :=
  ∀ out, result = .ok out → ∃ last, traces.getLast? = some last ∧
    (Passage.madeAll last).map Prod.snd = out

lemma Takes.tells (h : p.Takes) (c : Call) : Tells (p.passagesIn c) (p.call c).1 := by
  intro out hout
  have hcall : p.call c = (.ok out, (p.call c).2) := by rw [← hout]
  exact exists_getLast?_passages h.every (read_of_call hcall)

lemma Finished.tells (h : p.Finished) (c : Call) : Tells (p.passagesIn c) (p.call c).1 := by
  intro out hout
  rw [h.ended.call] at hout
  cases c with
  | consume chunk => cases hout
  | finish =>
    cases hout
    refine ⟨[], ?_, rfl⟩
    have hlast := List.getLast?_eq_some_getLast (List.cons_ne_nil p.head p.later)
    rw [passagesIn, h.passages_eq, List.getLast?_map, passes, hlast]
    rfl

/-- **One call.**  Passes that take chunks do so until their stream is ended. -/
lemma takes_or_finished_call (h : p.Takes ∨ p.Finished) (c : Call) :
    (p.call c).2.Takes ∧ (p.call c).2.mode = p.mode ∨ (p.call c).2.Finished := by
  rcases h with h | h
  · cases c with
    | finish =>
      obtain ⟨tokens, p', hfinish, _⟩ := h.exists_finish
      right
      rw [call, hfinish]
      exact finished_of_finish hfinish
    | consume chunk =>
      left
      by_cases hchunk : chunk.Suits p.mode
      · obtain ⟨_, p', hconsume, hp', hmode, _⟩ := h.exists_consume hchunk
        rw [call, hconsume]
        exact ⟨hp', hmode⟩
      · obtain ⟨_, p', hconsume, hp', hmode⟩ := h.exists_consume_eq_error hchunk
        rw [call, hconsume]
        exact ⟨hp', hmode⟩
  · right
    rwa [h.ended.call]

/-- **Several calls.** -/
theorem callAll_tells (h : p.Takes ∨ p.Finished) (calls : List Call) :
    List.Forall₂ Tells (p.passagesAll calls) (callAll call p calls).1 := by
  induction calls generalizing p with
  | nil => exact .nil
  | cons c calls ih =>
    have hone := h.elim (·.tells c) (·.tells c)
    exact .cons hone (ih ((takes_or_finished_call h c).imp_left And.left))

lemma Ended.eq_finished_of_callAll (h : p.Ended) {calls : List Call} {fault : PipelineError}
    (hfault : .error fault ∈ (Lexing.callAll Pipeline.call p calls).1) : fault = .finished := by
  rw [h.callAll] at hfault
  obtain ⟨c, _, hlate⟩ := List.mem_map.1 hfault
  exact Call.eq_finished_of_late hlate

/-- **Success.**  If all chunks suit the first pass, a call fails only after the end of the stream.
-/
theorem Takes.eq_finished_of_callAll (h : p.Takes) {calls : List Call}
    (hchunks : ∀ chunk, .consume chunk ∈ calls → chunk.Suits p.mode) {fault : PipelineError}
    (hfault : .error fault ∈ (callAll call p calls).1) : fault = .finished := by
  induction calls generalizing p with
  | nil => cases hfault
  | cons c calls ih =>
    rcases List.mem_cons.1 hfault with hone | hrest
    · cases c with
      | finish =>
        obtain ⟨_, _, hfinish, _⟩ := h.exists_finish
        rw [call, hfinish] at hone
        cases hone
      | consume chunk =>
        obtain ⟨_, _, hconsume, _⟩ := h.exists_consume (hchunks chunk List.mem_cons_self)
        rw [call, hconsume] at hone
        cases hone
    · rcases takes_or_finished_call (.inl h) c with ⟨hnext, hmode⟩ | hnext
      · exact ih hnext (fun chunk hchunk => hmode ▸ hchunks chunk (.tail _ hchunk)) hrest
      · exact hnext.ended.eq_finished_of_callAll hrest

end Pipeline

end Lexing
