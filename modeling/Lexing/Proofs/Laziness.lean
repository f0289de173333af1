import Lexing.Proofs.Streams

/-!
# Tokens on demand and tokens at once

Reading eagerly, one feeds a pipeline all chunks and ends the stream, and takes down what comes out
(`Pipeline.reports`): the tokens of each chunk and those of the end, up to the first error.  Asking
for one token at a time gives the same answers in the same order, and after the last of them nothing
more (`TokenStream.Reads.answers_eq`).

What is lazy about it is that a chunk is pulled only when there is nothing else to answer with: all
tokens of the chunks before it have been handed out by then (`TokenStream.Reads.pulls_late`).  An
early stop makes up for the tokens that were not asked for (`TokenStream.Reads.finish_eq_ok`).  The
main result, `TokenStream.takeNext_agrees`, puts this together; it holds of every pipeline, in
whatever state it is when the stream is made.
-/

namespace Lexing

variable {s : Shape}

/-! ## Eager reading -/

namespace Pipeline

/-- What comes out of the pipeline if it reads all chunks and then ends the stream: tokens, and at
last the error that stopped it, if there was one. -/
def reports {s : Shape} (p : Pipeline s) : List Chunk → List (Except PipelineError Token)
  | [] =>
    match p.finish with
    | (.error fault, _) => [.error fault]
    | (.ok tokens, _) => tokens.map .ok
  | chunk :: chunks =>
    match p.consume chunk with
    | (.error fault, _) => [.error fault]
    | (.ok tokens, p) => tokens.map .ok ++ reports p chunks

variable {p q q' : Pipeline s} {chunk : Chunk} {chunks rest : List Chunk} {tokens last : List Token}
  {fault : PipelineError}

/-- Chunks that are read report their tokens. -/
lemma reports_append (hall : p.consumeAll chunks = (.ok tokens, q)) (rest : List Chunk) :
    p.reports (chunks ++ rest) = tokens.map .ok ++ q.reports rest := by
  induction chunks generalizing p tokens with
  | nil =>
    cases hall
    rfl
  | cons chunk chunks ih =>
    obtain ⟨out, p', more, hone, hmore, rfl⟩ := consumeAll_cons_eq_ok_iff.1 hall
    simp only [List.cons_append, reports, hone, ih hmore, List.map_append, List.append_assoc]

lemma reports_of_readAll (hrun : p.readAll chunks = (.ok tokens, q)) :
    p.reports chunks = tokens.map .ok := by
  obtain ⟨out, p', last, hall, hend, rfl⟩ := readAll_eq_ok_iff.1 hrun
  have hreports := reports_append hall []
  rw [List.append_nil] at hreports
  simp only [hreports, reports, hend, List.map_append]

lemma reports_of_consume_eq_error (hall : p.consumeAll chunks = (.ok tokens, q))
    (hchunk : q.consume chunk = (.error fault, q')) :
    p.reports (chunks ++ chunk :: rest) = tokens.map .ok ++ [.error fault] := by
  simp only [reports_append hall, reports, hchunk]

lemma reports_of_finish_eq_error (hall : p.consumeAll chunks = (.ok tokens, q))
    (hend : q.finish = (.error fault, q')) :
    p.reports chunks = tokens.map .ok ++ [.error fault] := by
  have hreports := reports_append hall []
  rw [List.append_nil] at hreports
  simp only [hreports, reports, hend]

/-- What is read ends before a chunk that is refused. -/
lemma not_consumeAll_of_consume_eq_error (hall : p.consumeAll chunks = (.ok tokens, q))
    (hchunk : q.consume chunk = (.error fault, q')) :
    ∀ out r, p.consumeAll (chunks ++ chunk :: rest) ≠ (.ok out, r) := by
  intro out r hmore
  obtain ⟨_, _, _, hall', hrest, _⟩ := consumeAll_append_eq_ok_iff.1 hmore
  cases hall.symm.trans hall'
  obtain ⟨_, _, _, hone, _⟩ := consumeAll_cons_eq_ok_iff.1 hrest
  cases hchunk.symm.trans hone

end Pipeline

/-! ## Lazy reading -/

namespace TokenStream

variable {p q q' : Pipeline s} {input pulled earlier rest : List Chunk} {chunk : Chunk}
  {answers : List Answer} {it : TokenStream s} {tokens last : List Token} {fault : PipelineError}
  {k : Nat}

lemma length_takeNext (it : TokenStream s) (k : Nat) : (it.takeNext k).1.length = k := by
  induction k generalizing it with
  | zero => rfl
  | succ k ih => simp only [takeNext, List.length_cons, ih]

lemma map_some_map_ok (tokens : List Token) :
    (tokens.map (Except.ok (ε := PipelineError))).map some = answersOf tokens := by
  rw [List.map_map]
  rfl

lemma eq_take_append_replicate {xs : List Answer} {n k : Nat} (hk : xs.length + n = k) :
    xs ++ .replicate n none = (xs ++ .replicate k none).take k := by
  rw [List.take_append, List.take_of_length_le (by omega), List.take_replicate]
  congr
  omega

/-- Nothing comes after an error. -/
lemma stopped_eq_take {n k : Nat}
    (hk : (answersOf tokens ++ some (Except.error fault) :: .replicate n none).length = k) :
    answersOf tokens ++ some (Except.error fault) :: .replicate n none =
      (answersOf tokens ++ [some (Except.error fault)] ++ List.replicate k none).take k := by
  rw [List.append_cons] at hk ⊢
  rw [List.length_append, List.length_replicate] at hk
  exact eq_take_append_replicate hk

/-- **The answers.**  They are what the eager reading reports, and then nothing. -/
lemma Reads.answers_eq (h : Reads p input answers it) (hk : answers.length = k) :
    answers = ((p.reports input).map some ++ .replicate k none).take k := by
  cases h with
  | @running pulled rest out ready q hinput hall =>
    rw [hinput, Pipeline.reports_append hall, List.map_append, List.map_append, List.map_append,
      map_some_map_ok, List.append_assoc, List.append_assoc]
    exact (List.take_left' hk).symm
  | @ended out ready q n hrun hn =>
    rw [Pipeline.reports_of_readAll hrun, List.map_append, List.map_append, map_some_map_ok]
    rw [List.length_append, List.length_replicate] at hk
    rcases hn with rfl | rfl
    · rw [List.replicate_zero, List.append_nil, List.append_assoc]
      exact (List.take_left' hk).symm
    · simpa using eq_take_append_replicate hk
  | @rejected pulled rest chunk out q q' fault n hinput hall hchunk =>
    rw [hinput, Pipeline.reports_of_consume_eq_error hall hchunk, List.map_append, map_some_map_ok]
    exact stopped_eq_take hk
  | @failed out q q' fault n hall hend =>
    rw [Pipeline.reports_of_finish_eq_error hall hend, List.map_append, map_some_map_ok]
    exact stopped_eq_take hk

/-- The chunks that were pulled are the first ones. -/
lemma Reads.input_suffix (h : Reads p input answers it) : it.input <:+ input := by
  cases h with
  | running hinput _ => exact ⟨_, hinput.symm⟩
  | ended => exact List.nil_suffix
  | @rejected pulled rest chunk _ _ _ _ _ hinput =>
    exact ⟨pulled ++ [chunk], by rw [hinput, List.append_assoc]; rfl⟩
  | failed => exact List.nil_suffix

/-- **No chunk refused.**  If the eager reading of the chunks that were pulled comes to its end, so
does the early stop, and it hands out what is missing. -/
lemma Reads.finish_eq_ok (h : Reads p input answers it) (hpulled : input = pulled ++ it.input)
    (hall : p.consumeAll pulled = (.ok tokens, q)) (hend : q.finish = (.ok last, q')) :
    ∃ ready, it.finish = (.ok ready, q') ∧ (∀ fault, some (.error fault) ∉ answers) ∧
      tokensOf answers ++ ready = tokens ++ last := by
  cases h with
  | @running _ rest out ready _ hinput hall' =>
    obtain rfl := List.append_cancel_right (hinput.symm.trans hpulled)
    cases hall.symm.trans hall'
    refine ⟨ready ++ last, ?_, ?_, ?_⟩
    · simp only [finish, hend, Bool.false_eq_true, if_false]
    · simpa using error_not_mem out 0
    · rw [tokensOf_answersOf, List.append_assoc]
  | @ended out ready _ n hrun _ =>
    obtain rfl : input = pulled := by simpa using hpulled
    have hsame :=
      hrun.symm.trans (Pipeline.readAll_eq_ok_iff.2 ⟨tokens, q, last, hall, hend, rfl⟩)
    simp only [Prod.mk.injEq, Except.ok.injEq] at hsame
    obtain ⟨htokens, rfl⟩ := hsame
    refine ⟨ready, rfl, error_not_mem out n, ?_⟩
    rwa [tokensOf_append, tokensOf_answersOf, tokensOf_replicate_none, List.append_nil]
  | @rejected _ rest chunk _ _ _ _ _ hinput hall' hchunk =>
    rw [List.append_cons] at hinput
    obtain rfl := List.append_cancel_right (hinput.symm.trans hpulled)
    exact absurd hall (Pipeline.not_consumeAll_of_consume_eq_error hall' hchunk _ _)
  | failed _ hall' hend' =>
    obtain rfl : input = pulled := by simpa using hpulled
    cases hall.symm.trans hall'
    cases hend.symm.trans hend'

/-- If the eager reading of these chunks fails at the end, the early stop reports the same error,
unless it has been an answer already. -/
lemma Reads.finish_eq_error (h : Reads p input answers it) (hpulled : input = pulled ++ it.input)
    (hall : p.consumeAll pulled = (.ok tokens, q)) (hend : q.finish = (.error fault, q')) :
    it.finish = (.error fault, q') ∨
      some (.error fault) ∈ answers ∧ tokensOf answers = tokens ∧ it.finish = (.ok [], q') := by
  cases h with
  | @running _ rest out ready _ hinput hall' =>
    obtain rfl := List.append_cancel_right (hinput.symm.trans hpulled)
    cases hall.symm.trans hall'
    left
    simp only [finish, hend, Bool.false_eq_true, if_false]
  | ended _ hrun =>
    obtain rfl : input = pulled := by simpa using hpulled
    obtain ⟨_, _, _, hall', hend', _⟩ := Pipeline.readAll_eq_ok_iff.1 hrun
    cases hall.symm.trans hall'
    cases hend.symm.trans hend'
  | @rejected _ rest chunk _ _ _ _ _ hinput hall' hchunk =>
    rw [List.append_cons] at hinput
    obtain rfl := List.append_cancel_right (hinput.symm.trans hpulled)
    exact absurd hall (Pipeline.not_consumeAll_of_consume_eq_error hall' hchunk _ _)
  | failed n hall' hend' =>
    obtain rfl : input = pulled := by simpa using hpulled
    cases hall.symm.trans hall'
    cases hend.symm.trans hend'
    exact .inr ⟨List.mem_append_right _ List.mem_cons_self, tokensOf_stopped _ _ n, rfl⟩

/-- A list is longer than a part of its end. -/
lemma not_append_cons_suffix {α : Type} {xs ys : List α} {x : α} : ¬ xs ++ x :: ys <:+ ys := by
  intro h
  have hlength := h.length_le
  rw [List.length_append, List.length_cons] at hlength
  omega

/-- While pulling goes on, nothing comes out.  Induction over the chunks that are pulled. -/
lemma exists_consumeAll_of_pull (h : (pull q (earlier ++ chunk :: rest)).2.input <:+ rest) :
    ∃ r, q.consumeAll earlier = (.ok [], r) := by
  induction earlier generalizing q with
  | nil => exact ⟨q, rfl⟩
  | cons first earlier ih =>
    rw [List.cons_append, pull] at h
    rcases hfirst : q.consume first with ⟨fault | _ | ⟨token, ready⟩, q'⟩
    · simp only [hfirst] at h
      exact absurd h not_append_cons_suffix
    · simp only [hfirst] at h
      obtain ⟨r, hall⟩ := ih h
      exact ⟨r, Pipeline.consumeAll_cons_eq_ok_iff.2 ⟨[], q', [], hfirst, hall, rfl⟩⟩
    · simp only [hfirst] at h
      exact absurd h not_append_cons_suffix

/-- **No chunk too early.**  If the next question makes the stream pull a chunk, the tokens of all
chunks before it have been handed out. -/
lemma Reads.pulls_late (h : Reads p input answers it) (hpulled : input = pulled ++ it.input)
    (hnext : it.input = earlier ++ chunk :: rest) (hrest : it.next?.2.input <:+ rest) :
    ∃ r, p.consumeAll (pulled ++ earlier) = (.ok (tokensOf answers), r) := by
  cases h with
  | @running _ left out ready q hinput hall =>
    obtain rfl := List.append_cancel_right (hinput.symm.trans hpulled)
    obtain rfl : left = earlier ++ chunk :: rest := hnext
    cases ready with
    | nil =>
      obtain ⟨r, hmore⟩ := exists_consumeAll_of_pull (q := q) hrest
      rw [List.append_nil] at hall
      refine ⟨r, Pipeline.consumeAll_append_eq_ok_iff.2 ⟨out, q, [], hall, hmore, ?_⟩⟩
      rw [tokensOf_answersOf, List.append_nil]
    | cons token ready => exact absurd hrest not_append_cons_suffix
  | ended => exact absurd hnext (by simp)
  | @rejected _ left _ _ _ _ _ _ _ _ _ =>
    obtain rfl : left = earlier ++ chunk :: rest := hnext
    exact absurd hrest not_append_cons_suffix
  | failed => exact absurd hnext (by simp)

/-- A chunk that is refused is not among those that were read. -/
lemma suffix_of_consumeAll {left : List Chunk} {out : List Token} {r : Pipeline s}
    (hinput : pulled ++ left = earlier ++ chunk :: rest)
    (hall : p.consumeAll earlier = (.ok tokens, q))
    (hchunk : q.consume chunk = (.error fault, q')) (hpulled : p.consumeAll pulled = (.ok out, r)) :
    chunk :: rest <:+ left := by
  have hleft : left <:+ earlier ++ chunk :: rest := ⟨pulled, hinput⟩
  rcases List.suffix_or_suffix_of_suffix (List.suffix_append earlier _) hleft with hsuffix | hsuffix
  · exact hsuffix
  · rcases List.suffix_cons_iff.1 hsuffix with rfl | ⟨before, rfl⟩
    · exact List.suffix_refl _
    · rw [← List.cons_append, ← List.append_assoc] at hinput
      obtain rfl := List.append_cancel_right hinput
      exact absurd hpulled (Pipeline.not_consumeAll_of_consume_eq_error hall hchunk _ _)

/-- **A chunk refused.**  The answers are the tokens of the chunks before it and then its error, and
no chunk behind it is pulled. -/
lemma Reads.refused (h : Reads p input answers it) (hk : answers.length = k)
    (hinput : input = earlier ++ chunk :: rest) (hall : p.consumeAll earlier = (.ok tokens, q))
    (hchunk : q.consume chunk = (.error fault, q')) :
    answers = (answersOf tokens ++ some (Except.error fault) :: .replicate k none).take k ∧
      rest <:+ it.input := by
  constructor
  · have hanswers := h.answers_eq hk
    rw [hinput, Pipeline.reports_of_consume_eq_error hall hchunk, List.map_append, map_some_map_ok,
      List.append_assoc] at hanswers
    exact hanswers
  · cases h with
    | running hinput' hpulled =>
      exact (List.suffix_cons chunk rest).trans
        (suffix_of_consumeAll (hinput'.symm.trans hinput) hall hchunk hpulled)
    | rejected _ hinput' hpulled _ =>
      have hsuffix := suffix_of_consumeAll (hinput'.symm.trans hinput) hall hchunk hpulled
      rcases List.suffix_cons_iff.1 hsuffix with hsame | hsuffix
      · obtain ⟨rfl, rfl⟩ := List.cons_eq_cons.1 hsame
        exact List.suffix_refl _
      · exact (List.suffix_cons chunk rest).trans hsuffix
    | ended _ hrun =>
      obtain ⟨_, _, _, hpulled, _⟩ := Pipeline.readAll_eq_ok_iff.1 hrun
      rw [hinput] at hpulled
      exact absurd hpulled (Pipeline.not_consumeAll_of_consume_eq_error hall hchunk _ _)
    | failed _ hpulled _ =>
      rw [hinput] at hpulled
      exact absurd hpulled (Pipeline.not_consumeAll_of_consume_eq_error hall hchunk _ _)

/-! ## Agreement -/

/-- A stream of the tokens of `input` by the pipeline `p`, which has been asked `k` times and has
given the answers, agrees with an eager reading. -/
structure Agrees (p : Pipeline s) (input : List Chunk) (k : Nat) (answers : List Answer)
    (it : TokenStream s) : Prop where
  /-- It answers with what the eager reading reports, and then with nothing. -/
  answers_eq : answers = ((p.reports input).map some ++ .replicate k none).take k
  /-- The chunks that it pulls are the first ones. -/
  input_suffix : it.input <:+ input
  /-- If no chunk that was pulled is refused, and the stream can be ended after them, then the early
  stop ends it.  The tokens handed out and those of the early stop are the tokens of these chunks
  and of the end. -/
  finish_eq_ok : ∀ pulled tokens q last q', input = pulled ++ it.input →
    p.consumeAll pulled = (.ok tokens, q) → q.finish = (.ok last, q') →
    ∃ ready, it.finish = (.ok ready, q') ∧ (∀ fault, some (.error fault) ∉ answers) ∧
      tokensOf answers ++ ready = tokens ++ last
  /-- If the stream cannot be ended, the early stop reports the same error, unless that has been an
  answer already. -/
  finish_eq_error : ∀ pulled tokens q fault q', input = pulled ++ it.input →
    p.consumeAll pulled = (.ok tokens, q) → q.finish = (.error fault, q') →
    it.finish = (.error fault, q') ∨
      some (.error fault) ∈ answers ∧ tokensOf answers = tokens ∧ it.finish = (.ok [], q')
  /-- If all passes take chunks, it can be ended. -/
  exists_finish : p.Takes → ∀ pulled tokens q, input = pulled ++ it.input →
    p.consumeAll pulled = (.ok tokens, q) → ∃ ready q', it.finish = (.ok ready, q')
  /-- If the next question makes it pull a chunk, then it has handed out the tokens of all chunks
  before that one. -/
  pulls_late : ∀ pulled earlier chunk rest, input = pulled ++ it.input →
    it.input = earlier ++ chunk :: rest → it.next?.2.input <:+ rest →
    ∃ q, p.consumeAll (pulled ++ earlier) = (.ok (tokensOf answers), q)
  /-- If a chunk is refused, it answers with the tokens of those before, then with the error, and
  then with nothing, and pulls no chunk behind the one that is refused. -/
  refused : ∀ earlier chunk rest tokens q fault q', input = earlier ++ chunk :: rest →
    p.consumeAll earlier = (.ok tokens, q) → q.consume chunk = (.error fault, q') →
    answers = (answersOf tokens ++ some (Except.error fault) :: .replicate k none).take k ∧
      rest <:+ it.input

/-- **Lazy is eager.**  However often a stream of the tokens of any pipeline is asked for the next
token, it has answered like an eager reading of the same chunks, and an early stop hands out the
rest. -/
theorem takeNext_agrees (p : Pipeline s) (input : List Chunk) (k : Nat) :
    Agrees p input k ((new p input).takeNext k).1 ((new p input).takeNext k).2 := by
  have hreads := (reads_new p input).takeNext k
  rw [List.nil_append] at hreads
  have hk := length_takeNext (new p input) k
  refine
    { answers_eq := hreads.answers_eq hk
      input_suffix := hreads.input_suffix
      finish_eq_ok := fun _ _ _ _ _ hpulled hall hend => hreads.finish_eq_ok hpulled hall hend
      finish_eq_error := fun _ _ _ _ _ hpulled hall hend =>
        hreads.finish_eq_error hpulled hall hend
      exists_finish := ?_
      pulls_late := fun _ _ _ _ hpulled hnext hrest => hreads.pulls_late hpulled hnext hrest
      refused := fun _ _ _ _ _ _ _ hinput hall hchunk => hreads.refused hk hinput hall hchunk }
  intro htakes pulled tokens q hpulled hall
  obtain ⟨last, q', hend, _⟩ := (htakes.of_consumeAll hall).1.exists_finish
  obtain ⟨ready, hfinish, _⟩ := hreads.finish_eq_ok hpulled hall hend
  exact ⟨ready, q', hfinish⟩

/-- Two passes are asked for three tokens and then stopped.  A pass over text reads a mark and then
refuses a token. -/
theorem takeNext_agrees_outline :
    (∃ answers it pulled tokens q last q' ready,
      (new .outline [.text "so#", .text "#one", .text "##"]).takeNext 3 = (answers, it) ∧
      [.text "so#", .text "#one", .text "##"] = pulled ++ it.input ∧
      Pipeline.outline.consumeAll pulled = (.ok tokens, q) ∧ q.finish = (.ok last, q') ∧
      it.finish = (.ok ready, q') ∧ tokensOf answers ++ ready = tokens ++ last) ∧
    ∃ tokens fault, (misfit.takeNext 2).1 =
      (answersOf tokens ++ some (Except.error fault) :: .replicate 2 none).take 2 := by
  constructor
  · have hagrees := takeNext_agrees .outline [.text "so#", .text "#one", .text "##"] 3
    obtain ⟨pulled, hpulled⟩ := hagrees.input_suffix
    have hsuits : ∀ chunk ∈ [.text "so#", .text "#one", .text "##"],
        Chunk.Suits chunk Pipeline.outline.mode := by
      simp [Chunk.Suits, Pipeline.outline, Pipeline.mode, Tokenizer.marker]
    obtain ⟨tokens, q, hall, hq, _⟩ := Pipeline.takes_outline.exists_consumeAll
      fun chunk hchunk => hsuits chunk (hpulled ▸ List.mem_append_left _ hchunk)
    obtain ⟨last, q', hend, _⟩ := hq.exists_finish
    obtain ⟨ready, hfinish, _, htokens⟩ :=
      hagrees.finish_eq_ok pulled tokens q last q' hpulled.symm hall hend
    exact ⟨_, _, pulled, tokens, q, last, q', ready, rfl, hpulled.symm, hall, hend, hfinish, htokens⟩
  · have htakes := Pipeline.takes_single_iff.2 Tokenizer.ready_marker.takes
    have hsuits : ∀ chunk ∈ [.text "#"], Chunk.Suits chunk (Pipeline.single .marker).mode := by
      simp [Chunk.Suits, Pipeline.mode, Tokenizer.marker]
    obtain ⟨tokens, q, hall, hq, hmode, _⟩ := htakes.exists_consumeAll hsuits
    have hmisfit : ¬ Chunk.Suits (.token { kind := "x", value := .absent }) q.mode := by
      rw [hmode]
      simp [Chunk.Suits, Pipeline.mode, Tokenizer.marker]
    obtain ⟨fault, q', hchunk, _⟩ := hq.exists_finish_of_not_suits hmisfit
    have hrefused := (takeNext_agrees (.single .marker) _ 2).refused [.text "#"]
      (.token { kind := "x", value := .absent }) [] tokens q fault q' rfl hall hchunk
    exact ⟨tokens, fault, hrefused.1⟩

end TokenStream

end Lexing
