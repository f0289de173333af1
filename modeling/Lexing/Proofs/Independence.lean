import Lexing.Proofs.Likeness

/-!
# Pipelines do not look at values

Let two pipelines have alike passes, one by one.  Then it does not matter what values are in the
chunks that they get and what their attributes compute: every call gives both the same answer, up to
values, and leads both through the same states (`Pipeline.callAll_independent`).

The value that an attribute computes in one pass is the value of a symbol in the next.  What carries
the proof is therefore that tokens which are alike when hollow are chunks that agree, for whatever
pass reads them (`Pipeline.Flow.alike`).  How the passes are nested is of no account, so the two
pipelines need not have the same shape.
-/

namespace Lexing

namespace Pipeline

/-! ## Alike pipelines -/

section Alike

variable {s₁ s₂ : Shape} {p p' : Pipeline s₁} {q q' : Pipeline s₂} {chunks chunks' : List Chunk}
  {ends : Bool} {ts ts' us us' : List Tokenizer} {traces traces' : List (List Passage)}
  {tokens tokens' out out' : List Token}

/-- The pipelines have as many passes, which take chunks and are alike one by one. -/
structure Alike (p : Pipeline s₁) (q : Pipeline s₂) : Prop where
  left : p.Takes
  right : q.Takes
  passes : List.Forall₂ Tokenizer.Alike p.passes q.passes

lemma Alike.head (h : p.Alike q) : p.head.Alike q.head := by
  have hpasses : List.Forall₂ _ (p.head :: p.later) (q.head :: q.later) := h.passes
  cases hpasses with
  | cons hhead _ => exact hhead

lemma Alike.later (h : p.Alike q) : List.Forall₂ Tokenizer.Alike p.later q.later := by
  have hpasses : List.Forall₂ _ (p.head :: p.later) (q.head :: q.later) := h.passes
  cases hpasses with
  | cons _ hlater => exact hlater

lemma Alike.mode_eq (h : p.Alike q) : p.mode = q.mode := by
  rw [mode_eq_head, mode_eq_head, h.head.mode_eq]

lemma Alike.length_eq (h : p.Alike q) : p.passes.length = q.passes.length :=
  h.passes.length_eq

/-- Pipelines at the start of a stream are alike if the lexicons of their passes are. -/
lemma alike_of_begins (hp : p.Linked) (hq : q.Linked) (hbegins : p.Every Tokenizer.Begins)
    (hbegins' : q.Every Tokenizer.Begins)
    (hsame : List.Forall₂ Tokenizer.SameButValues p.passes q.passes) : p.Alike q := by
  -- what is known of every pass of one side goes into the relation, and comes out of it again
  have hleft := (List.forall₂_and_left _ _).2 ⟨every_iff.1 hbegins, hsame⟩
  have hboth := (List.forall₂_and_left _ _).2 ⟨every_iff.1 hbegins', hleft.flip⟩
  have halike : List.Forall₂ Tokenizer.Alike p.passes q.passes :=
    hboth.flip.imp fun _ _ ⟨hu, ht, h⟩ => ht.alike hu h
  have htakes := (List.forall₂_and_left _ _).1 (halike.imp fun _ _ h => ⟨h.takes.1, h⟩)
  have htakes' := (List.forall₂_and_left _ _).1 (halike.flip.imp fun _ _ h => ⟨h.takes.2, h⟩)
  exact ⟨⟨hp, every_iff.2 htakes.1⟩, ⟨hq, every_iff.2 htakes'.1⟩, halike⟩

/-! ## Reading -/

/-- **Tokens through passes.**  Tokens of the same kinds and positions take alike passes the same
way. -/
lemma Flow.alike (h : Flow ends ts tokens traces out ts')
    (h' : Flow ends us tokens' traces' out' us') (halike : List.Forall₂ Tokenizer.Alike ts us)
    (htokens : tokens.map Token.hollow = tokens'.map Token.hollow) :
    out.map Token.hollow = out'.map Token.hollow ∧
      List.Forall₂ (Tokenizer.AlikeAfter ends) ts' us' ∧
      traces.map (·.map Passage.hollow) = traces'.map (·.map Passage.hollow) := by
  induction h generalizing us tokens' traces' us' with
  | nil =>
    cases halike
    cases h'
    exact ⟨htokens, .nil, rfl⟩
  | cons hone _ ih =>
    cases halike with
    | cons hfirst hmore =>
      cases h' with
      | cons hone' hrest' =>
        obtain ⟨hhanded, hafter, hpassages⟩ :=
          hfirst.read (Chunk.agreeAll_map_token htokens _ _) hone hone'
        obtain ⟨hout, hlast, htraces⟩ := ih hrest' hmore hhanded
        refine ⟨hout, .cons hafter hlast, ?_⟩
        rw [List.map_cons, List.map_cons, hpassages, htraces]

/-- **Chunks through pipelines.** -/
lemma Alike.read (h : p.Alike q) (hagree : Chunk.AgreeAll p.head q.head chunks chunks')
    (hok : p.read ends chunks = (.ok out, p')) (hok' : q.read ends chunks' = (.ok out', q')) :
    out.map Token.hollow = out'.map Token.hollow ∧
      List.Forall₂ (Tokenizer.AlikeAfter ends) p'.passes q'.passes ∧
      (p.passages ends chunks).map (·.map Passage.hollow) =
        (q.passages ends chunks').map (·.map Passage.hollow) := by
  obtain ⟨tokens, traces, hhead, hpassages, hflow⟩ := exists_flow hok
  obtain ⟨tokens', traces', hhead', hpassages', hflow'⟩ := exists_flow hok'
  obtain ⟨htokens, hafter, hone⟩ := h.head.read hagree hhead hhead'
  obtain ⟨hout, hlast, htraces⟩ := hflow.alike hflow' h.later htokens
  refine ⟨hout, .cons hafter hlast, ?_⟩
  rw [hpassages, hpassages', List.map_cons, List.map_cons, hone, htraces]

end Alike

/-! ## Calls that agree -/

/-- Calls that two tokenizers get, one after the other, agree. -/
inductive Call.AgreeAll : Tokenizer → Tokenizer → List Call → List Call → Prop
  | nil {t u : Tokenizer} : AgreeAll t u [] []
  | consume {t u : Tokenizer} {c d : Chunk} {calls calls' : List Call} (h : c.Agrees t u d)
      (hrest : AgreeAll (t.consume c).2 (u.consume d).2 calls calls') :
      AgreeAll t u (.consume c :: calls) (.consume d :: calls')
  | finish {t u : Tokenizer} {calls calls' : List Call}
      (hrest : AgreeAll t.finish.2 u.finish.2 calls calls') :
      AgreeAll t u (.finish :: calls) (.finish :: calls')

/-- The result of a call without the values of the tokens. -/
def hollowResult : Except PipelineError (List Token) → Except PipelineError (List Token) :=
  Except.map (List.map Token.hollow)

/-- What the passes go through, without values. -/
def hollowTraces (traces : List (List Passage)) : List (List Passage) :=
  traces.map (·.map Passage.hollow)

section Calls

variable {s₁ s₂ : Shape} {p : Pipeline s₁} {q : Pipeline s₂} {c d : Chunk}
  {calls calls' : List Call}

lemma hollowTraces_silent (h : p.passes.length = q.passes.length) :
    hollowTraces (p.passes.map fun _ => []) = hollowTraces (q.passes.map fun _ => []) := by
  simp [hollowTraces, h]

/-- **A chunk.**  It is read, or the first passes refuse it. -/
lemma Alike.call_consume (h : p.Alike q) (hagrees : c.Agrees p.head q.head d) :
    hollowResult (p.consume c).1 = hollowResult (q.consume d).1 ∧
      (p.consume c).2.Alike (q.consume d).2 ∧
      hollowTraces (p.passagesIn (.consume c)) = hollowTraces (q.passagesIn (.consume d)) := by
  by_cases hchunk : c.Suits p.mode
  · have hchunk' : d.Suits q.mode := h.mode_eq ▸ (hagrees.suits_iff _).1 hchunk
    obtain ⟨out, p', hconsume, hp', _⟩ := h.left.exists_consume hchunk
    obtain ⟨out', q', hconsume', hq', _⟩ := h.right.exists_consume hchunk'
    have hread := read_of_call (c := .consume c) hconsume
    have hread' := read_of_call (c := .consume d) hconsume'
    obtain ⟨hout, hpasses, hpassages⟩ := h.read (.cons hagrees .nil) hread hread'
    rw [hconsume, hconsume']
    exact ⟨congrArg Except.ok hout, ⟨hp', hq', hpasses⟩, hpassages⟩
  · have hchunk' : ¬ d.Suits q.mode := fun hd => hchunk ((hagrees.suits_iff _).2 (h.mode_eq ▸ hd))
    obtain ⟨fault, t', u', ht, hu, halike, hnone, hnone'⟩ :=
      h.head.exists_consume_eq_error hagrees (mode_eq_head p ▸ hchunk)
    -- the chunk gets no further than the first passes, so the later ones stay as they are
    obtain ⟨p', hconsume, rfl, hlater⟩ := exists_consume_of_head ht
    obtain ⟨q', hconsume', rfl, hlater'⟩ := exists_consume_of_head hu
    obtain ⟨_, _, hone, hp', _⟩ := h.left.exists_consume_eq_error hchunk
    obtain ⟨_, _, hone', hq', _⟩ := h.right.exists_consume_eq_error hchunk'
    cases hconsume.symm.trans hone
    cases hconsume'.symm.trans hone'
    have hpassages : p.passagesIn (.consume c) = _ := passages_of_refused ht hnone
    have hpassages' : q.passagesIn (.consume d) = _ := passages_of_refused hu hnone'
    rw [hconsume, hconsume', hpassages, hpassages']
    refine ⟨rfl, ⟨hp', hq', .cons halike ?_⟩, hollowTraces_silent h.length_eq⟩
    rw [hlater, hlater']
    exact h.later

/-- **The end.** -/
lemma Alike.call_finish (h : p.Alike q) :
    hollowResult p.finish.1 = hollowResult q.finish.1 ∧
      p.finish.2.Finished ∧ q.finish.2.Finished ∧
      p.finish.2.passes.length = q.finish.2.passes.length ∧
      hollowTraces (p.passagesIn .finish) = hollowTraces (q.passagesIn .finish) := by
  obtain ⟨out, p', hfinish, _⟩ := h.left.exists_finish
  obtain ⟨out', q', hfinish', _⟩ := h.right.exists_finish
  have hread := read_of_call (c := .finish) hfinish
  have hread' := read_of_call (c := .finish) hfinish'
  obtain ⟨hout, hpasses, hpassages⟩ := h.read .nil hread hread'
  rw [hfinish, hfinish']
  exact ⟨congrArg Except.ok hout, finished_of_finish hfinish, finished_of_finish hfinish',
    hpasses.length_eq, hpassages⟩

/-! ## After the end -/

lemma Call.AgreeAll.map_late {t u : Tokenizer} (h : AgreeAll t u calls calls') :
    calls.map late = calls'.map late := by
  induction h with
  | nil => rfl
  | consume _ _ ih => exact congrArg (_ :: ·) ih
  | finish _ ih => exact congrArg (_ :: ·) ih

lemma Finished.passagesAll_eq (h : p.Finished) (calls : List Call) :
    p.passagesAll calls = calls.map fun _ => p.passes.map fun _ => [] := by
  induction calls with
  | nil => rfl
  | cons c calls ih =>
    rw [passagesAll, h.ended.call, ih, passagesIn, h.passages_eq]
    rfl

/-- After the end the answers are those to any passes whose stream has ended. -/
lemma Finished.callAll_agree {t u : Tokenizer} (hp : p.Finished) (hq : q.Finished)
    (hlength : p.passes.length = q.passes.length) (hagree : Call.AgreeAll t u calls calls') :
    (Lexing.callAll call p calls).1 = (Lexing.callAll call q calls').1 ∧
      (p.passagesAll calls).map hollowTraces = (q.passagesAll calls').map hollowTraces := by
  have hlate := hagree.map_late
  have hcalls : calls.length = calls'.length := by simpa using congrArg List.length hlate
  rw [hp.ended.callAll, hq.ended.callAll, hp.passagesAll_eq, hq.passagesAll_eq]
  refine ⟨hlate, ?_⟩
  simp [hcalls, hollowTraces, hlength]

/-! ## Several calls -/

/-- **Several calls.**  Induction over the calls: the pipelines stay alike until the stream is
ended. -/
lemma Alike.callAll (h : p.Alike q) (hagree : Call.AgreeAll p.head q.head calls calls') :
    (Lexing.callAll call p calls).1.map hollowResult =
        (Lexing.callAll call q calls').1.map hollowResult ∧
      (p.passagesAll calls).map hollowTraces = (q.passagesAll calls').map hollowTraces := by
  induction calls generalizing p q calls' with
  | nil =>
    cases hagree
    exact ⟨rfl, rfl⟩
  | cons c calls ih =>
    cases hagree with
    | consume hone hrest =>
      obtain ⟨hresult, hnext, htraces⟩ := h.call_consume hone
      rw [← head_consume, ← head_consume] at hrest
      obtain ⟨hresults, hmore⟩ := ih hnext hrest
      exact ⟨congrArg₂ List.cons hresult hresults, congrArg₂ List.cons htraces hmore⟩
    | finish hrest =>
      obtain ⟨hresult, hp, hq, hlength, htraces⟩ := h.call_finish
      obtain ⟨hresults, hmore⟩ := hp.callAll_agree hq hlength hrest
      exact ⟨congrArg₂ List.cons hresult (congrArg _ hresults), congrArg₂ List.cons htraces hmore⟩

/-- **Values do not matter.**  Let two pipelines, nested in any way, have as many passes, all of
them at the start of a stream, whose lexicons differ at most in what their attributes compute; and
let the calls to them agree.  Then every call gives the same answer, up to the values of the tokens,
and every pass takes the same transitions in it, with the same signals, and makes tokens of the same
blocks of symbols.  What is told of a pass is what it did (`Tokenizer.At.account_read`), and the
tokens that are handed out are those that the last pass is told to make.  If the chunks suit the
first pass, a call fails only after the end of the stream. -/
theorem callAll_independent (hp : p.Linked) (hq : q.Linked) (hbegins : p.Every Tokenizer.Begins)
    (hbegins' : q.Every Tokenizer.Begins)
    (hsame : List.Forall₂ Tokenizer.SameButValues p.passes q.passes)
    (hcalls : Call.AgreeAll p.head q.head calls calls') :
    (callAll call p calls).1.map hollowResult = (callAll call q calls').1.map hollowResult ∧
      (p.passagesAll calls).map hollowTraces = (q.passagesAll calls').map hollowTraces ∧
      List.Forall₂ Tells (p.passagesAll calls) (callAll call p calls).1 ∧
      List.Forall₂ Tells (q.passagesAll calls') (callAll call q calls').1 ∧
      ((∀ chunk, .consume chunk ∈ calls → chunk.Suits p.mode) →
        ∀ fault, .error fault ∈ (callAll call p calls).1 → fault = .finished) := by
  have halike := alike_of_begins hp hq hbegins hbegins' hsame
  obtain ⟨hresults, htraces⟩ := halike.callAll hcalls
  exact ⟨hresults, htraces, callAll_tells (.inl halike.left) calls,
    callAll_tells (.inl halike.right) calls',
    fun hchunks _ => halike.left.eq_finished_of_callAll hchunks⟩

end Calls

end Pipeline

/-! ## Attributes that look at nothing -/

/-- A default lexeme like `Lexeme.prose` whose attributes look at nothing. -/
def Lexeme.bland : Lexeme :=
  { kind := "text", items := [], fullMatch := .constant (.text "?"),
    partialMatch? := some (.constant .absent) }

namespace Tokenizer

/-- A pass like `marker` whose attributes look at nothing. -/
def blandMarker : Tokenizer :=
  { config := { specialChars := .fromLexicon }
    phase := .drafting
      { mode := .character
        defaultLexeme? := some .bland
        patternLexemes :=
          [{ kind := "marks"
             items := [.element { symbol := "#", repeats := true }]
             fullMatch := .constant (.text "?")
             partialMatch? := none }] } }

/-- A pass like `outliner` whose attributes look at nothing. -/
def blandOutliner : Tokenizer :=
  { config := { mode := .token }
    phase := .drafting
      { mode := .token
        defaultLexeme? := some .bland
        patternLexemes :=
          [{ kind := "heading"
             items := [.element { symbol := "marks" }, .element { symbol := "text" }]
             fullMatch := .constant .absent
             partialMatch? := some (.constant .absent) }] } }

lemma begins_blandMarker : blandMarker.Begins := by
  have hdefault : (new { specialChars := .fromLexicon }).setDefault
      { kind := "text"
        fullMatch := .constant (.text "?")
        partialMatch? := some (.constant .absent) } =
        .ok { config := { specialChars := .fromLexicon }
              phase := .drafting { mode := .character, defaultLexeme? := some .bland } } := rfl
  have hmarks : addLexeme
      { config := { specialChars := .fromLexicon }
        phase := .drafting { mode := .character, defaultLexeme? := some .bland } }
      { kind := "marks"
        pattern? := some (.sequence [.element { symbol := "#", repeats := true }])
        fullMatch := .constant (.text "?") } = .ok (1, blandMarker) := rfl
  exact ((begins_new _).setDefault hdefault).addLexeme hmarks

lemma begins_blandOutliner : blandOutliner.Begins := by
  have hdefault : (new { mode := .token }).setDefault
      { kind := "text"
        fullMatch := .constant (.text "?")
        partialMatch? := some (.constant .absent) } =
        .ok { config := { mode := .token }
              phase := .drafting { mode := .token, defaultLexeme? := some .bland } } := rfl
  have hheading : addLexeme
      { config := { mode := .token }
        phase := .drafting { mode := .token, defaultLexeme? := some .bland } }
      { kind := "heading"
        pattern? := some (.sequence
          [.element { symbol := "marks" }, .element { symbol := "text" }])
        fullMatch := .constant .absent
        partialMatch? := some (.constant .absent) } = .ok (1, blandOutliner) := rfl
  exact ((begins_new _).setDefault hdefault).addLexeme hheading

end Tokenizer

/-- Three passes read a text, refuse a token and end the stream; three others with other attributes,
nested the other way, read another text of the same form. -/
theorem Pipeline.callAll_independent_outline :
    ∃ (p : Pipeline (.chain (.chain .single .single) .single))
      (q : Pipeline (.chain .single (.chain .single .single))) (calls calls' : List Call),
      p = chain outline (single .outliner) ∧
      q = chain (single .blandMarker) (chain (single .blandOutliner) (single .blandOutliner)) ∧
      calls = [.consume (.text "so##one"), .consume (.token ⟨"a", .text "x", none⟩), .finish] ∧
      calls' = [.consume (.text "my##two"), .consume (.token ⟨"a", .text "y", none⟩), .finish] ∧
      (callAll call p calls).1.map hollowResult = (callAll call q calls').1.map hollowResult ∧
      (p.passagesAll calls).map hollowTraces = (q.passagesAll calls').map hollowTraces := by
  have hmarker : Tokenizer.marker.Begins :=
    ⟨⟨Tokenizer.ready_marker.reachable, rfl⟩, rfl, rfl⟩
  have houtliner : Tokenizer.outliner.Begins :=
    ⟨⟨Tokenizer.ready_outliner.reachable, rfl⟩, rfl, rfl⟩
  have hbland := Tokenizer.begins_blandOutliner
  have hcalls : Call.AgreeAll .marker .blandMarker
      [.consume (.text "so##one"), .consume (.token ⟨"a", .text "x", none⟩), .finish]
      [.consume (.text "my##two"), .consume (.token ⟨"a", .text "y", none⟩), .finish] :=
    .consume rfl (.consume rfl (.finish .nil))
  obtain ⟨hresults, htraces, -⟩ :=
    callAll_independent (p := chain outline (single .outliner))
      (q := chain (single .blandMarker) (chain (single .blandOutliner) (single .blandOutliner)))
      ⟨⟨trivial, trivial, rfl⟩, trivial, rfl⟩ ⟨trivial, ⟨trivial, trivial, rfl⟩, rfl⟩
      ⟨⟨hmarker, houtliner⟩, houtliner⟩ ⟨Tokenizer.begins_blandMarker, hbland, hbland⟩
      (.cons ⟨_, _, rfl, rfl, rfl⟩ (.cons ⟨_, _, rfl, rfl, rfl⟩ (.cons ⟨_, _, rfl, rfl, rfl⟩ .nil)))
      hcalls
  exact ⟨_, _, _, _, rfl, rfl, rfl, rfl, hresults, htraces⟩

end Lexing
