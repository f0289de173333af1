import Lexing.Proofs.Chains

/-!
# Pipelines that stay silent

A pass that has been finished before, or has no default lexeme, refuses all chunks.  It hands out
nothing, and no more does a pipeline that such a pass is part of, if nothing is pending behind it:
what the passes before it hand out makes a call fail, and what comes with an error is lost.

The property is kept by every call (`Pipeline.keepsSilent_consume`), so a run hands out nothing
(`Pipeline.emitted_of_silent`), whether or not some of its calls fail.  Nothing is pending when a
stream begins, and then a pipeline is silent unless all its passes take chunks
(`Pipeline.silent_of_idle`).
-/

namespace Lexing

namespace Pipeline

variable {s : Shape} {p q : Pipeline s} {chunks : List Chunk} {tokens : List Token}

/-! ## What a run hands out -/

/-- All tokens that are handed out while chunks are read and when the stream is ended, whether or
not some of the calls fail. -/
def emitted (p : Pipeline s) : List Chunk → List Token
  | [] => handedOut p.finish.1
  | chunk :: chunks => handedOut (p.consume chunk).1 ++ emitted (p.consume chunk).2 chunks

lemma emitted_of_readAll (h : p.readAll chunks = (.ok tokens, q)) : p.emitted chunks = tokens := by
  obtain ⟨out, p₁, last, hall, hend, rfl⟩ := readAll_eq_ok_iff.1 h
  clear h
  induction chunks generalizing p out with
  | nil =>
    cases hall
    simp [emitted, handedOut, hend]
  | cons chunk chunks ih =>
    obtain ⟨now, p₂, later, hone, hrest, rfl⟩ := consumeAll_cons_eq_ok_iff.1 hall
    simp [emitted, handedOut, hone, ih later hrest]

/-! ## Pipelines that hand out nothing -/

/-- Some pass takes no chunks, and nothing is pending in those behind it. -/
def Silent : {s : Shape} → Pipeline s → Prop
  | _, single t => t.Reachable ∧ ¬ t.Takes
  | _, chain first second =>
    first.Silent ∧ second.Every Tokenizer.Idle ∨ second.Silent

end Pipeline

namespace Tokenizer

variable {t : Tokenizer}

/-- A tokenizer that takes no chunks has nothing to flush. -/
lemma handedOut_finish_of_not_takes (h : t.Reachable) (htakes : ¬ t.Takes) :
    Pipeline.handedOut t.finish.1 = [] := by
  cases hstatus : t.status with
  | finished => simp [finish, hstatus, Pipeline.handedOut]
  | poisoned => simp [finish, hstatus, Pipeline.handedOut]
  | accepting =>
    cases hmachine : t.machine with
    | ok machine => exact absurd (Open.takes ⟨h, hstatus⟩ hmachine) htakes
    | error fault => simp [finish_of_machine_eq_error hstatus hmachine, Pipeline.handedOut]

/-- If nothing is pending, nothing is flushed. -/
lemma Idle.handedOut_finish (h : t.Idle) : Pipeline.handedOut t.finish.1 = [] := by
  by_cases htakes : t.Takes
  · obtain ⟨l, w, hat⟩ := htakes.exists_at
    obtain ⟨blocks, tokens, t', hfinish, _, _, _, _, hmakes, hblocks⟩ :=
      hat.exists_finish_eq htakes.accepting
    rw [hfinish]
    apply StateTable.eq_nil_of_forall₂_makes hmakes
    rw [hblocks, ← hat.pending_eq, h.pending_eq]
  · exact handedOut_finish_of_not_takes h.reachable htakes

lemma exists_consume_eq_error_of_not_takes (h : t.Reachable) (htakes : ¬ t.Takes) (chunk : Chunk) :
    ∃ fault, t.consume chunk = (.error fault, t) := by
  cases hstatus : t.status with
  | finished => exact ⟨.finished, by simp only [consume, hstatus]⟩
  | poisoned => exact ⟨.poisoned, by simp only [consume, hstatus]⟩
  | accepting =>
    cases hmachine : t.machine with
    | ok machine => exact absurd (Open.takes ⟨h, hstatus⟩ hmachine) htakes
    | error fault => exact ⟨.lexicon fault, consume_of_error hstatus hmachine⟩

end Tokenizer

namespace Pipeline

variable {s s₁ s₂ : Shape} {p : Pipeline s}

/-- A chain flushes nothing, if its second pass makes nothing of what the first flushes and then has
nothing to flush. -/
lemma handedOut_finish_chain {first : Pipeline s₁} {second : Pipeline s₂}
    (h : ∀ flushed, handedOut first.finish.1 = flushed →
      handedOut (second.consumeAll (flushed.map .token)).1 = [] ∧
        handedOut (second.consumeAll (flushed.map .token)).2.finish.1 = []) :
    handedOut (chain first second).finish.1 = [] := by
  rw [finish]
  rcases hfinish : first.finish with ⟨_ | flushed, first'⟩
  · rfl
  · obtain ⟨hfed, hlast⟩ := h flushed (by rw [hfinish]; rfl)
    rw [← feedTokens_eq_consumeAll] at hfed hlast
    simp only
    rcases hfeed : feedTokens consume second flushed with ⟨_ | out, second'⟩
    · rfl
    · rw [hfeed] at hfed hlast
      obtain rfl : out = [] := hfed
      simp only
      rcases hmore : second'.finish with ⟨_ | more, second''⟩
      · rfl
      · rw [hmore] at hlast
        exact hlast

/-- Where nothing is pending, nothing is flushed. -/
lemma handedOut_finish_of_idle {p : Pipeline s} (h : p.Every Tokenizer.Idle) :
    handedOut p.finish.1 = [] := by
  induction p with
  | single t => exact Tokenizer.Idle.handedOut_finish h
  | chain first second ih₁ ih₂ =>
    apply handedOut_finish_chain
    rintro flushed rfl
    rw [ih₁ h.1]
    exact ⟨rfl, ih₂ h.2⟩

/-- The result of a call that hands out nothing and leaves the pipeline silent. -/
def KeepsSilent (r : Except PipelineError (List Token) × Pipeline s) : Prop :=
  handedOut r.1 = [] ∧ r.2.Silent

lemma keepsSilent_consumeAll
    (hconsume : ∀ (p : Pipeline s) (chunk : Chunk), p.Silent → KeepsSilent (p.consume chunk))
    (h : p.Silent) (chunks : List Chunk) : KeepsSilent (p.consumeAll chunks) := by
  induction chunks generalizing p with
  | nil => exact ⟨rfl, h⟩
  | cons chunk chunks ih =>
    have hone := hconsume p chunk h
    rw [consumeAll]
    rcases hnow : p.consume chunk with ⟨_ | now, p'⟩
    · rw [hnow] at hone
      exact ⟨rfl, hone.2⟩
    · rw [hnow] at hone
      obtain rfl : now = [] := hone.1
      have hrest := ih hone.2
      simp only
      rcases hlater : p'.consumeAll chunks with ⟨_ | later, p''⟩
      · rw [hlater] at hrest
        exact ⟨rfl, hrest.2⟩
      · rw [hlater] at hrest
        exact hrest

/-- **One chunk.**  Induction over the shape. -/
lemma keepsSilent_consume (p : Pipeline s) (chunk : Chunk) (h : p.Silent) :
    KeepsSilent (p.consume chunk) := by
  induction s generalizing chunk with
  | single =>
    cases p with
    | single t =>
      obtain ⟨fault, hconsume⟩ := Tokenizer.exists_consume_eq_error_of_not_takes h.1 h.2 chunk
      rw [consume, hconsume]
      exact ⟨rfl, h⟩
  | chain s₁ s₂ ih₁ ih₂ =>
    cases p with
    | chain first second =>
      rw [consume]
      rcases h with ⟨hfirst, hsecond⟩ | hsecond
      · have hone := ih₁ first chunk hfirst
        rcases hnow : first.consume chunk with ⟨_ | now, first'⟩
        · rw [hnow] at hone
          exact ⟨rfl, .inl ⟨hone.2, hsecond⟩⟩
        · rw [hnow] at hone
          obtain rfl : now = [] := hone.1
          exact ⟨rfl, .inl ⟨hone.2, hsecond⟩⟩
      · rcases first.consume chunk with ⟨_ | now, first'⟩
        · exact ⟨rfl, .inr hsecond⟩
        · have hfed := keepsSilent_consumeAll ih₂ hsecond (now.map .token)
          rw [← feedTokens_eq_consumeAll] at hfed
          exact ⟨hfed.1, .inr hfed.2⟩

/-- **The end.** -/
lemma handedOut_finish_of_silent {p : Pipeline s} (h : p.Silent) : handedOut p.finish.1 = [] := by
  induction s with
  | single =>
    cases p with
    | single t => exact Tokenizer.handedOut_finish_of_not_takes h.1 h.2
  | chain s₁ s₂ ih₁ ih₂ =>
    cases p with
    | chain first second =>
      apply handedOut_finish_chain
      rintro flushed rfl
      rcases h with ⟨hfirst, hsecond⟩ | hsecond
      · rw [ih₁ hfirst]
        exact ⟨rfl, handedOut_finish_of_idle hsecond⟩
      · obtain ⟨hfed, hsilent⟩ := keepsSilent_consumeAll keepsSilent_consume hsecond _
        exact ⟨hfed, ih₂ hsilent⟩

lemma emitted_of_silent (h : p.Silent) (chunks : List Chunk) : p.emitted chunks = [] := by
  induction chunks generalizing p with
  | nil => exact handedOut_finish_of_silent h
  | cons chunk chunks ih =>
    obtain ⟨hone, hsilent⟩ := keepsSilent_consume p chunk h
    rw [emitted, hone, ih hsilent]
    rfl

/-- A pipeline in which nothing is pending is silent if not every pass takes chunks. -/
lemma silent_of_idle {p : Pipeline s} (h : p.Every Tokenizer.Idle)
    (htakes : ¬ p.Every Tokenizer.Takes) : p.Silent := by
  induction p with
  | single t => exact ⟨h.reachable, htakes⟩
  | chain first second ih₁ ih₂ =>
    by_cases hfirst : first.Every Tokenizer.Takes
    · exact .inr (ih₂ h.2 fun hsecond => htakes ⟨hfirst, hsecond⟩)
    · exact .inl ⟨ih₁ h.1 hfirst, h.2⟩

end Pipeline

end Lexing
