import Lexing.Proofs.Refusals

/-!
# What a rejected chunk leaves behind

A chunk can be rejected after the tokenizer has begun to deal with it: the lexicon is compiled
before the chunk is looked at.  That is all that can have happened
(`Tokenizer.Reachable.rejected_cases`).  The automaton never goes wrong, so whatever was wrong with
the chunk was found out before a symbol of it was read.

A tokenizer that has compiled its lexicon answers like one that has yet to do so, however long the
two runs are.  So a rejected chunk leaves no trace in what later calls answer, and none at all if
there was a table before (`Tokenizer.callAll_rejected`).
-/

namespace Lexing.Tokenizer

variable {t t' : Tokenizer} {chunk : Chunk} {fault : PipelineError}

lemma prepare_of_table? (h : t.table? ≠ none) : t.prepare = .ok t := by
  cases hphase : t.phase with
  | drafting draft => simp [table?, hphase] at h
  | compiled machine => exact prepare_of_compiled hphase

/-- A rejected chunk changes nothing, or only that the lexicon has been compiled. -/
lemma Reachable.rejected_cases (h : t.Reachable)
    (hrejected : t.consume chunk = (.error fault, t')) : t' = t ∨ t.prepare = .ok t' := by
  by_cases hopen : t.status = .accepting
  · cases hmachine : t.machine with
    | error cause =>
      rw [consume_of_error hopen hmachine] at hrejected
      exact .inl (congrArg Prod.snd hrejected).symm
    | ok machine =>
      obtain ⟨l, w, hat⟩ := h.exists_at hmachine
      by_cases hchunk : chunk.Suits t.config.mode
      · -- A chunk that suits the mode is read to its end.
        obtain ⟨_, _, _, _, _, _, _, hconsume, _⟩ := hat.exists_consume hopen hchunk
        cases hrejected.symm.trans hconsume
      · obtain ⟨_, hconsume⟩ := hat.exists_consume_eq_error hopen hchunk
        cases hrejected.symm.trans hconsume
        exact .inr hat.prepare_eq
  · have hsame : (t.consume chunk).2 = t := consume_of_ne_accepting hopen
    rw [hrejected] at hsame
    exact .inl hsame

/-- **A rejected chunk leaves no trace.**  Wherever calls have led a tokenizer, after a chunk that
it rejects it answers any calls as it would have done without the chunk.  If it had a table before,
it is the same as before in every respect. -/
theorem callAll_rejected (h : t.Reachable) (hrejected : t.consume chunk = (.error fault, t')) :
    (∀ calls, (callAll call t' calls).1 = (callAll call t calls).1) ∧
      (t.table? ≠ none → t' = t) := by
  rcases h.rejected_cases hrejected with rfl | hprepare
  · exact ⟨fun _ => rfl, fun _ => rfl⟩
  · refine ⟨callAll_of_prepare hprepare, fun htable => ?_⟩
    exact Except.ok.inj (hprepare.symm.trans (prepare_of_table? htable))

/-- A token comes where a text is expected, while a match is in progress. -/
theorem callAll_rejected_marks :
    ∃ tokens t fault t', marker.consume (.text "so#") = (.ok tokens, t) ∧ t.Reachable ∧
      t.pending.length = 1 ∧ t.table? ≠ none ∧
      t.consume (.token { kind := "x", value := .absent }) = (.error fault, t') ∧ t' = t ∧
      (callAll call t' [.consume (.text "#"), .finish]).1 =
        (callAll call t [.consume (.text "#"), .finish]).1 := by
  have htext : Chunk.Suits (.text "so#") marker.config.mode := rfl
  obtain ⟨tokens, t, hconsume, htakes, hconfig, _⟩ := ready_marker.takes.exists_consume htext
  have htoken : ¬ Chunk.Suits (.token { kind := "x", value := .absent }) t.config.mode := by
    simp [Chunk.Suits, hconfig, marker]
  obtain ⟨fault, t', hrejected, _⟩ := htakes.exists_consume_eq_error htoken
  have hafter : (marker.consume (.text "so#")).2.pending.length = 1 ∧
      (marker.consume (.text "so#")).2.table?.isSome = true := by decide +kernel
  rw [hconsume] at hafter
  have htable : t.table? ≠ none := Option.isSome_iff_ne_none.1 hafter.2
  obtain ⟨hanswers, hsame⟩ := callAll_rejected htakes.reachable hrejected
  exact ⟨tokens, t, fault, t', hconsume, htakes.reachable, hafter.1, htable, hrejected,
    hsame htable, hanswers _⟩

end Lexing.Tokenizer
