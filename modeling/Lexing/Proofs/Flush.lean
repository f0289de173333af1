import Lexing.Proofs.Lossless
import Lexing.Proofs.Passes
import Lexing.Proofs.Soundness

/-!
# The end of a stream

At the end of a stream the match in progress is settled by what is known of it: the token is a full
match if a lexeme ends where the match stands, and a partial match otherwise
(`Automaton.Settles`).  The sentinel is never asked for again and leaves the automaton at its
start, so what comes after it is read as if nothing had come before
(`Walker.Traced.exists_driveAll_reset`).

For a tokenizer this means that the first call at the end hands out what is pending and that later
ones have nothing to hand out, until the tokenizer is restarted (`Tokenizer.Flushes`).  The main
result is `Tokenizer.flushes_once`.
-/

namespace Lexing

open StateTable

/-! ## Settled matches -/

/-- The token is what becomes of the match in progress at the end of the stream.  It is made of the
symbols of the match; it is a full match of the lexeme that ends at the node to which they lead, if
there is one, and a partial match otherwise. -/
def Automaton.Settles (a : Automaton) (token : Token) : Prop :=
  ∃ id node accept,
    (Trie.ofLexicon a.table.lexicon).descend? Trie.rootId a.history.symbols = some id ∧
    (Trie.ofLexicon a.table.lexicon).node? id = some node ∧
    a.Emits .endOfStream token accept a.history.symbols ∧
    (∀ i, node.fullMatch? = some i → accept = .fullMatch i) ∧
    (node.fullMatch? = none → ∃ i, accept = .partialMatch i)

namespace Walker

variable {t : Trie} {l : Lexicon} {w : Walker} {s : Symbol}

/-- **The sentinel.**  It is never asked for again, and the match is over. -/
lemma Traced.exists_step_endOfStream (ht : t.Fits l) (hw : w.Traced t l)
    (hs : s.isEndOfStream = true) :
    ∃ r, (w.automaton t l).step s = .ok r ∧ r.signal ≠ .replay ∧
      r.automaton = start.automaton t l := by
  refine ⟨_, step_automaton ht hw.toSound s, ?_⟩
  have hsteps := w.steps_step t l s
  generalize w.step t l s = r at hsteps ⊢
  cases hsteps with
  | goesOn hgoes => rw [hs] at hgoes; cases hgoes
  | completes hgoes => rw [hs] at hgoes; cases hgoes
  | passes hgoes => rw [hs] at hgoes; cases hgoes
  | rests _ hroot => exact ⟨by simp [image], by rw [image, hw.toSound.eq_start hroot]⟩
  | stalls => exact ⟨by simp [image, hs], rfl⟩

/-- Away from the root the match in progress becomes one token. -/
lemma Traced.exists_drive_endOfStream (l : Lexicon) (hw : w.Traced (.ofLexicon l) l)
    (hroot : w.node ≠ Trie.rootId) :
    ∃ token, (w.automaton (.ofLexicon l) l).drive .endOfStream =
        .ok ([token], start.automaton (.ofLexicon l) l) ∧
      (w.automaton (.ofLexicon l) l).Settles token := by
  have ht := Trie.fits_ofLexicon l
  obtain ⟨node, hnode⟩ := exists_node?_of_mem_liveNodes hw.live
  obtain ⟨token, htoken, hemit⟩ := hw.toSound.exists_token ht hnode hroot
  obtain ⟨r, hstep, hsignal, hautomaton⟩ :=
    hw.exists_step_endOfStream ht Symbol.isEndOfStream_endOfStream
  have hr := Except.ok.inj (hstep.symm.trans (step_automaton ht hw.toSound .endOfStream))
  have hout : r.token? = some token := by
    rw [hr]
    simp [image, Walker.step, hroot, htoken]
  refine ⟨token, ?_, w.node, node, acceptAt l node, hw.descend?_eq ht, hnode, ?_, ?_, ?_⟩
  · rw [Automaton.drive_of_ne_replay hstep hsignal, hout, hautomaton]
    rfl
  · refine ⟨_, _, w.history, state?_automaton hw.toSound hnode,
      transition?_of_isEndOfStream Symbol.isEndOfStream_endOfStream, accept?_catchAllAt hroot,
      hemit, rfl, ?_⟩
    simp [hroot]
  · intro i hi
    simp only [acceptAt, hi]
  · intro hnone
    exact ⟨partialOwner l node, by simp only [acceptAt, hnone]⟩

/-- **One symbol.**  Whatever is driven through the automaton of a walker leads to that of a walker.
-/
lemma Traced.exists_drive_automaton (ht : t.Fits l) (hw : w.Traced t l) (s : Symbol) :
    ∃ (tokens : List Token) (w' : Walker),
      (w.automaton t l).drive s = .ok (tokens, w'.automaton t l) ∧ w'.Traced t l := by
  have hstep := step_automaton ht hw.toSound s
  by_cases hsignal : (w.step t l s).1.signal = .replay
  · exact ⟨_, _, Automaton.drive_of_replay hstep hsignal (step_image_of_replay ht hsignal),
      (traced_start ht).step ht s⟩
  · exact ⟨_, _, Automaton.drive_of_ne_replay hstep hsignal, hw.step ht s⟩

lemma Traced.exists_driveAll_automaton (ht : t.Fits l) (hw : w.Traced t l) (ss : List Symbol) :
    ∃ (tokens : List Token) (w' : Walker),
      (w.automaton t l).driveAll ss = .ok (tokens, w'.automaton t l) ∧ w'.Traced t l := by
  induction ss generalizing w with
  | nil => exact ⟨[], w, rfl, hw⟩
  | cons s ss ih =>
    obtain ⟨tokens, w₁, hdrive, hw₁⟩ := hw.exists_drive_automaton ht s
    obtain ⟨more, w₂, hrest, hw₂⟩ := ih hw₁
    exact ⟨tokens ++ more, w₂, by simp only [Automaton.driveAll, hdrive, hrest], hw₂⟩

/-- **Starting afresh.**  What is driven after the sentinel is read as by an automaton at its start.
-/
lemma Traced.exists_driveAll_reset (ht : t.Fits l) (hw : w.Traced t l)
    (hs : s.isEndOfStream = true) (us vs : List Symbol) :
    ∃ tokens more b,
      (w.automaton t l).driveAll (us ++ [s]) = .ok (tokens, start.automaton t l) ∧
      (start.automaton t l).driveAll vs = .ok (more, b) ∧
      (w.automaton t l).driveAll (us ++ s :: vs) = .ok (tokens ++ more, b) := by
  obtain ⟨before, w', hbefore, hw'⟩ := hw.exists_driveAll_automaton ht us
  obtain ⟨r, hstep, hsignal, hautomaton⟩ := hw'.exists_step_endOfStream ht hs
  obtain ⟨more, w'', hmore, _⟩ := (traced_start ht).exists_driveAll_automaton ht vs
  have hend := Automaton.driveAll_singleton (Automaton.drive_of_ne_replay hstep hsignal)
  rw [hautomaton] at hend
  have hall := Automaton.driveAll_append hbefore hend
  refine ⟨_, more, _, hall, hmore, ?_⟩
  rw [← List.singleton_append, ← List.append_assoc]
  exact Automaton.driveAll_append hall hmore

end Walker

/-! ## Tokenizers -/

namespace Tokenizer

variable {t t' : Tokenizer}

/-- Ending the stream of the tokenizer hands out what is pending, once. -/
structure Flushes (t : Tokenizer) (tokens : List Token) (t' : Tokenizer) : Prop where
  finish_eq : t.finish = (.ok tokens, t')
  /-- If nothing is pending, there is no token. -/
  eq_nil : t.pending = [] → tokens = []
  /-- If something is pending, there is one token, and it settles the match in progress, which is
  all that is pending. -/
  settles : t.pending ≠ [] → ∃ machine token, t.phase = .compiled machine ∧
    machine.automaton.history.symbols = t.pending ∧ tokens = [token] ∧
    machine.automaton.Settles token
  /-- Then nothing is pending any more. -/
  pending_eq : t'.pending = []
  /-- The stream is over: another call at the end changes nothing, -/
  finish_again : t'.finish = (.ok [], t')
  /-- nor does a chunk, which is refused, -/
  consume_eq : ∀ chunk, t'.consume chunk = (.error .finished, t')
  /-- until the tokenizer is restarted. -/
  restart : t'.restart.Begins

/-- An open tokenizer that has a machine flushes. -/
lemma Takes.exists_flushes (h : t.Takes) : ∃ tokens t', t.Flushes tokens t' := by
  obtain ⟨l, w, hat⟩ := h.exists_at
  obtain ⟨blocks, tokens, t', hfinish, hflush, hstatus, _, hat', hmakes, hblocks⟩ :=
    hat.exists_finish_eq h.accepting
  have hreachable := h.reachable.finish
  rw [hfinish] at hreachable
  refine ⟨tokens, t', hfinish, ?_, ?_, hat'.pending_eq, finish_of_finished hstatus,
    consume_of_finished hstatus, hreachable.begins_restart⟩
  · intro hpending
    apply StateTable.eq_nil_of_forall₂_makes hmakes
    rw [hblocks, ← hat.pending_eq, hpending]
  · intro hpending
    have hroot : w.node ≠ Trie.rootId := by
      intro hroot
      rw [hat.pending_eq, hat.traced.toSound.history_eq_empty hroot] at hpending
      exact hpending rfl
    obtain ⟨token, hdrive, hsettles⟩ := hat.traced.exists_drive_endOfStream l hroot
    cases hflush.symm.trans hdrive
    cases hphase : t.phase with
    | drafting draft =>
      unfold pending at hpending
      rw [hphase] at hpending
      exact absurd rfl hpending
    | compiled machine =>
      cases (machine_of_compiled hphase).symm.trans hat.machine_eq
      exact ⟨_, token, rfl, hat.pending_eq.symm, rfl, hsettles⟩

/-- So does one that has none, but there is nothing to flush. -/
lemma Open.exists_flushes (h : t.Open) : ∃ tokens t', t.Flushes tokens t' := by
  cases hmachine : t.machine with
  | ok machine => exact (h.takes hmachine).exists_flushes
  | error fault =>
    have hfinish := finish_of_machine_eq_error h.accepting hmachine
    have hreachable := h.reachable.finish
    have hpending : t.pending = [] := by
      obtain ⟨draft, hphase⟩ := exists_draft_of_machine_eq_error hmachine
      simp only [pending, hphase]
    rw [hfinish] at hreachable
    exact ⟨[], _, hfinish, fun _ => rfl, fun hne => absurd hpending hne, hpending,
      finish_of_finished rfl, consume_of_finished rfl, hreachable.begins_restart⟩

/-- **Flushed once.**  An open tokenizer, whatever calls led to it, hands out at the end of its
stream one token for what is pending, or none if nothing is, and from then on nothing until it is
restarted.  The sentinel that it ends the stream with sets its automaton back to the start: at any
point of any run it is never asked for again, and what follows it is read as from the start. -/
theorem flushes_once :
    (∀ t : Tokenizer, t.Reachable → t.status = .accepting → ∃ tokens t', t.Flushes tokens t') ∧
      ∀ (l : Lexicon) (actions : List Action) (a : Automaton) (s : Symbol),
        (Automaton.new l.compile).actAll actions = .ok a → s.isEndOfStream = true →
        (∃ r, a.step s = .ok r ∧ r.signal ≠ .replay ∧ r.automaton.isIdle = true) ∧
        ∀ us vs, ∃ tokens more b, a.driveAll (us ++ [s]) = .ok (tokens, .new l.compile) ∧
          (Automaton.new l.compile).driveAll vs = .ok (more, b) ∧
          a.driveAll (us ++ s :: vs) = .ok (tokens ++ more, b) := by
  constructor
  · intro t hreachable hopen
    exact Open.exists_flushes ⟨hreachable, hopen⟩
  · intro l actions a s ha hs
    have ht := Trie.fits_ofLexicon l
    obtain ⟨w, hrun, hw⟩ := Walker.exists_actAll_automaton ht (Walker.traced_start ht) actions
    have hstart : Walker.start.automaton (.ofLexicon l) l = .new l.compile :=
      Walker.automaton_start ht
    rw [hstart] at hrun
    cases ha.symm.trans hrun
    constructor
    · obtain ⟨r, hstep, hsignal, hautomaton⟩ := hw.exists_step_endOfStream ht hs
      refine ⟨r, hstep, hsignal, ?_⟩
      rw [hautomaton, hstart]
      exact Automaton.isIdle_new l.compile
    · intro us vs
      have hreset := hw.exists_driveAll_reset ht hs us vs
      rwa [hstart] at hreset

/-- Two marks are pending, and one mark has been presented. -/
theorem flushes_once_marks :
    (marker.consume (.text "so##")).2.pending.length = 2 ∧
      (∃ tokens t', (marker.consume (.text "so##")).2.Flushes tokens t') ∧
      ∃ a, (Automaton.new Automaton.marks.compile).actAll [.present (.special '#')] = .ok a ∧
        (∃ r, a.step .endOfStream = .ok r ∧ r.signal ≠ .replay ∧ r.automaton.isIdle = true) ∧
        ∀ us vs, ∃ tokens more b,
          a.driveAll (us ++ [.endOfStream]) = .ok (tokens, .new Automaton.marks.compile) ∧
          (Automaton.new Automaton.marks.compile).driveAll vs = .ok (more, b) ∧
          a.driveAll (us ++ .endOfStream :: vs) = .ok (tokens ++ more, b) := by
  obtain ⟨htokenizers, hautomata⟩ := flushes_once
  have ht := Trie.fits_ofLexicon Automaton.marks
  obtain ⟨w, hrun, _⟩ := Walker.exists_actAll_automaton ht (Walker.traced_start ht)
    [.present (.special '#')]
  rw [Walker.automaton_start ht] at hrun
  exact ⟨by decide +kernel,
    htokenizers _ (ready_marker.reachable.consume _) (by decide +kernel), _, hrun,
    hautomata _ _ _ _ hrun Symbol.isEndOfStream_endOfStream⟩

end Tokenizer

end Lexing
