import Lexing.Proofs.Refinement

/-!
# Runs are safe

No step of an automaton on the table of a lexicon fails, whatever was presented before and whenever
the automaton was reset.  Its two changing parts, the state and the history, always fit together:
the history is the way to the state, and taking it once more from the start leads there again
(`Automaton.Consistent`).

A run is mirrored by one of a walker, which besides being sound has traced its way through the table
(`Walker.Traced`).  One step preserves this, so a run does (`actAll_automaton`), and the main result
`Automaton.actAll_isConsistent` is read off.
-/

namespace Lexing

open StateTable

variable {t : Trie} {l : Lexicon} {next : NodeId} {s : Symbol}

/-! ## Taking a way once more -/

namespace StateTable

/-- The history and the state after a symbol, if it is consumed and the match goes on. -/
def goOn? (t : StateTable) (place : History × StateId) (s : Symbol) :
    Option (History × StateId) := do
  let state ← t.state? place.2
  let tr ← state.transition? s
  if tr.accept? = none ∧ tr.replay = false then
    return (place.1.push state.name s, tr.target)
  else none

/-- The history and the state after several symbols, from the start, if the match goes on all the
time. -/
def retrace? (t : StateTable) (ss : List Symbol) : Option (History × StateId) :=
  ss.foldlM t.goOn? (.empty, t.initial)

lemma retrace?_concat (t : StateTable) (ss : List Symbol) (s : Symbol) :
    t.retrace? (ss ++ [s]) = (t.retrace? ss).bind (t.goOn? · s) := by
  simp [retrace?, List.foldlM_append]

end StateTable

/-! ## What holds at all times -/

/-- The state and the history of the automaton fit together, and it can take any step. -/
structure Automaton.Consistent (a : Automaton) : Prop where
  /-- Whatever is presented, the step succeeds. -/
  exists_step : ∀ s : Symbol, ∃ r, a.step s = .ok r
  /-- The automaton never stays in the reset state. -/
  exists_state : ∃ state, a.table.state? a.current = some state ∧ state.isReset = false
  current_ne_terminal : a.current ≠ a.table.terminal
  isEmpty_iff : a.history.isEmpty = true ↔ a.current = a.table.initial
  /-- The end of the stream is never consumed. -/
  isEndOfStream_eq_false : ∀ s ∈ a.history.symbols, s.isEndOfStream = false
  /-- The symbols of the history lead from the start to the current state, through the states that
  the history names, and no token is made on the way. -/
  retraced : a.table.retrace? a.history.symbols = some (a.history, a.current)

namespace Walker

variable {w : Walker}

/-- The walker has come where it is through the states of the table. -/
structure Traced (t : Trie) (l : Lexicon) (w : Walker) : Prop extends w.Sound t where
  isEndOfStream_eq_false : ∀ s ∈ w.history.symbols, s.isEndOfStream = false
  retraced : (ofTrie t l).retrace? w.history.symbols =
    some (w.history, stateOf (liveNodes t) w.node)

lemma traced_start (ht : t.Fits l) : start.Traced t l where
  toSound := sound_start ht
  isEndOfStream_eq_false := by simp [start]
  retraced := by
    simp only [start, History.symbols_empty, retrace?, List.foldlM_nil, stateOf_rootId ht.size_pos]
    rfl

/-- Where a walker goes on, the table does. -/
lemma goOn?_of_successor? (hw : w.Sound t) (hs : s.isEndOfStream = false)
    (hnext : t.successor? w.node s.tag = some next) (hlive : next ∈ liveNodes t) :
    (ofTrie t l).goOn? (w.history, stateOf (liveNodes t) w.node) s =
      some (w.history.push (t.nameAt w.node) s, stateOf (liveNodes t) next) := by
  obtain ⟨node, hnode⟩ := exists_node?_of_mem_liveNodes hw.live
  obtain ⟨tr, child, htr, _, htarget, hreplay, haccept⟩ :=
    exists_transition?_of_successor? (l := l) hs hw.live hnode hnext
  rw [if_pos hlive] at haccept
  simp [goOn?, state?_stateOf hw.live hnode, htr, htarget, hreplay, haccept, Trie.nameAt, hnode]

/-- **One step.**  A walker that has traced its way still has after a step. -/
lemma Traced.step (ht : t.Fits l) (hw : w.Traced t l) (s : Symbol) :
    (w.step t l s).2.Traced t l := by
  have hsound := hw.toSound.step ht s (l := l)
  have hsteps := w.steps_step t l s
  generalize w.step t l s = r at hsteps hsound ⊢
  cases hsteps with
  | rests => exact hw
  | completes => exact traced_start ht
  | passes => exact traced_start ht
  | stalls => exact traced_start ht
  | goesOn hs hnext _ =>
    refine { toSound := hsound, isEndOfStream_eq_false := ?_, retraced := ?_ }
    · intro u hu
      rcases List.mem_append.1 (History.symbols_push .. ▸ hu) with hu | hu
      · exact hw.isEndOfStream_eq_false u hu
      · rw [List.mem_singleton.1 hu]
        exact hs
    · rw [History.symbols_push, retrace?_concat, hw.retraced, Option.bind_some]
      exact goOn?_of_successor? hw.toSound hs hnext hsound.live

/-- The automaton of a walker that has traced its way is consistent. -/
lemma Traced.isConsistent (ht : t.Fits l) (hw : w.Traced t l) :
    (w.automaton t l).Consistent where
  exists_step s := ⟨_, step_automaton ht hw.toSound s⟩
  exists_state := by
    obtain ⟨node, hnode⟩ := exists_node?_of_mem_liveNodes hw.live
    exact ⟨stateFor t l w.node node, state?_automaton hw.toSound hnode, rfl⟩
  current_ne_terminal := Nat.ne_of_lt (stateOf_lt_length_iff.2 hw.live)
  isEmpty_iff := hw.isEmpty_iff.trans (stateOf_eq_zero_iff hw.live).symm
  isEndOfStream_eq_false := hw.isEndOfStream_eq_false
  retraced := hw.retraced

end Walker

/-! ## Runs -/

/-- What can be done to an automaton. -/
inductive Action where
  | present (s : Symbol)
  | reset

namespace Automaton

/-- The automaton after one action. -/
def act (a : Automaton) : Action → Except AutomatonError Automaton
  | .reset => .ok a.reset
  | .present s =>
    match a.step s with
    | .error fault => .error fault
    | .ok r => .ok r.automaton

/-- The automaton after several actions, if none of them fails. -/
def actAll (a : Automaton) : List Action → Except AutomatonError Automaton
  | [] => .ok a
  | action :: actions =>
    match a.act action with
    | .error fault => .error fault
    | .ok a => a.actAll actions

end Automaton

namespace Walker

/-- Any action on the automaton of a walker leads to that of a walker. -/
lemma exists_act_automaton (ht : t.Fits l) {w : Walker} (hw : w.Traced t l) (action : Action) :
    ∃ w' : Walker, (w.automaton t l).act action = .ok (w'.automaton t l) ∧ w'.Traced t l := by
  cases action with
  | reset => exact ⟨start, congrArg Except.ok (reset_automaton ht), traced_start ht⟩
  | present s =>
    refine ⟨(w.step t l s).2, ?_, hw.step ht s⟩
    rw [Automaton.act, step_automaton ht hw.toSound s]
    rfl

lemma exists_actAll_automaton (ht : t.Fits l) {w : Walker} (hw : w.Traced t l)
    (actions : List Action) :
    ∃ w' : Walker, (w.automaton t l).actAll actions = .ok (w'.automaton t l) ∧
      w'.Traced t l := by
  induction actions generalizing w with
  | nil => exact ⟨w, rfl, hw⟩
  | cons action actions ih =>
    obtain ⟨w', hact, hw'⟩ := exists_act_automaton ht hw action
    obtain ⟨w'', hrest, hw''⟩ := ih hw'
    refine ⟨w'', ?_, hw''⟩
    rw [Automaton.actAll, hact]
    exact hrest

end Walker

/-- **Safety.**  However symbols are presented to an automaton on the table of a lexicon and however
often it is reset in between, no step fails, and afterwards its state and its history fit
together. -/
theorem Automaton.actAll_isConsistent (l : Lexicon) (actions : List Action) :
    ∃ a, (Automaton.new l.compile).actAll actions = .ok a ∧ a.table = l.compile ∧
      a.Consistent := by
  have ht := Trie.fits_ofLexicon l
  obtain ⟨w, hrun, hw⟩ := Walker.exists_actAll_automaton ht (Walker.traced_start ht) actions
  rw [Walker.automaton_start ht] at hrun
  exact ⟨_, hrun, rfl, hw.isConsistent ht⟩

end Lexing
