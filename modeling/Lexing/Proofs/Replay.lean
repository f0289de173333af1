import Lexing.Proofs.Soundness

/-!
# Symbols that are asked for again

A symbol is presented until it is not asked for again.  Nothing counts how often, so that the loop
ends at all is a matter of the table: if the transition for some symbol at the start did not consume
it, the symbol would be presented forever.

The steps of the loop are told by `Automaton.Rounds`.  A loop that does not end has no steps to tell
of, and one that ends has no others (`Rounds.unique`).  On the table of a lexicon a symbol is asked
for again only when the match in progress is over, and at its start an automaton does not ask for
it.  So there are two steps at most, and `Automaton.drive`, which takes no third, is the whole loop
(`Automaton.exists_drives`).
-/

namespace Lexing

open StateTable

variable {s : Symbol}

namespace Automaton

variable {a : Automaton} {r : Step} {token : Token}

/-! ## Rounds -/

/-- The steps that are taken when the symbol is presented until it is not asked for again. -/
inductive Rounds : Automaton → Symbol → List Step → Prop
  | spent {a : Automaton} {s : Symbol} {r : Step} (h : a.step s = .ok r)
      (hsignal : r.signal ≠ .replay) : Rounds a s [r]
  | again {a : Automaton} {s : Symbol} {r : Step} {rest : List Step} (h : a.step s = .ok r)
      (hsignal : r.signal = .replay) (hrest : Rounds r.automaton s rest) : Rounds a s (r :: rest)

lemma Rounds.unique {steps others : List Step} (h : a.Rounds s steps) (h' : a.Rounds s others) :
    steps = others := by
  induction h generalizing others with
  | spent h hsignal =>
    cases h' with
    | spent h' =>
      cases h.symm.trans h'
      rfl
    | again h' hsignal' =>
      cases h.symm.trans h'
      exact absurd hsignal' hsignal
  | again h hsignal _ ih =>
    cases h' with
    | spent h' hsignal' =>
      cases h.symm.trans h'
      exact absurd hsignal hsignal'
    | again h' _ hrest' =>
      cases h.symm.trans h'
      rw [ih hrest']

/-! ## What the tokens of a step are made of -/

/-- A step that hands out a token asks for the symbol again if its transition leaves it, unless the
stream ends with it. -/
lemma signal_of_follow {name : String} {tr : Transition} (h : a.follow name tr s = .ok r)
    (htoken : r.token? = some token) :
    r.signal = if tr.replay = true ∧ s.isEndOfStream = false then .replay else .reset := by
  unfold follow at h
  split at h
  · cases h
    cases htoken
  · cases h
    cases htoken
  · rename_i hreplay
    split at h
    · cases h
    · cases h
      simp [hreplay]
  · rename_i hreplay
    split at h
    · cases h
    · cases h
      cases s.isEndOfStream <;> simp [hreplay]

/-- If the symbol is asked for again, the token is one of the match that was in progress. -/
lemma exists_emits_of_replay (h : a.step s = .ok r) (htoken : r.token? = some token)
    (hsignal : r.signal = .replay) :
    s.isEndOfStream = false ∧ ∃ accept, a.Emits s token accept a.history.symbols := by
  obtain ⟨state, tr, hstate, htr, hfollow⟩ := exists_follow_of_step h htoken
  obtain ⟨accept, history, haccept, hemit, hsymbols⟩ := exists_emit_of_follow hfollow htoken
  have hleft : tr.replay = true ∧ s.isEndOfStream = false := by
    by_contra hnot
    rw [signal_of_follow hfollow htoken, if_neg hnot] at hsignal
    cases hsignal
  rw [if_pos hleft.1] at hsymbols
  exact ⟨hleft.2, accept, state, tr, history, hstate, htr, haccept, hemit, hsymbols,
    (if_pos hleft.1).symm⟩

/-- If it is not, and the stream goes on, the symbol belongs to the match. -/
lemma exists_emits_of_ne_replay (h : a.step s = .ok r) (htoken : r.token? = some token)
    (hs : s.isEndOfStream = false) (hsignal : r.signal ≠ .replay) :
    ∃ accept, a.Emits s token accept (a.history.symbols ++ [s]) := by
  obtain ⟨state, tr, hstate, htr, hfollow⟩ := exists_follow_of_step h htoken
  obtain ⟨accept, history, haccept, hemit, hsymbols⟩ := exists_emit_of_follow hfollow htoken
  have hspent : ¬ tr.replay = true := by
    intro hreplay
    exact hsignal ((signal_of_follow hfollow htoken).trans (if_pos ⟨hreplay, hs⟩))
  rw [if_neg hspent] at hsymbols
  exact ⟨accept, state, tr, history, hstate, htr, haccept, hemit, hsymbols,
    (if_neg hspent).symm⟩

/-! ## Driving -/

/-- What it comes to when the symbol is driven: the steps that are taken, the tokens that they hand
out, and the automaton after them. -/
structure Drives (a : Automaton) (s : Symbol) (steps : List Step) (tokens : List Token)
    (b : Automaton) : Prop where
  /-- The loop ends, after these steps. -/
  rounds_iff : ∀ others, a.Rounds s others ↔ others = steps
  /-- There is one step, or, if this one asks for the symbol again, one more from the start. -/
  steps_cases : (∃ only, steps = [only] ∧ only.signal ≠ .replay) ∨
    ∃ first second, steps = [first, second] ∧ first.signal = .replay ∧
      first.automaton = a.reset ∧ second.signal ≠ .replay
  drive_eq : a.drive s = .ok (tokens, b)
  tokens_eq : tokens = steps.flatMap (·.token?.toList)
  automaton_eq : steps.getLast?.map (·.automaton) = some b
  length_le : tokens.length ≤ 2
  /-- Of two tokens the first is made of all that was pending, and the second of the symbol. -/
  covers : ∀ first second, tokens = [first, second] →
    (∃ accept, a.Emits s first accept a.history.symbols) ∧
      ∃ accept, a.reset.Emits s second accept [s]

/-- The loop ends with the first step if this does not ask for the symbol again. -/
lemma drives_of_ne_replay (h : a.step s = .ok r) (hsignal : r.signal ≠ .replay) :
    a.Drives s [r] r.token?.toList r.automaton where
  rounds_iff others := by
    constructor
    · exact fun hothers => hothers.unique (.spent h hsignal)
    · rintro rfl
      exact .spent h hsignal
  steps_cases := .inl ⟨r, rfl, hsignal⟩
  drive_eq := drive_of_ne_replay h hsignal
  tokens_eq := by simp
  automaton_eq := rfl
  length_le := by cases r.token? <;> simp
  covers first second htokens := by
    cases hout : r.token? <;> simp [hout] at htokens

/-- The loop ends with the second step if the first puts the automaton back to its start and the
start does not ask for the symbol again. -/
lemma drives_of_replay {again : Step} (h : a.step s = .ok r) (hsignal : r.signal = .replay)
    (hreset : r.automaton = a.reset) (hagain : a.reset.step s = .ok again)
    (hspent : again.signal ≠ .replay) :
    a.Drives s [r, again] (r.token?.toList ++ again.token?.toList) again.automaton where
  rounds_iff others := by
    have hrounds : a.Rounds s [r, again] :=
      .again h hsignal (.spent (hreset ▸ hagain) hspent)
    constructor
    · exact fun hothers => hothers.unique hrounds
    · rintro rfl
      exact hrounds
  steps_cases := .inr ⟨r, again, rfl, hsignal, hreset, hspent⟩
  drive_eq := drive_of_replay h hsignal (hreset ▸ hagain)
  tokens_eq := by simp
  automaton_eq := rfl
  length_le := by cases r.token? <;> cases again.token? <;> simp
  covers first second htokens := by
    cases hout : r.token? with
    | none => cases hmore : again.token? <;> simp [hout, hmore] at htokens
    | some token =>
      cases hmore : again.token? with
      | none => simp [hout, hmore] at htokens
      | some more =>
        obtain ⟨rfl, rfl⟩ : token = first ∧ more = second := by simpa [hout, hmore] using htokens
        obtain ⟨hs, hfirst⟩ := exists_emits_of_replay h hout hsignal
        exact ⟨hfirst, exists_emits_of_ne_replay hagain hmore hs hspent⟩

/-- **Two steps are enough.**  Whatever was presented to an automaton on the table of a lexicon
before, and however often it was reset, driving a symbol takes one step, or two if the first asks
for the symbol again, which the second never does. -/
theorem exists_drives (l : Lexicon) (actions : List Action) :
    ∃ a, (new l.compile).actAll actions = .ok a ∧
      ∀ s, ∃ steps tokens b, a.Drives s steps tokens b := by
  have ht := Trie.fits_ofLexicon l
  obtain ⟨w, hrun, hw⟩ := Walker.exists_actAll_automaton ht (Walker.traced_start ht) actions
  rw [Walker.automaton_start ht] at hrun
  refine ⟨_, hrun, fun s => ?_⟩
  have hstep := Walker.step_automaton ht hw.toSound s
  by_cases hsignal : (w.step (.ofLexicon l) l s).1.signal = .replay
  · -- the match is over, so the symbol is presented at the start
    have hreset : (Walker.image (.ofLexicon l) l (w.step (.ofLexicon l) l s)).automaton =
        (w.automaton (.ofLexicon l) l).reset := by
      rw [Walker.image, Walker.eq_start_of_replay hsignal, Walker.reset_automaton ht]
    have hagain := Walker.step_image_of_replay ht hsignal
    exact ⟨_, _, _, drives_of_replay hstep hsignal hreset (hreset ▸ hagain)
      Walker.signal_step_start⟩
  · exact ⟨_, _, _, drives_of_ne_replay hstep hsignal⟩

/-- The end of a rule is seen at the text after it, which is asked for again. -/
example : ((new marks.compile).driveAll [.special '-', .text "so"]).toOption.map
    (·.1.map (·.kind)) = some ["rule", "text"] := by decide +kernel

end Automaton

end Lexing
