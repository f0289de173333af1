import Lexing.Proofs.Conservation

/-!
# What a run goes through

A run of an automaton is told by the transitions that it takes: the states that they leave and
enter, their signals, and the blocks of symbols that become tokens (`Automaton.passagesAll`).

What is told is true: the tokens are those that come out, each of them is the one of its block, and
the blocks and what is pending after the run are what was pending before it and the symbols
(`Walker.Traced.account_passagesAll`).  As for conservation the step is shown first, then a symbol,
then the run.
-/

namespace Lexing

/-- A transition that an automaton has taken. -/
structure Passage where
  /-- The state that was left. -/
  state : StateId
  signal : Signal
  /-- The state that was entered. -/
  next : StateId
  /-- The block of symbols that was finished, and the token that it became. -/
  made? : Option (List Symbol × Token)

/-- The blocks that were finished in several passages, each with its token. -/
def Passage.madeAll (ps : List Passage) : List (List Symbol × Token) :=
  ps.filterMap (·.made?)

namespace Automaton

/-- The symbols of a match that a step ends: those of the match in progress, and the one that is
presented, if it is spent on the match. -/
def blockAt (a : Automaton) (s : Symbol) (signal : Signal) : List Symbol :=
  if signal = .reset ∧ s.isEndOfStream = false then a.history.symbols ++ [s] else a.history.symbols

/-- The transition taken in a step.  At the start the sentinel takes none. -/
def passage? (a : Automaton) (s : Symbol) (r : Step) : Option Passage :=
  if s.isEndOfStream ∧ a.isIdle then
    none
  else
    some
      { state := a.current
        signal := r.signal
        next := r.automaton.current
        made? := r.token?.map fun token => (a.blockAt s r.signal, token) }

/-- The transitions taken while a symbol is driven through the automaton. -/
def passages (a : Automaton) (s : Symbol) : List Passage :=
  match a.step s with
  | .error _ => []
  | .ok first =>
    match first.signal with
    | .replay =>
      match first.automaton.step s with
      | .error _ => (a.passage? s first).toList
      | .ok second =>
        (a.passage? s first).toList ++ (first.automaton.passage? s second).toList
    | _ => (a.passage? s first).toList

/-- The transitions taken while several symbols are driven through the automaton. -/
def passagesAll (a : Automaton) : List Symbol → List Passage
  | [] => []
  | s :: ss =>
    match a.drive s with
    | .error _ => a.passages s
    | .ok (_, b) => a.passages s ++ b.passagesAll ss

section Passages

variable {a : Automaton} {s : Symbol} {first second : Step}

lemma passages_of_ne_replay (h : a.step s = .ok first) (hsignal : first.signal ≠ .replay) :
    a.passages s = (a.passage? s first).toList := by
  rw [passages, h]
  cases hcases : first.signal with
  | replay => exact absurd hcases hsignal
  | goOn => simp only [hcases]
  | reset => simp only [hcases]

lemma passages_of_replay (h : a.step s = .ok first) (hsignal : first.signal = .replay)
    (hagain : first.automaton.step s = .ok second) :
    a.passages s =
      (a.passage? s first).toList ++ (first.automaton.passage? s second).toList := by
  simp only [passages, h, hsignal, hagain]

end Passages

end Automaton

/-! ## The account is true -/

/-- The passages account for the symbols that were given: they tell which tokens were made and of
which blocks, and what is left of the symbols is `rest`. -/
structure Passage.Account (t : StateTable) (given : List Symbol) (ps : List Passage)
    (tokens : List Token) (rest : List Symbol) : Prop where
  tokens_eq : (madeAll ps).map Prod.snd = tokens
  makes : ∀ made ∈ madeAll ps, t.Makes made.1 made.2
  flatten_eq : (madeAll ps).flatMap Prod.fst ++ rest = given

namespace Passage.Account

variable {t : StateTable} {given more rest rest' : List Symbol} {ps ps' : List Passage}
  {tokens tokens' : List Token}

lemma nil : Account t rest [] [] rest where
  tokens_eq := rfl
  makes := by simp [madeAll]
  flatten_eq := rfl

lemma append (h : Account t given ps tokens rest)
    (h' : Account t (rest ++ more) ps' tokens' rest') :
    Account t (given ++ more) (ps ++ ps') (tokens ++ tokens') rest' where
  tokens_eq := by
    rw [madeAll, List.filterMap_append, List.map_append]
    exact congrArg₂ (· ++ ·) h.tokens_eq h'.tokens_eq
  makes := by
    rw [madeAll, List.filterMap_append]
    exact List.forall_mem_append.2 ⟨h.makes, h'.makes⟩
  flatten_eq := by
    rw [madeAll, List.filterMap_append, List.flatMap_append, List.append_assoc]
    have hrest : (madeAll ps').flatMap Prod.fst ++ rest' = rest ++ more := h'.flatten_eq
    rw [madeAll] at hrest
    rw [hrest, ← List.append_assoc]
    exact congrArg (· ++ more) h.flatten_eq

/-- A passage without a token accounts for nothing. -/
lemma silent {p : Passage} (h : p.made? = none) : Account t rest [p] [] rest where
  tokens_eq := by simp [madeAll, h]
  makes := by simp [madeAll, h]
  flatten_eq := by simp [madeAll, h]

/-- A passage with a token accounts for its block. -/
lemma single {p : Passage} {block : List Symbol} {token : Token} (h : p.made? = some (block, token))
    (hmakes : t.Makes block token) : Account t block [p] [token] [] where
  tokens_eq := by simp [madeAll, h]
  makes := by simp [madeAll, h, hmakes]
  flatten_eq := by simp [madeAll, h]

end Passage.Account

namespace Walker

open StateTable Passage

variable {t : Trie} {l : Lexicon} {w : Walker} {s : Symbol}

lemma passage?_automaton (a : Automaton) (hs : s.isEndOfStream = false) (r : Step) :
    a.passage? s r =
      some
        { state := a.current
          signal := r.signal
          next := r.automaton.current
          made? := r.token?.map fun token => (a.blockAt s r.signal, token) } :=
  if_neg (by simp [hs])

/-- **One step.** -/
lemma Traced.account_passage (ht : t.Fits l) (hw : w.Traced t l) (hs : s.isEndOfStream = false) :
    (w.step t l s).1.signal ≠ .replay ∧
        Account (ofTrie t l) (w.history.symbols ++ [s])
          ((w.automaton t l).passage? s (image t l (w.step t l s))).toList
          (w.step t l s).1.token?.toList (w.step t l s).2.history.symbols ∨
      (w.step t l s).1.signal = .replay ∧
        Account (ofTrie t l) w.history.symbols
          ((w.automaton t l).passage? s (image t l (w.step t l s))).toList
          (w.step t l s).1.token?.toList [] := by
  rw [passage?_automaton _ hs]
  have hsteps := w.steps_step t l s
  generalize w.step t l s = r at hsteps ⊢
  cases hsteps with
  | rests hend _ =>
    rw [hs] at hend
    cases hend
  | goesOn =>
    left
    refine ⟨by simp, ?_⟩
    rw [History.symbols_push]
    exact .silent rfl
  | completes _ hnext hleaf =>
    obtain ⟨token, htoken, hmakes⟩ := hw.exists_makes_of_completes ht hs hnext hleaf
    left
    refine ⟨by simp, ?_⟩
    simp only [image, htoken]
    exact .single (by simp [Automaton.blockAt, hs, automaton]) hmakes
  | passes _ hnext hroot =>
    obtain ⟨token, htoken, hmakes⟩ := hw.exists_makes_of_passes hs hnext hroot
    left
    refine ⟨by simp, ?_⟩
    simp only [image, htoken]
    exact .single (by simp [Automaton.blockAt, hs, automaton]) hmakes
  | stalls _ hroot =>
    obtain ⟨token, htoken, hmakes⟩ := hw.exists_makes_of_stalls ht hroot
    right
    refine ⟨by simp [hs], ?_⟩
    simp only [image, htoken, hs]
    exact .single (by simp [Automaton.blockAt, automaton]) hmakes

/-- **One symbol.**  If it is asked for again, it is presented to an automaton at its start. -/
lemma Traced.account_passages (ht : t.Fits l) (hw : w.Traced t l) (hs : s.isEndOfStream = false) :
    ∃ (tokens : List Token) (w' : Walker),
      (w.automaton t l).drive s = .ok (tokens, w'.automaton t l) ∧ w'.Traced t l ∧
      Account (ofTrie t l) (w.history.symbols ++ [s]) ((w.automaton t l).passages s) tokens
        w'.history.symbols := by
  have hstep := step_automaton ht hw.toSound s
  rcases hw.account_passage ht hs with ⟨hsignal, hfirst⟩ | ⟨hsignal, hfirst⟩
  · refine ⟨_, _, Automaton.drive_of_ne_replay hstep hsignal, hw.step ht s, ?_⟩
    rw [Automaton.passages_of_ne_replay hstep hsignal]
    exact hfirst
  · have hagain := step_image_of_replay ht hsignal
    refine ⟨_, _, Automaton.drive_of_replay hstep hsignal hagain, (traced_start ht).step ht s, ?_⟩
    rw [Automaton.passages_of_replay hstep hsignal hagain]
    rcases (traced_start (l := l) ht).account_passage ht hs with ⟨_, hsecond⟩ | ⟨hreplay, _⟩
    · have hstart : (image t l (w.step t l s)).automaton = start.automaton t l := by
        rw [image, eq_start_of_replay hsignal]
      rw [hstart]
      exact hfirst.append hsecond
    · exact absurd hreplay signal_step_start

/-- **A run.** -/
lemma Traced.account_passagesAll (ht : t.Fits l) (hw : w.Traced t l) {ss : List Symbol}
    (hss : ∀ s ∈ ss, s.isEndOfStream = false) :
    ∃ (tokens : List Token) (w' : Walker),
      (w.automaton t l).driveAll ss = .ok (tokens, w'.automaton t l) ∧ w'.Traced t l ∧
      Account (ofTrie t l) (w.history.symbols ++ ss) ((w.automaton t l).passagesAll ss) tokens
        w'.history.symbols := by
  induction ss generalizing w with
  | nil =>
    refine ⟨[], w, rfl, hw, ?_⟩
    rw [List.append_nil]
    exact .nil
  | cons s ss ih =>
    obtain ⟨hs, hss⟩ := List.forall_mem_cons.1 hss
    obtain ⟨tokens, w₁, hdrive, hw₁, hone⟩ := hw.account_passages ht hs
    obtain ⟨more, w', hrest, hw', hall⟩ := ih hw₁ hss
    refine ⟨tokens ++ more, w', by simp only [Automaton.driveAll, hdrive, hrest], hw', ?_⟩
    simp only [Automaton.passagesAll, hdrive]
    rw [List.append_cons]
    exact hone.append hall

/-- **The flush.** -/
lemma Traced.account_flush (ht : t.Fits l) (hw : w.Traced t l) :
    ∃ tokens, (w.automaton t l).drive .endOfStream = .ok (tokens, start.automaton t l) ∧
      Account (ofTrie t l) w.history.symbols ((w.automaton t l).passages .endOfStream) tokens
        [] := by
  have hstep := step_automaton ht hw.toSound .endOfStream
  have hsteps := w.steps_step t l .endOfStream
  generalize w.step t l .endOfStream = r at hstep hsteps
  cases hsteps with
  | goesOn hs => cases hs
  | completes hs => cases hs
  | passes hs => cases hs
  | rests _ hroot =>
    have hdrive := Automaton.drive_of_ne_replay hstep (by simp [image])
    have hpassages := Automaton.passages_of_ne_replay hstep (by simp [image])
    have hempty := hw.toSound.history_eq_empty hroot
    obtain ⟨node, history⟩ := w
    cases hroot
    cases hempty
    have hidle : (start.automaton t l).isIdle = true := by
      rw [automaton_start ht]
      exact Automaton.isIdle_new _
    refine ⟨[], hdrive, ?_⟩
    rw [hpassages, Automaton.passage?, if_pos ⟨rfl, hidle⟩]
    exact .nil
  | stalls _ hroot =>
    obtain ⟨token, htoken, hmakes⟩ := hw.exists_makes_of_stalls ht hroot
    have hdrive := Automaton.drive_of_ne_replay hstep (by simp [image])
    have hpassages := Automaton.passages_of_ne_replay hstep (by simp [image])
    have hbusy : (w.automaton t l).isIdle = false := by
      simp [Automaton.isIdle, automaton, hw.toSound.isEmpty_eq_false hroot]
    refine ⟨[token], by rw [hdrive]; simp [image, htoken], ?_⟩
    rw [hpassages, Automaton.passage?, if_neg (by simp [hbusy])]
    simp only [image, htoken]
    exact .single (by simp [Automaton.blockAt, automaton]) hmakes

end Walker

end Lexing
