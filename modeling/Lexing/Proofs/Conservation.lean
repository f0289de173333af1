import Lexing.Proofs.Safety
import Lexing.Proofs.Totality

/-!
# No symbol is lost

An automaton cuts the symbols that are driven through it into consecutive blocks and makes one
token of each.  The token depends on nothing but its block (`StateTable.Makes`), although the
automaton may have looked one symbol further to see where the block ends.

While symbols come in, those of the finished blocks and those of the history, which is the block in
progress, are all there are.  This is shown for one step (`exists_step_conserves`), for one symbol,
which takes a second step if it is asked for again (`exists_drive_conserves`), and for a run, by
induction on its symbols with any match in progress at its start (`exists_driveAll_conserves`).  The
main result `Automaton.exists_conserves` adds the flush.
-/

namespace Lexing

open StateTable

variable {t : Trie} {l : Lexicon} {next : NodeId} {s : Symbol}

/-! ## What a block becomes -/

namespace StateTable

/-- The accept action that ends a block, and the block as history: the block is read from the start,
and either its last symbol ends it, or it is left to the catch-all transition of the state in which
it stalls. -/
def settle? (t : StateTable) (block : List Symbol) : Option (Accept × History) :=
  match t.retrace? block with
  | some (history, id) => do
    let state ← t.state? id
    let tr ← state.transition? .endOfStream
    let accept ← tr.accept?
    return (accept, history)
  | none => do
    let last ← block.getLast?
    let (history, id) ← t.retrace? block.dropLast
    let state ← t.state? id
    let tr ← state.transition? last
    let accept ← tr.accept?
    if tr.replay then none else return (accept, history.push state.name last)

/-- The token is the one of the block: it has the position of the first symbol and the kind of the
accepting lexeme, and its value is that of an attribute of this lexeme on the block with the last
symbol of the block as input. -/
def Makes (t : StateTable) (block : List Symbol) (token : Token) : Prop :=
  ∃ accept history lexeme first last,
    t.settle? block = some (accept, history) ∧ history.symbols = block ∧
    t.lexeme? accept.lexeme = some lexeme ∧
    block.head? = some first ∧ block.getLast? = some last ∧
    token =
      { kind := lexeme.kind
        value := (attributeOf accept lexeme).evaluate history last
        position := first.position }

/-- A block becomes at most one token. -/
theorem Makes.unique {t : StateTable} {block : List Symbol} {token token' : Token}
    (h : t.Makes block token) (h' : t.Makes block token') : token = token' := by
  obtain ⟨accept, history, lexeme, first, last, hsettle, _, hlexeme, hfirst, hlast, rfl⟩ := h
  obtain ⟨_, _, _, _, _, hsettle', _, hlexeme', hfirst', hlast', rfl⟩ := h'
  cases hsettle.symm.trans hsettle'
  cases hlexeme.symm.trans hlexeme'
  cases hfirst.symm.trans hfirst'
  cases hlast.symm.trans hlast'
  rfl

lemma Makes.ne_nil {t : StateTable} {block : List Symbol} {token : Token}
    (h : t.Makes block token) : block ≠ [] := by
  obtain ⟨_, _, _, _, _, _, _, _, hfirst, _⟩ := h
  rintro rfl
  cases hfirst

end StateTable

/-- The token of a verdict is the one of the block, if the verdict is that of the action that ends
the block. -/
lemma Verdict.makes_of_token? {t : StateTable} {block : List Symbol} {accept : Accept}
    {history : History} {lexeme : Lexeme} {token : Token}
    (hsettle : t.settle? block = some (accept, history)) (hsymbols : history.symbols = block)
    (hlexeme : t.lexeme? accept.lexeme = some lexeme)
    (h : Verdict.token? ⟨lexeme.kind, attributeOf accept lexeme⟩ history = some token) :
    t.Makes block token := by
  obtain ⟨first, last, hfirst, hlast, rfl⟩ := Verdict.exists_of_token? h
  have hhead : block.head? = some first.symbol := by
    rw [← hsymbols, History.symbols, List.head?_map, ← History.first?, hfirst, Option.map_some]
  have hend : block.getLast? = some last.symbol := by
    rw [← hsymbols, History.symbols, List.getLast?_map, ← History.last?, hlast, Option.map_some]
  exact ⟨accept, history, lexeme, first.symbol, last.symbol, hsettle, hsymbols, hlexeme, hhead,
    hend, rfl⟩

namespace StateTable

lemma settle?_of_retrace? {t : StateTable} {block : List Symbol} {history : History} {id : StateId}
    {state : State} {tr : Transition} {accept : Accept}
    (h : t.retrace? block = some (history, id)) (hstate : t.state? id = some state)
    (htr : state.transition? .endOfStream = some tr) (haccept : tr.accept? = some accept) :
    t.settle? block = some (accept, history) := by
  simp [settle?, h, hstate, htr, haccept]

lemma settle?_concat {t : StateTable} {ss : List Symbol} {history : History} {id : StateId}
    {state : State} {tr : Transition} {accept : Accept}
    (h : t.retrace? ss = some (history, id)) (hstate : t.state? id = some state)
    (htr : state.transition? s = some tr) (haccept : tr.accept? = some accept)
    (hreplay : tr.replay = false) :
    t.settle? (ss ++ [s]) = some (accept, history.push state.name s) := by
  have hends : t.retrace? (ss ++ [s]) = none := by
    simp [retrace?_concat, h, goOn?, hstate, htr, haccept]
  simp [settle?, hends, h, hstate, htr, haccept, hreplay]

end StateTable

namespace Walker

variable {w : Walker}

/-- The token of a match that stalls is that of its symbols. -/
lemma Traced.exists_makes_of_stalls (ht : t.Fits l) (hw : w.Traced t l)
    (hroot : w.node ≠ Trie.rootId) :
    ∃ token, (t.verdictAt l w.node).token? w.history = some token ∧
      (ofTrie t l).Makes w.history.symbols token := by
  obtain ⟨node, hnode⟩ := exists_node?_of_mem_liveNodes hw.live
  obtain ⟨lexeme, token, hlexeme, htoken, hmade⟩ :=
    exists_token?_acceptAt ht hnode (hw.toSound.isEmpty_eq_false hroot)
  have hsettle : (ofTrie t l).settle? w.history.symbols = some (acceptAt l node, w.history) :=
    settle?_of_retrace? hw.retraced (state?_stateOf hw.live hnode)
      (transition?_of_isEndOfStream rfl) (accept?_catchAllAt hroot)
  exact ⟨token, htoken, Verdict.makes_of_token? hsettle rfl hlexeme hmade⟩

/-- The token of a match that a symbol completes is that of its symbols and this one. -/
lemma Traced.exists_makes_of_completes (ht : t.Fits l) (hw : w.Traced t l)
    (hs : s.isEndOfStream = false) (hnext : t.successor? w.node s.tag = some next)
    (hleaf : t.isLeaf next = true) :
    ∃ token, (t.verdictAt l next).token? (w.history.push (t.nameAt w.node) s) = some token ∧
      (ofTrie t l).Makes (w.history.symbols ++ [s]) token := by
  obtain ⟨node, hnode⟩ := exists_node?_of_mem_liveNodes hw.live
  obtain ⟨tr, child, htr, hchild, _, hreplay, haccept⟩ :=
    exists_transition?_of_successor? (l := l) hs hw.live hnode hnext
  have hlive : next ∉ liveNodes t := by
    simp [Trie.mem_liveNodes_iff_of_admits ht (Trie.admits_of_successor? hnext), hleaf]
  rw [if_neg hlive] at haccept
  have hname : t.nameAt w.node = node.name := by simp [Trie.nameAt, hnode]
  obtain ⟨lexeme, token, hlexeme, htoken, hmade⟩ :=
    exists_token?_acceptAt ht hchild (History.isEmpty_push w.history (t.nameAt w.node) s)
  have hsettle : (ofTrie t l).settle? (w.history.symbols ++ [s]) =
      some (acceptAt l child, w.history.push (t.nameAt w.node) s) := by
    rw [hname]
    exact settle?_concat hw.retraced (state?_stateOf hw.live hnode) htr haccept hreplay
  exact ⟨token, htoken,
    Verdict.makes_of_token? hsettle (History.symbols_push ..) hlexeme hmade⟩

/-- A symbol with which no match begins becomes a token by itself. -/
lemma Traced.exists_makes_of_passes (hw : w.Traced t l) (hs : s.isEndOfStream = false)
    (hnext : t.successor? w.node s.tag = none) (hroot : w.node = Trie.rootId) :
    ∃ token, l.defaultLexeme.fullVerdict.token? (History.empty.push (t.nameAt w.node) s) =
        some token ∧
      (ofTrie t l).Makes (w.history.symbols ++ [s]) token := by
  obtain ⟨node, hnode⟩ := exists_node?_of_mem_liveNodes hw.live
  obtain ⟨token, htoken⟩ := l.defaultLexeme.fullVerdict.exists_token?
    (History.isEmpty_push .empty (t.nameAt w.node) s)
  have hname : t.nameAt w.node = node.name := by simp [Trie.nameAt, hnode]
  have htr := transition?_of_successor?_eq_none (l := l) hs hnode hnext
  have haccept : (catchAllAt t l w.node node).accept? = some (.fullMatch defaultId) := by
    rw [hroot]
    exact accept?_catchAllAt_rootId
  have hreplay : (catchAllAt t l w.node node).replay = false := by simp [hroot]
  have hsettle : (ofTrie t l).settle? (w.history.symbols ++ [s]) =
      some (.fullMatch defaultId, w.history.push (t.nameAt w.node) s) := by
    rw [hname]
    exact settle?_concat hw.retraced (state?_stateOf hw.live hnode) htr haccept hreplay
  refine ⟨token, htoken, ?_⟩
  rw [← hw.toSound.history_eq_empty hroot] at htoken
  exact Verdict.makes_of_token? hsettle (History.symbols_push ..) l.lexeme?_defaultId htoken

end Walker

/-! ## One step -/

namespace Walker

variable {w : Walker}

/-- A symbol is asked for again only when the match is over. -/
lemma eq_start_of_replay (h : (w.step t l s).1.signal = .replay) :
    (w.step t l s).2 = start := by
  have hsteps := w.steps_step t l s
  generalize w.step t l s = r at h hsteps ⊢
  cases hsteps with
  | rests => cases h
  | goesOn => cases h
  | completes => rfl
  | passes => rfl
  | stalls => rfl

lemma signal_step_start : (start.step t l s).1.signal ≠ .replay := by
  have hsteps := start.steps_step t l s
  generalize start.step t l s = r at hsteps ⊢
  cases hsteps with
  | rests => simp
  | goesOn => simp
  | completes => simp
  | passes => simp
  | stalls _ hroot => exact absurd rfl hroot

/-- If the symbol is asked for again, it is presented to an automaton at its start. -/
lemma step_image_of_replay (ht : t.Fits l) (h : (w.step t l s).1.signal = .replay) :
    (image t l (w.step t l s)).automaton.step s = .ok (image t l (start.step t l s)) := by
  rw [image, eq_start_of_replay h]
  exact step_automaton ht (sound_start ht) s

/-- **One step.**  A step either spends the symbol, or hands out the whole match in progress and
asks for the symbol again. -/
lemma Traced.exists_step_conserves (ht : t.Fits l) (hw : w.Traced t l)
    (hs : s.isEndOfStream = false) :
    ∃ blocks, List.Forall₂ (ofTrie t l).Makes blocks (w.step t l s).1.token?.toList ∧
      ((w.step t l s).1.signal ≠ .replay ∧
          blocks.flatten ++ (w.step t l s).2.history.symbols = w.history.symbols ++ [s] ∨
        (w.step t l s).1.signal = .replay ∧ blocks.flatten = w.history.symbols) := by
  have hsteps := w.steps_step t l s
  generalize w.step t l s = r at hsteps ⊢
  cases hsteps with
  | rests hend _ =>
    rw [hs] at hend
    cases hend
  | goesOn => exact ⟨[], .nil, .inl ⟨by simp, by simp⟩⟩
  | completes _ hnext hleaf =>
    obtain ⟨token, htoken, hmakes⟩ := hw.exists_makes_of_completes ht hs hnext hleaf
    rw [htoken]
    exact ⟨[w.history.symbols ++ [s]], .cons hmakes .nil, .inl ⟨by simp, by simp [start]⟩⟩
  | passes _ hnext hroot =>
    obtain ⟨token, htoken, hmakes⟩ := hw.exists_makes_of_passes hs hnext hroot
    rw [htoken]
    exact ⟨[w.history.symbols ++ [s]], .cons hmakes .nil, .inl ⟨by simp, by simp [start]⟩⟩
  | stalls _ hroot =>
    obtain ⟨token, htoken, hmakes⟩ := hw.exists_makes_of_stalls ht hroot
    rw [htoken]
    exact ⟨[w.history.symbols], .cons hmakes .nil, .inr ⟨by simp [hs], by simp⟩⟩

end Walker

/-! ## One symbol -/

namespace Automaton

variable {a : Automaton} {first second : Step}

lemma drive_of_ne_replay (h : a.step s = .ok first) (hsignal : first.signal ≠ .replay) :
    a.drive s = .ok (first.token?.toList, first.automaton) := by
  rw [drive, h]
  cases hcases : first.signal with
  | replay => exact absurd hcases hsignal
  | goOn => simp only [hcases]
  | reset => simp only [hcases]

lemma drive_of_replay (h : a.step s = .ok first) (hsignal : first.signal = .replay)
    (hagain : first.automaton.step s = .ok second) :
    a.drive s =
      .ok (first.token?.toList ++ second.token?.toList, second.automaton) := by
  simp only [drive, h, hsignal, hagain]

end Automaton

namespace Walker

variable {w : Walker}

/-- **One symbol.**  A symbol that is driven through the automaton, once more if it is asked for
again, is spent. -/
lemma Traced.exists_drive_conserves (ht : t.Fits l) (hw : w.Traced t l)
    (hs : s.isEndOfStream = false) :
    ∃ (blocks : List (List Symbol)) (tokens : List Token) (w' : Walker),
      (w.automaton t l).drive s = .ok (tokens, w'.automaton t l) ∧ w'.Traced t l ∧
      List.Forall₂ (ofTrie t l).Makes blocks tokens ∧
      blocks.flatten ++ w'.history.symbols = w.history.symbols ++ [s] := by
  obtain ⟨blocks, hmakes, hfirst⟩ := hw.exists_step_conserves ht hs
  have hstep := step_automaton ht hw.toSound s
  rcases hfirst with ⟨hsignal, hblocks⟩ | ⟨hsignal, hblocks⟩
  · exact ⟨blocks, _, _, Automaton.drive_of_ne_replay hstep hsignal, hw.step ht s, hmakes,
      hblocks⟩
  · -- The automaton is back at its start, where no match can stall.
    obtain ⟨more, hmore, hsecond⟩ := (traced_start (l := l) ht).exists_step_conserves ht hs
    have hagain := step_image_of_replay ht hsignal
    rcases hsecond with ⟨_, hrest⟩ | ⟨hreplay, _⟩
    · refine ⟨blocks ++ more, _, _, Automaton.drive_of_replay hstep hsignal hagain,
        (traced_start ht).step ht s, List.rel_append hmakes hmore, ?_⟩
      rw [List.flatten_append, List.append_assoc, hrest, hblocks]
      rfl
    · exact absurd hreplay signal_step_start

/-- **The flush.**  The end of the stream hands out the match in progress. -/
lemma Traced.exists_flush (ht : t.Fits l) (hw : w.Traced t l) :
    ∃ (blocks : List (List Symbol)) (tokens : List Token),
      (w.automaton t l).drive .endOfStream = .ok (tokens, start.automaton t l) ∧
      List.Forall₂ (ofTrie t l).Makes blocks tokens ∧ blocks.flatten = w.history.symbols := by
  have hstep := step_automaton ht hw.toSound .endOfStream
  have hsteps := w.steps_step t l .endOfStream
  generalize w.step t l .endOfStream = r at hstep hsteps
  cases hsteps with
  | goesOn hs => cases hs
  | completes hs => cases hs
  | passes hs => cases hs
  | rests _ hroot =>
    have hempty := hw.toSound.history_eq_empty hroot
    have hstart : w = start := by
      cases w
      cases hroot
      cases hempty
      rfl
    have hdrive := Automaton.drive_of_ne_replay hstep (by simp [image])
    refine ⟨[], [], ?_, .nil, by simp [hempty]⟩
    rw [hdrive, hstart]
    rfl
  | stalls _ hroot =>
    obtain ⟨token, htoken, hmakes⟩ := hw.exists_makes_of_stalls ht hroot
    have hdrive := Automaton.drive_of_ne_replay hstep (by simp [image])
    refine ⟨[w.history.symbols], [token], ?_, .cons hmakes .nil, by simp⟩
    rw [hdrive]
    simp [image, htoken]

/-! ## Runs -/

/-- **A run.**  The finished blocks and the history hold the symbols driven so far, at every point
of the run. -/
lemma Traced.exists_driveAll_conserves (ht : t.Fits l) (hw : w.Traced t l) {ss : List Symbol}
    (hss : ∀ s ∈ ss, s.isEndOfStream = false) :
    ∃ (blocks : List (List Symbol)) (tokens : List Token) (w' : Walker),
      (w.automaton t l).driveAll ss = .ok (tokens, w'.automaton t l) ∧ w'.Traced t l ∧
      List.Forall₂ (ofTrie t l).Makes blocks tokens ∧
      blocks.flatten ++ w'.history.symbols = w.history.symbols ++ ss ∧
      ∀ p, p <+: ss → ∃ done b, (w.automaton t l).driveAll p = .ok (done, b) ∧ done <+: tokens ∧
        (blocks.take done.length).flatten ++ b.history.symbols = w.history.symbols ++ p := by
  induction ss generalizing w with
  | nil =>
    refine ⟨[], [], w, rfl, hw, .nil, by simp, fun p hp => ?_⟩
    rw [List.prefix_nil.1 hp]
    exact ⟨[], _, rfl, List.prefix_refl _, by simp [automaton]⟩
  | cons s ss ih =>
    obtain ⟨hs, hss⟩ := List.forall_mem_cons.1 hss
    obtain ⟨blocks, tokens, w₁, hdrive, hw₁, hmakes, hblocks⟩ :=
      hw.exists_drive_conserves ht hs
    obtain ⟨more, later, w₂, hrest, hw₂, hmore, hflatten, hpoints⟩ := ih hw₁ hss
    refine ⟨blocks ++ more, tokens ++ later, w₂, ?_, hw₂, List.rel_append hmakes hmore, ?_, ?_⟩
    · simp only [Automaton.driveAll, hdrive, hrest]
    · rw [List.flatten_append, List.append_assoc, hflatten, ← List.append_assoc, hblocks]
      simp
    · intro p hp
      rcases List.prefix_cons_iff.1 hp with rfl | ⟨q, rfl, hq⟩
      · exact ⟨[], _, rfl, List.nil_prefix, by simp [automaton]⟩
      · obtain ⟨done, b, hrun, hdone, hpoint⟩ := hpoints q hq
        -- the blocks of the first symbol are finished, and `done` counts those after them
        have htake : (blocks ++ more).take (tokens ++ done).length =
            blocks ++ more.take done.length := by
          rw [List.length_append, ← hmakes.length_eq, List.take_length_add_append]
        refine ⟨tokens ++ done, b, ?_, (List.prefix_append_right_inj tokens).2 hdone, ?_⟩
        · simp only [Automaton.driveAll, hdrive, hrun]
        · rw [htake, List.flatten_append, List.append_assoc, hpoint, ← List.append_assoc, hblocks]
          simp

end Walker

/-! ## Conservation -/

namespace Automaton

/-- What a run of an automaton over several symbols, and the flush after it, do: they cut the
symbols into blocks and hand out a token for each, `tokens` in the run and `last` in the flush. -/
structure Conserves (a : Automaton) (ss : List Symbol) (blocks : List (List Symbol))
    (tokens last : List Token) : Prop where
  /-- The run and the flush succeed, and the automaton is as before. -/
  exists_run : ∃ b, a.driveAll ss = .ok (tokens, b) ∧ b.drive .endOfStream = .ok (last, a)
  /-- Nothing is lost, doubled or moved. -/
  flatten_eq : blocks.flatten = ss
  ne_nil : ∀ block ∈ blocks, block ≠ []
  /-- Each block, in order, determines the token that is handed out for it. -/
  makes : List.Forall₂ a.table.Makes blocks (tokens ++ last)
  /-- At each point of the run the blocks handed out so far and the history hold all the symbols
  driven so far. -/
  pending : ∀ p, p <+: ss → ∃ done b, a.driveAll p = .ok (done, b) ∧ done <+: tokens ∧
    (blocks.take done.length).flatten ++ b.history.symbols = p

lemma eq_new_of_isIdle {a : Automaton} (h : a.isIdle = true) : a = .new a.table := by
  obtain ⟨table, current, ⟨visits⟩⟩ := a
  simp only [isIdle, History.isEmpty, Bool.and_eq_true, beq_iff_eq, List.isEmpty_iff] at h
  obtain ⟨rfl, rfl⟩ := h
  rfl

@[simp] lemma isIdle_new (table : StateTable) : (new table).isIdle = true := by
  simp [isIdle, new, History.isEmpty]

/-- **Conservation.**  The symbols driven through an idle automaton on the table of a lexicon, and
flushed, come out as tokens of consecutive blocks. -/
theorem exists_conserves {a : Automaton} (l : Lexicon) (htable : a.table = l.compile)
    (hidle : a.isIdle = true) {ss : List Symbol} (hss : ∀ s ∈ ss, s.isEndOfStream = false) :
    ∃ blocks tokens last, a.Conserves ss blocks tokens last := by
  have ht := Trie.fits_ofLexicon l
  have ha : a = Walker.start.automaton (.ofLexicon l) l := by
    rw [eq_new_of_isIdle hidle, htable, Walker.automaton_start ht]
    rfl
  obtain ⟨blocks, tokens, w, hrun, hw, hmakes, hflatten, hpoints⟩ :=
    (Walker.traced_start ht).exists_driveAll_conserves ht hss
  obtain ⟨more, last, hflush, hlast, hrest⟩ := hw.exists_flush ht
  rw [← ha] at hrun hflush hpoints
  have hall : List.Forall₂ a.table.Makes (blocks ++ more) (tokens ++ last) :=
    htable ▸ List.rel_append hmakes hlast
  refine ⟨blocks ++ more, tokens, last, ⟨_, hrun, hflush⟩, ?_, ?_, hall, ?_⟩
  · rw [List.flatten_append, hrest, hflatten]
    rfl
  · intro block hblock
    obtain ⟨i, hi, rfl⟩ := List.getElem_of_mem hblock
    have hi' : i < (tokens ++ last).length := hall.length_eq ▸ hi
    exact (hall.get hi hi').ne_nil
  · intro p hp
    obtain ⟨done, b, hdone, hprefix, hpoint⟩ := hpoints p hp
    have hle : done.length ≤ blocks.length := by
      rw [hmakes.length_eq]
      exact hprefix.length_le
    refine ⟨done, b, hdone, hprefix, ?_⟩
    rw [List.take_append_of_le_length hle, hpoint]
    rfl

theorem exists_conserves_competing :
    ∃ blocks tokens last, (new competing.compile).Conserves
      [.special 'a', .special 'b', .text "x", .special 'a', .special 'a'] blocks tokens last :=
  exists_conserves competing rfl rfl (by decide)

end Automaton

end Lexing
