import Lexing.Proofs.Completeness

/-!
# What full matches are made of

A token is handed out for a block of symbols (`Automaton.Emits`).  If it is a full match of a lexeme
with a pattern, the block leads down the trie to a node at which the lexeme ends
(`exists_descend?_of_emits`), so it spells a line to the end of the pattern
(`exists_completes_of_descend?`).

Spelling is not matching.  A repeat is marked on a node, and a node is shared by all patterns that
pass along its path, so a pattern repeats where any other does.  `Automaton.exists_emits_spells`
tells what full matches are made of in general and when they are words of the pattern itself;
`Automaton.exists_emits_not_matches_shared` shows that they need not be.
-/

namespace Lexing

open StateTable

variable {t : Trie} {l : Lexicon} {id : NodeId} {i : LexemeId} {s : Symbol} {block : List Symbol}

/-! ## Blocks -/

namespace Automaton

/-- Presenting the symbol makes the automaton hand out the token, by an accept action on the
symbols of the block: those of the history, and the symbol too if it is consumed. -/
def Emits (a : Automaton) (s : Symbol) (token : Token) (accept : Accept) (block : List Symbol) :
    Prop :=
  ∃ state tr history, a.table.state? a.current = some state ∧ state.transition? s = some tr ∧
    tr.accept? = some accept ∧ a.table.emit accept state.name history = .ok token ∧
    history.symbols = block ∧
    block = if tr.replay then a.history.symbols else a.history.symbols ++ [s]

/-- A step that hands out a token takes a transition. -/
lemma exists_follow_of_step {a : Automaton} {r : Step} {token : Token} (h : a.step s = .ok r)
    (htoken : r.token? = some token) :
    ∃ state tr, a.table.state? a.current = some state ∧ state.transition? s = some tr ∧
      a.follow state.name tr s = .ok r := by
  unfold step at h
  split at h
  · cases h
  · rename_i state hstate
    split at h
    · cases h
      cases htoken
    · split at h
      · cases h
      · rename_i tr htr
        split at h
        · cases h
        · exact ⟨state, tr, hstate, htr, h⟩

/-- A transition that hands out a token accepts the history, with the symbol if it consumes it. -/
lemma exists_emit_of_follow {a : Automaton} {name : String} {tr : Transition} {r : Step}
    {token : Token} (h : a.follow name tr s = .ok r) (htoken : r.token? = some token) :
    ∃ accept history, tr.accept? = some accept ∧ a.table.emit accept name history = .ok token ∧
      history.symbols = if tr.replay then a.history.symbols else a.history.symbols ++ [s] := by
  unfold follow at h
  split at h
  · cases h
    cases htoken
  · cases h
    cases htoken
  · rename_i accept haccept hreplay
    split at h
    · cases h
    · rename_i hemit
      cases h
      cases htoken
      refine ⟨accept, _, haccept, hemit, ?_⟩
      rw [hreplay, History.symbols_push]
      rfl
  · rename_i accept haccept hreplay
    split at h
    · cases h
    · rename_i hemit
      cases h
      cases htoken
      refine ⟨accept, _, haccept, hemit, ?_⟩
      rw [hreplay]
      rfl

/-- Every token is handed out by some accept action on some block. -/
lemma exists_emits_of_step {a : Automaton} {r : Step} {token : Token} (h : a.step s = .ok r)
    (htoken : r.token? = some token) : ∃ accept block, a.Emits s token accept block := by
  obtain ⟨state, tr, hstate, htr, hfollow⟩ := exists_follow_of_step h htoken
  obtain ⟨accept, history, haccept, hemit, hsymbols⟩ := exists_emit_of_follow hfollow htoken
  exact ⟨accept, _, state, tr, history, hstate, htr, haccept, hemit, rfl, hsymbols⟩

end Automaton

/-! ## Blocks of full matches -/

lemma StateTable.acceptAt_eq_fullMatch_iff {node : Node} :
    acceptAt l node = .fullMatch i ↔ node.fullMatch? = some i := by
  unfold acceptAt
  split
  · rename_i j hj
    rw [hj, Accept.fullMatch.injEq, Option.some.injEq]
  · rename_i hnone
    simp [hnone]

/-- What leads down to a node at which a lexeme has a full match spells a line to the end of the
pattern of the lexeme. -/
lemma Trie.exists_completes_of_descend? {node : Node}
    (h : (ofLexicon l).descend? rootId block = some id) (hnode : (ofLexicon l).node? id = some node)
    (haccept : acceptAt l node = .fullMatch i) :
    ∃ path, l.Completes i path ∧ l.Spells [] path block := by
  obtain ⟨path, hpath, hspells⟩ := exists_spells_of_descend?_rootId h
  exact ⟨path, completes_of_fullMatch? hpath hnode (acceptAt_eq_fullMatch_iff.1 haccept), hspells⟩

/-- The block of a full match leads down the trie to a node at which the lexeme ends. -/
lemma Walker.Traced.exists_descend?_of_emits {w : Walker} (ht : t.Fits l) (hw : w.Traced t l)
    {token : Token} (h : (w.automaton t l).Emits s token (.fullMatch i) block)
    (hi : i ≠ defaultId) :
    ∃ id node, t.descend? Trie.rootId block = some id ∧ t.node? id = some node ∧
      acceptAt l node = .fullMatch i := by
  obtain ⟨state, tr, _, hstate, htr, haccept, _, _, rfl⟩ := h
  obtain ⟨node, hnode⟩ := exists_node?_of_mem_liveNodes hw.live
  cases (state?_automaton hw.toSound hnode).symm.trans hstate
  have hdescend : t.descend? Trie.rootId (w.automaton t l).history.symbols = some w.node :=
    hw.descend?_eq ht
  rcases transition?_cases hw.live hnode htr with
    rfl | ⟨next, child, hnext, hchild, _, hreplay, haccept'⟩
  · -- the match ends where it is
    rcases accept_catchAllAt_cases haccept with ⟨_, hdefault⟩ | ⟨hroot, hsame⟩
    · cases hdefault
      exact absurd rfl hi
    · refine ⟨w.node, node, ?_, hnode, hsame.symm⟩
      rw [replay_catchAllAt, if_pos (by simpa using hroot), hdescend]
  · -- the symbol leads to a leaf
    rw [haccept] at haccept'
    split at haccept'
    · cases haccept'
    · refine ⟨next, child, ?_, hchild, (Option.some.inj haccept').symm⟩
      rw [hreplay, if_neg (by simp), Trie.descend?_concat, hdescend, Option.bind_some, hnext]

/-- What leads down the trie to a leaf is a block, and the symbol that leads there emits it. -/
lemma Automaton.exists_emits_of_descend? (ht : t.Fits l) {ss : List Symbol} {node : Node}
    (hss : ∀ u ∈ ss ++ [s], u.isEndOfStream = false)
    (h : t.descend? Trie.rootId (ss ++ [s]) = some id) (hleaf : t.isLeaf id = true)
    (hnode : t.node? id = some node) :
    ∃ a r token, (new (ofTrie t l)).actAll (ss.map .present) = .ok a ∧ a.step s = .ok r ∧
      r.token? = some token ∧ a.Emits s token (acceptAt l node) (ss ++ [s]) := by
  rw [List.forall_mem_append, List.forall_mem_singleton] at hss
  rw [Trie.descend?_concat] at h
  obtain ⟨before, hbefore, hnext⟩ := Option.bind_eq_some_iff.1 h
  obtain ⟨w, _, hact, hw, rfl, rfl⟩ := Walker.exists_driveAll_of_descend? (l := l) ht hss.1 hbefore
    (.inl (Trie.isLeaf_eq_false_of_successor? hnext))
  rw [Walker.automaton_start ht] at hact
  obtain ⟨here, hhere⟩ := exists_node?_of_mem_liveNodes hw.live
  obtain ⟨tr, child, htr, hchild, _, hreplay, haccept⟩ :=
    exists_transition?_of_successor? (l := l) hss.2 hw.live hhere hnext
  cases hnode.symm.trans hchild
  have hlive : id ∉ liveNodes t := by
    simp [Trie.mem_liveNodes_iff_of_admits ht (Trie.admits_of_successor? hnext), hleaf]
  rw [if_neg hlive] at haccept
  obtain ⟨lexeme, token, hlexeme, htoken, hmade⟩ := exists_token?_acceptAt ht hnode
    (History.isEmpty_push w.history here.name s)
  have hname : t.nameAt w.node = here.name := by simp [Trie.nameAt, hhere]
  refine ⟨_, _, token, hact, Walker.step_automaton ht hw.toSound s, ?_, _, tr, _,
    Walker.state?_automaton hw.toSound hhere, htr, haccept, emit_eq_ok hlexeme hmade,
    History.symbols_push .., ?_⟩
  · simp [Walker.image, Walker.step, hss.2, hnext, hleaf, hname, htoken]
  · rw [hreplay]
    rfl

/-! ## Full matches -/

/-- **Full matches.**  Whatever was presented to an automaton on the table of a lexicon before, a
token that it hands out is made of a block, and if it is a full match of a lexeme with a pattern,
the block spells a line to the end of this pattern: one symbol for each edge, or several where some
lexeme passes by that repeats.  It is a word of the pattern itself if no lexeme repeats where a
visit of the pattern does not. -/
theorem Automaton.exists_emits_spells {actions : List Action} {a : Automaton} {r : Step}
    {token : Token} (ha : (new l.compile).actAll actions = .ok a) (hstep : a.step s = .ok r)
    (htoken : r.token? = some token) :
    ∃ accept block, a.Emits s token accept block ∧
      ∀ i, accept = .fullMatch i → i ≠ defaultId →
        ∃ items path, l.pattern? i = some items ∧ Pattern.Item.Ends items path ∧
          l.Spells [] path block ∧
          ((∀ stop, l.Visits i stop → l.RepeatsAt stop.path → stop.repeats = true) →
            Pattern.Item.Matches items block) := by
  have ht := Trie.fits_ofLexicon l
  obtain ⟨w, hrun, hw⟩ := Walker.exists_actAll_automaton ht (Walker.traced_start ht) actions
  rw [Walker.automaton_start ht] at hrun
  cases ha.symm.trans hrun
  obtain ⟨accept, block, hemits⟩ := exists_emits_of_step hstep htoken
  refine ⟨accept, block, hemits, ?_⟩
  rintro i rfl hi
  obtain ⟨id, node, hdescend, hnode, haccept⟩ := hw.exists_descend?_of_emits ht hemits hi
  obtain ⟨path, ⟨items, hitems, hends⟩, hspells⟩ :=
    Trie.exists_completes_of_descend? hdescend hnode haccept
  refine ⟨items, path, hitems, hends, hspells, fun hown => ?_⟩
  have hstops : ∀ stop ∈ Pattern.Item.tour items,
      l.RepeatsAt ([] ++ stop.path) → stop.repeats = true :=
    fun stop hstop => hown stop ⟨items, hitems, hstop⟩
  exact Pattern.Item.matches_of_spells hends hstops hspells

/-- A remark is read to its end, and the end of the line hands it out. -/
theorem Automaton.exists_emits_spells_marks :
    ∃ a r token, (new marks.compile).actAll [.present (.special '#')] = .ok a ∧
      a.step (.special '\n') = .ok r ∧ r.token? = some token ∧
      ∃ accept block, a.Emits (.special '\n') token accept block ∧
        ∀ i, accept = .fullMatch i → i ≠ defaultId →
          ∃ items path, marks.pattern? i = some items ∧ Pattern.Item.Ends items path ∧
            marks.Spells [] path block ∧
            ((∀ stop, marks.Visits i stop → marks.RepeatsAt stop.path → stop.repeats = true) →
              Pattern.Item.Matches items block) := by
  have hdescend : (Trie.ofLexicon marks).descend? Trie.rootId
      ([.special '#'] ++ [.special '\n']) = some 6 := by decide +kernel
  have hleaf : (Trie.ofLexicon marks).isLeaf 6 = true := by decide +kernel
  obtain ⟨node, hnode⟩ : ∃ node, (Trie.ofLexicon marks).node? 6 = some node :=
    Option.isSome_iff_exists.1 (by decide +kernel)
  obtain ⟨a, r, token, hrun, hstep, htoken, _⟩ :=
    exists_emits_of_descend? (Trie.fits_ofLexicon marks) (by decide) hdescend hleaf hnode
  exact ⟨a, r, token, hrun, hstep, htoken, exists_emits_spells hrun hstep htoken⟩

/-- A lexicon in which a pair and a run begin alike, but only the run may go on as it began. -/
def shared : Lexicon :=
  { mode := .character
    defaultLexeme := { kind := "text", items := [], fullMatch := .input, partialMatch? := none }
    patternLexemes :=
      [{ kind := "pair"
         items := [.element { symbol := "a" }, .element { symbol := "b" }]
         fullMatch := .concat
         partialMatch? := none },
       { kind := "run"
         items := [.element { symbol := "a", repeats := true }, .element { symbol := "c" }]
         fullMatch := .concat
         partialMatch? := none }] }

lemma accepted_shared : shared.Accepted :=
  ⟨(((Draft.new .character).withDefault { kind := "text" }).withLexeme
      { kind := "pair"
        pattern? := some (.literal "ab")
        fullMatch := .concat }).withLexeme
      { kind := "run"
        pattern? := some (.sequence
          [.element { symbol := "a", repeats := true }, .element { symbol := "c" }])
        fullMatch := .concat },
    .withLexeme _ (.withLexeme _ (.withDefault _ (.new _))), by rfl⟩

/-- Three symbols are no pair. -/
lemma not_matches_pair : ¬ Pattern.Item.Matches
    [.element { symbol := "a" }, .element { symbol := "b" }]
    [.special 'a', .special 'a', .special 'b'] := by
  intro h
  generalize hw : [Symbol.special 'a', .special 'a', .special 'b'] = w at h
  cases h with
  | skip ho => cases ho
  | take _ hrun _ h =>
    cases h with
    | skip ho => cases ho
    | take _ hrun' _ h =>
      cases h
      have hlength := congrArg List.length hw
      simp only [Bool.false_eq_true, or_false] at hrun hrun'
      simp [hrun, hrun'] at hlength

/-- The run lends its repeat to the pair: the mark is on a node that both pass. -/
theorem Automaton.exists_emits_not_matches_shared :
    shared.Accepted ∧
      ∃ a r token items, (new shared.compile).actAll
          [.present (.special 'a'), .present (.special 'a')] = .ok a ∧
        a.step (.special 'b') = .ok r ∧ r.token? = some token ∧
        a.Emits (.special 'b') token (.fullMatch 1) [.special 'a', .special 'a', .special 'b'] ∧
        shared.pattern? 1 = some items ∧
        ¬ Pattern.Item.Matches items [.special 'a', .special 'a', .special 'b'] := by
  have hdescend : (Trie.ofLexicon shared).descend? Trie.rootId
      ([.special 'a', .special 'a'] ++ [.special 'b']) = some 2 := by decide +kernel
  have hleaf : (Trie.ofLexicon shared).isLeaf 2 = true := by decide +kernel
  have hnode : ((Trie.ofLexicon shared).node? 2).map (acceptAt shared) = some (.fullMatch 1) := by
    decide +kernel
  obtain ⟨node, hnode, haccept⟩ := Option.map_eq_some_iff.1 hnode
  obtain ⟨a, r, token, hrun, hstep, htoken, hemits⟩ :=
    exists_emits_of_descend? (Trie.fits_ofLexicon shared) (by decide) hdescend hleaf hnode
  rw [haccept] at hemits
  exact ⟨accepted_shared, a, r, token, _, hrun, hstep, htoken, hemits, rfl, not_matches_pair⟩

end Lexing
