import Lexing.Proofs.Accepted
import Lexing.Proofs.Narrowing
import Lexing.Proofs.StateTable

/-!
# Compiled tables are total and deterministic

Every state of a compiled lexicon has exactly one transition for every symbol.  For the state of a
node this is the transition made from the first exit whose edge accepts the tag
(`matching_of_find?_eq_some`), or the catch-all transition if there is no such exit
(`matching_of_find?_eq_none`) or if the stream ends (`matching_of_isEndOfStream`).  These three
lemmas hold for any trie and are all that the rest of the theory knows about transitions.

The main result is `StateTable.state_isTotal`.
-/

namespace Lexing

/-! ## Total states -/

/-- The state has one way out on every symbol, and each of its ways out is of use. -/
structure State.IsTotal (state : State) : Prop where
  /-- One transition accepts the symbol, and it is the one that is taken. -/
  unique : ∀ s : Symbol, ∃ tr, state.matching s = [tr] ∧ state.transition? s = some tr
  /-- The end of the stream is left to the last transition, which alone catches all. -/
  endOfStream : ∃ before last, state.transitions = before ++ [last] ∧ last.kind = .catchAll ∧
    (∀ tr ∈ before, tr.kind ≠ .catchAll) ∧
    ∀ s : Symbol, s.isEndOfStream = true → state.matching s = [last]
  /-- A loop or a way to a child is taken on the symbols of some tag. -/
  useful : ∀ tr ∈ state.transitions, tr.kind ≠ .catchAll →
    ∃ tag, tag ≠ endOfStreamTag ∧ ∀ s : Symbol, s.tag = tag → tr.accepts s = true

lemma Transition.accepts_of_isEndOfStream {tr : Transition} {s : Symbol}
    (hs : s.isEndOfStream = true) : tr.accepts s = decide (tr.kind = .catchAll) := by
  simp [accepts, hs]

lemma Transition.accepts_of_not_isEndOfStream {tr : Transition} {s : Symbol}
    (hs : s.isEndOfStream = false) : tr.accepts s = tr.criterion.accepts s.tag := by
  simp [accepts, hs]

/-- The transition that is taken is the first of those that could be. -/
lemma State.transition?_eq_head? (state : State) (s : Symbol) :
    state.transition? s = (state.matching s).head? := by
  rw [transition?, matching, List.head?_filter]

namespace StateTable

variable {t : Trie} {l : Lexicon} {id : NodeId} {node : Node} {s : Symbol}

/-! ## Exits -/

/-- An exit is the loop or leads to a child. -/
lemma mem_exits_cases {live : List NodeId} {exit : Exit} (h : exit ∈ exits t l live id node) :
    (∃ link, node.link? = some link ∧
      exit = { kind := .loop, edge := link.edge, target := stateOf live id, accept? := none }) ∨
    ∃ child node' link accept?, t.node? child = some node' ∧ node'.link? = some link ∧
      exit = { kind := .child, edge := link.edge, target := stateOf live child, accept? } := by
  rcases List.mem_append.1 h with h | h
  · unfold loopExit at h
    split at h
    · rename_i link hlink
      split at h
      · exact .inl ⟨link, hlink, List.mem_singleton.1 h⟩
      · simp at h
    · simp at h
  · obtain ⟨child, _, hexit⟩ := List.mem_filterMap.1 h
    simp only [childExit, bind, Option.bind_eq_some_iff, pure] at hexit
    obtain ⟨node', hnode, link, hlink, hexit⟩ := hexit
    exact .inr ⟨child, node', link, _, hnode, hlink, (Option.some.inj hexit).symm⟩

lemma kind_of_mem_exits {live : List NodeId} {exit : Exit} (h : exit ∈ exits t l live id node) :
    exit.kind ≠ .catchAll := by
  obtain ⟨_, _, rfl⟩ | ⟨_, _, _, _, _, _, rfl⟩ := mem_exits_cases h <;> simp

/-- The edges of exits are those of elements of the lexicon. -/
lemma edge_of_mem_exits (ht : t.Fits l) (hnode : t.node? id = some node) {live : List NodeId}
    {exit : Exit} (h : exit ∈ exits t l live id node) :
    ∃ e ∈ l.elements, exit.edge = .ofElement e := by
  obtain ⟨link, hlink, rfl⟩ | ⟨child, node', link, _, hnode', hlink, rfl⟩ := mem_exits_cases h
  · exact (ht.node id node hnode).edge link hlink
  · exact (ht.node child node' hnode').edge link hlink

/-- An exit leads to the state of a node, or to the reset state. -/
lemma target_le_of_mem_exits {live : List NodeId} {exit : Exit}
    (h : exit ∈ exits t l live id node) : exit.target ≤ live.length := by
  obtain ⟨_, _, rfl⟩ | ⟨_, _, _, _, _, _, rfl⟩ := mem_exits_cases h
  · exact List.idxOf_le_length
  · exact List.idxOf_le_length

/-! ## The transition for a symbol -/

/-- The catch-all transition of the state of a node. -/
def catchAllAt (t : Trie) (l : Lexicon) (id : NodeId) (node : Node) : Transition :=
  catchAll l (liveNodes t) id node (narrow .empty (exits t l (liveNodes t) id node)).2

lemma transitionsAt_eq : transitionsAt t l (liveNodes t) id node =
    (narrow .empty (exits t l (liveNodes t) id node)).1 ++ [catchAllAt t l id node] :=
  rfl

lemma kind_of_mem_narrow_exits {covered : TagSet} {live : List NodeId} {tr : Transition}
    (h : tr ∈ (narrow covered (exits t l live id node)).1) : tr.kind ≠ .catchAll := by
  obtain ⟨exit, hexit, left, rfl⟩ := exists_becomes_of_mem_narrow h
  exact kind_of_mem_exits hexit

lemma accepts_catchAllAt {tag : Tag} : (catchAllAt t l id node).criterion.accepts tag =
    !(exits t l (liveNodes t) id node).any (·.edge.accepts tag) := by
  simp [catchAllAt, catchAll, contains_narrow]

/-- At the end of the stream there is nothing but the catch-all transition. -/
lemma matching_of_isEndOfStream (hs : s.isEndOfStream = true) :
    (stateFor t l id node).matching s = [catchAllAt t l id node] := by
  have hothers : ∀ tr ∈ (narrow .empty (exits t l (liveNodes t) id node)).1,
      ¬ tr.accepts s = true := by
    intro tr htr
    simpa [Transition.accepts_of_isEndOfStream hs] using kind_of_mem_narrow_exits htr
  have hlast : (catchAllAt t l id node).accepts s = true := by
    rw [Transition.accepts_of_isEndOfStream hs]
    rfl
  rw [State.matching, stateFor, transitionsAt_eq, List.filter_append,
    List.filter_eq_nil_iff.2 hothers, List.nil_append, List.filter_cons, if_pos hlast,
    List.filter_nil]

lemma matching_of_not_isEndOfStream (hs : s.isEndOfStream = false) :
    (stateFor t l id node).matching s =
      (narrow .empty (exits t l (liveNodes t) id node)).1.filter (·.criterion.accepts s.tag) ++
        [catchAllAt t l id node].filter (·.criterion.accepts s.tag) := by
  rw [State.matching, stateFor, transitionsAt_eq, ← List.filter_append]
  exact List.filter_congr fun tr _ => Transition.accepts_of_not_isEndOfStream hs

/-- The first exit that accepts the tag of a symbol becomes the one transition for the symbol. -/
theorem matching_of_find?_eq_some (hs : s.isEndOfStream = false) {exit : Exit}
    (h : (exits t l (liveNodes t) id node).find? (·.edge.accepts s.tag) = some exit) :
    ∃ tr, (stateFor t l id node).matching s = [tr] ∧ exit.Becomes tr := by
  obtain ⟨tr, hfilter, hbecomes⟩ :=
    filter_narrow_of_find?_eq_some (TagSet.contains_empty s.tag) h
  have haccepts : exit.edge.accepts s.tag = true := by
    simpa using List.find?_some h
  have hany : (exits t l (liveNodes t) id node).any (·.edge.accepts s.tag) = true :=
    List.any_eq_true.2 ⟨exit, List.mem_of_find?_eq_some h, haccepts⟩
  have hcatchAll : ¬ (catchAllAt t l id node).criterion.accepts s.tag = true := by
    simp [accepts_catchAllAt, hany]
  refine ⟨tr, ?_, hbecomes⟩
  rw [matching_of_not_isEndOfStream hs, hfilter, List.filter_cons, if_neg hcatchAll,
    List.filter_nil, List.append_nil]

/-- A symbol that no exit accepts is left to the catch-all transition. -/
theorem matching_of_find?_eq_none (hs : s.isEndOfStream = false)
    (h : (exits t l (liveNodes t) id node).find? (·.edge.accepts s.tag) = none) :
    (stateFor t l id node).matching s = [catchAllAt t l id node] := by
  have hany : (exits t l (liveNodes t) id node).any (·.edge.accepts s.tag) = false :=
    List.any_eq_false.2 (List.find?_eq_none.1 h)
  have hcatchAll : (catchAllAt t l id node).criterion.accepts s.tag = true := by
    simp [accepts_catchAllAt, hany]
  rw [matching_of_not_isEndOfStream hs, filter_narrow_of_find?_eq_none h,
    List.filter_cons, if_pos hcatchAll, List.filter_nil, List.nil_append]

/-! ## Totality -/

lemma exists_matching_stateFor (t : Trie) (l : Lexicon) (id : NodeId) (node : Node) (s : Symbol) :
    ∃ tr, (stateFor t l id node).matching s = [tr] := by
  cases hs : s.isEndOfStream with
  | true => exact ⟨_, matching_of_isEndOfStream hs⟩
  | false =>
    cases h : (exits t l (liveNodes t) id node).find? (·.edge.accepts s.tag) with
    | none => exact ⟨_, matching_of_find?_eq_none hs h⟩
    | some exit =>
      obtain ⟨tr, htr, _⟩ := matching_of_find?_eq_some hs h
      exact ⟨tr, htr⟩

/-- A transition that is kept is taken on an ordinary tag, as no element asks for the reserved
one. -/
lemma exists_tag_of_mem_narrow_exits (hl : l.Accepted) (ht : t.Fits l)
    (hnode : t.node? id = some node) {tr : Transition}
    (h : tr ∈ (narrow .empty (exits t l (liveNodes t) id node)).1) :
    ∃ tag, tag ≠ endOfStreamTag ∧ ∀ s : Symbol, s.tag = tag → tr.accepts s = true := by
  have hedges : ∀ exit ∈ exits t l (liveNodes t) id node,
      endOfStreamTag ∉ exit.edge.tagSet.tags := by
    intro exit hexit
    obtain ⟨e, he, hedge⟩ := edge_of_mem_exits ht hnode hexit
    have hne := (hl.symbol_ne_endOfStreamTag he).symm
    rw [hedge, Edge.ofElement]
    split <;> simpa [Edge.tagSet, TagSet.tags] using hne
  obtain ⟨tag, htag, haccepts⟩ :=
    exists_accepts_ne_of_mem_narrow (by simp [TagSet.empty, TagSet.tags]) hedges h
  refine ⟨tag, htag, ?_⟩
  intro s hs
  have hgoes : s.isEndOfStream = false := by simpa [Symbol.isEndOfStream, hs] using htag
  rw [Transition.accepts_of_not_isEndOfStream hgoes, hs]
  exact haccepts

lemma isTotal_stateFor (hl : l.Accepted) (ht : t.Fits l) (hnode : t.node? id = some node) :
    (stateFor t l id node).IsTotal where
  unique s := by
    obtain ⟨tr, htr⟩ := exists_matching_stateFor t l id node s
    exact ⟨tr, htr, by rw [State.transition?_eq_head?, htr, List.head?_cons]⟩
  endOfStream := ⟨_, catchAllAt t l id node, transitionsAt_eq, rfl,
    fun _ => kind_of_mem_narrow_exits, fun _ => matching_of_isEndOfStream⟩
  useful tr htr hkind := by
    rcases List.mem_append.1 htr with htr | htr
    · exact exists_tag_of_mem_narrow_exits hl ht hnode htr
    · rw [List.mem_singleton.1 htr] at hkind
      exact absurd rfl hkind

lemma matching_resetState (s : Symbol) : resetState.matching s = resetState.transitions := by
  cases hs : s.isEndOfStream <;>
    simp [State.matching, resetState, Transition.accepts, hs, Criterion.accepts]

lemma isTotal_resetState : resetState.IsTotal where
  unique s := ⟨_, matching_resetState s, by
    rw [State.transition?_eq_head?, matching_resetState]
    rfl⟩
  endOfStream := ⟨[], _, rfl, rfl, by simp, fun s _ => matching_resetState s⟩
  useful tr htr hkind := by
    rw [List.mem_singleton.1 htr] at hkind
    exact absurd rfl hkind

/-- **Totality.**  Every state of a compiled lexicon, be it in reach or not, has exactly one
transition for every symbol.  At the end of the stream it is the last one, which alone catches all,
and none of the others is idle. -/
theorem state_isTotal {l : Lexicon} (hl : l.Accepted) {id : StateId} {state : State}
    (h : l.compile.state? id = some state) : state.IsTotal := by
  rcases exists_stateFor_of_state? h with ⟨nodeId, node, _, hnode, rfl⟩ | rfl
  · exact isTotal_stateFor hl (Trie.fits_ofLexicon l) hnode
  · exact isTotal_resetState

/-- A lexicon in which a loop, an inverted element and a plain one compete for the same symbols. -/
def competing : Lexicon :=
  { mode := .character
    defaultLexeme := { kind := "text", items := [], fullMatch := .input, partialMatch? := none }
    patternLexemes :=
      [{ kind := "run"
         items := [.element { symbol := "a", repeats := true },
           .element { symbol := "b", inverted := true }]
         fullMatch := .concat
         partialMatch? := none },
       { kind := "pair"
         items := [.element { symbol := "a" }, .element { symbol := "a" }]
         fullMatch := .collect
         partialMatch? := none }] }

lemma accepted_competing : competing.Accepted :=
  ⟨(((Draft.new .character).withDefault { kind := "text" }).withLexeme
      { kind := "run"
        pattern? := some (.sequence [.element { symbol := "a", repeats := true },
          .element { symbol := "b", inverted := true }])
        fullMatch := .concat }).withLexeme
      { kind := "pair"
        pattern? := some (.literal "aa")
        fullMatch := .collect },
    .withLexeme _ (.withLexeme _ (.withDefault _ (.new _))), by rfl⟩

/-- After an `a` the loop comes first, the inverted element gets what is left but for `b`, and the
second `a` of the pair is never reached. -/
def afterA : State :=
  { name := "a"
    isInitial := false
    isReset := false
    transitions :=
      [{ kind := .loop, criterion := .exact "a", target := 1, accept? := none, replay := false },
       { kind := .child, criterion := .excluding ["b", "a"], target := 2,
         accept? := some (.fullMatch 1), replay := false },
       { kind := .catchAll, criterion := .exact "b", target := 2,
         accept? := some (.partialMatch 0), replay := true }] }

theorem state_isTotal_competing :
    competing.Accepted ∧ competing.compile.state? 1 = some afterA ∧ afterA.IsTotal := by
  have h : competing.compile.state? 1 = some afterA := by decide +kernel
  exact ⟨accepted_competing, h, state_isTotal accepted_competing h⟩

end StateTable

end Lexing
