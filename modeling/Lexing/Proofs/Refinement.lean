import Lexing.Proofs.Totality
import Lexing.Proofs.Walker

/-!
# Flattening preserves meaning

An automaton on the table of a lexicon does, step by step, what a walker does on the trie of the
lexicon: the same signals, the same tokens (`StateTable.outcomes_compile`).  The two have different
state spaces.  Leaves are no states, states are numbered apart from nodes, and transitions are
narrowed, so that some edges are not among them at all.

The proof turns on two facts.  The state of a walker determines that of the automaton
(`Walker.automaton`), and on a walker that stands at a live node and has a history exactly if that
node is not the root (`Walker.Sound`), one step of the automaton is the image of one step of the
walker (`step_automaton`).
-/

namespace Lexing

open StateTable

variable {t : Trie} {l : Lexicon} {id next : NodeId} {node : Node} {tag : Tag} {s : Symbol}

/-! ## Where a match goes on -/

namespace Trie

lemma exists_of_admits (h : t.admits id tag = true) :
    ∃ node link, t.node? id = some node ∧ node.link? = some link := by
  rw [admits, Option.any_eq_true] at h
  obtain ⟨link, hlink, _⟩ := h
  obtain ⟨node, hnode, hlink⟩ := Option.bind_eq_some_iff.1 hlink
  exact ⟨node, link, hnode, hlink⟩

lemma admits_of_successor? (h : t.successor? id tag = some next) : t.admits next tag = true := by
  unfold successor? at h
  split at h
  · rename_i hstay
    cases h
    exact (Bool.and_eq_true_iff.1 hstay).2
  · simpa using List.find?_some h

/-- No match goes back to the root without ending. -/
lemma ne_rootId_of_admits (ht : t.Fits l) (h : t.admits id tag = true) : id ≠ rootId := by
  obtain ⟨node, link, hnode, hlink⟩ := exists_of_admits h
  intro hroot
  rw [(ht.node id node hnode).link?_eq_none_iff.2 hroot] at hlink
  cases hlink

lemma mem_liveNodes_iff_of_admits (ht : t.Fits l) (h : t.admits id tag = true) :
    id ∈ liveNodes t ↔ t.isLeaf id = false := by
  obtain ⟨node, _, hnode, _⟩ := exists_of_admits h
  have hlt : id < t.size := (Array.getElem?_eq_some_iff.1 hnode).1
  simp [mem_liveNodes, hlt, ne_rootId_of_admits ht h]

end Trie

namespace StateTable

/-! ## Exits and successors -/

/-- The exit leads to a node: to its state, or to the reset state with the verdict of the node if
it has none. -/
def Exit.LeadsTo (exit : Exit) (t : Trie) (l : Lexicon) (next : NodeId) : Prop :=
  ∃ node, t.node? next = some node ∧ exit.target = stateOf (liveNodes t) next ∧
    exit.accept? = if next ∈ liveNodes t then none else some (acceptAt l node)

/-- The exit to a child that is reached along an edge. -/
def exitTo (l : Lexicon) (live : List NodeId) (id : NodeId) (node : Node) (edge : Edge) : Exit :=
  { kind := .child
    edge
    target := stateOf live id
    accept? := if id ∈ live then none else some (acceptAt l node) }

lemma childExit_eq_some (live : List NodeId) {link : Link} (hnode : t.node? id = some node)
    (hlink : node.link? = some link) :
    childExit t l live id = some (exitTo l live id node link.edge) := by
  simp [childExit, exitTo, hnode, hlink]

lemma any_childExit (live : List NodeId) :
    (childExit t l live id).any (·.edge.accepts tag) = t.admits id tag := by
  unfold Trie.admits
  cases hnode : t.node? id with
  | none => simp [childExit, hnode]
  | some node =>
    cases hlink : node.link? with
    | none => simp [childExit, hnode, hlink]
    | some link => simp [childExit_eq_some live hnode hlink, exitTo, hlink]

/-- The way back to a node is the first exit, if it is one and the edge to the node accepts. -/
lemma find?_loopExit (live : List NodeId) (hnode : t.node? id = some node) (tag : Tag) :
    (t.repeatsAt id && t.admits id tag) = true ∧
        (∃ exit, (loopExit live id node).find? (·.edge.accepts tag) = some exit ∧
          exit.target = stateOf live id ∧ exit.accept? = none) ∨
      (t.repeatsAt id && t.admits id tag) = false ∧
        (loopExit live id node).find? (·.edge.accepts tag) = none := by
  unfold loopExit Trie.repeatsAt Trie.admits
  cases hlink : node.link? with
  | none => simp [hnode, hlink]
  | some link =>
    cases hrepeats : node.repeats with
    | false => simp [hnode, hrepeats]
    | true =>
      cases haccepts : link.edge.accepts tag with
      | false => simp [hnode, hlink, hrepeats, haccepts]
      | true => simp [hnode, hlink, hrepeats, haccepts]

/-- The first exit that accepts a tag leads where a match goes on. -/
lemma exists_exit_of_successor? (hlive : id ∈ liveNodes t) (hnode : t.node? id = some node)
    (h : t.successor? id tag = some next) :
    ∃ exit, (exits t l (liveNodes t) id node).find? (·.edge.accepts tag) = some exit ∧
      exit.LeadsTo t l next := by
  unfold Trie.successor? at h
  rw [exits, List.find?_append]
  rcases find?_loopExit (liveNodes t) hnode tag with
    ⟨hstay, exit, hfind, htarget, haccept⟩ | ⟨hstay, hfind⟩
  · rw [hstay, if_pos rfl] at h
    cases h
    refine ⟨exit, by rw [hfind, Option.some_or], node, hnode, htarget, ?_⟩
    rw [haccept, if_pos hlive]
  · rw [hstay, if_neg (by simp)] at h
    have hadmits : t.admits next tag = true := by simpa using List.find?_some h
    obtain ⟨child, link, hchild, hlink⟩ := Trie.exists_of_admits hadmits
    refine ⟨exitTo l (liveNodes t) next child link.edge, ?_, child, hchild, rfl, rfl⟩
    rw [hfind, Option.none_or, List.find?_filterMap]
    simp only [any_childExit, h, Option.bind_some]
    exact childExit_eq_some (liveNodes t) hchild hlink

/-- If a match does not go on, no exit accepts the tag. -/
lemma find?_exits_of_successor?_eq_none (hnode : t.node? id = some node)
    (h : t.successor? id tag = none) :
    (exits t l (liveNodes t) id node).find? (·.edge.accepts tag) = none := by
  unfold Trie.successor? at h
  rw [exits, List.find?_append]
  rcases find?_loopExit (liveNodes t) hnode tag with ⟨hstay, _⟩ | ⟨hstay, hfind⟩
  · rw [hstay, if_pos rfl] at h
    cases h
  · rw [hstay, if_neg (by simp)] at h
    simp [hfind, any_childExit, h]

/-! ## Transitions and successors -/

/-- Where a match goes on there is one transition, which consumes the symbol. -/
lemma exists_transition?_of_successor? (hs : s.isEndOfStream = false) (hlive : id ∈ liveNodes t)
    (hnode : t.node? id = some node) (h : t.successor? id s.tag = some next) :
    ∃ tr child, (stateFor t l id node).transition? s = some tr ∧ t.node? next = some child ∧
      tr.target = stateOf (liveNodes t) next ∧ tr.replay = false ∧
      tr.accept? = if next ∈ liveNodes t then none else some (acceptAt l child) := by
  obtain ⟨exit, hfind, child, hchild, htarget, haccept⟩ :=
    exists_exit_of_successor? (l := l) hlive hnode h
  obtain ⟨tr, htr, left, rfl⟩ := matching_of_find?_eq_some hs hfind
  refine ⟨exit.limitedTo left, child, ?_, hchild, htarget, rfl, haccept⟩
  rw [State.transition?_eq_head?, htr, List.head?_cons]

/-- Where a match does not go on the catch-all transition is taken. -/
lemma transition?_of_successor?_eq_none (hs : s.isEndOfStream = false)
    (hnode : t.node? id = some node) (h : t.successor? id s.tag = none) :
    (stateFor t l id node).transition? s = some (catchAllAt t l id node) := by
  rw [State.transition?_eq_head?,
    matching_of_find?_eq_none hs (find?_exits_of_successor?_eq_none hnode h), List.head?_cons]

lemma transition?_of_isEndOfStream (hs : s.isEndOfStream = true) :
    (stateFor t l id node).transition? s = some (catchAllAt t l id node) := by
  rw [State.transition?_eq_head?, matching_of_isEndOfStream hs, List.head?_cons]

@[simp] lemma replay_catchAllAt : (catchAllAt t l id node).replay = (id != Trie.rootId) :=
  rfl

lemma accept?_catchAllAt (h : id ≠ Trie.rootId) :
    (catchAllAt t l id node).accept? = some (acceptAt l node) := by
  simp [catchAllAt, catchAll, h]

lemma accept?_catchAllAt_rootId :
    (catchAllAt t l Trie.rootId node).accept? = some (.fullMatch defaultId) := by
  simp [catchAllAt, catchAll]

/-! ## Accept actions and verdicts -/

/-- An accept action makes the token that the verdict of the lexeme makes. -/
lemma emit_eq_ok {accept : Accept} {lexeme : Lexeme} {name : String} {history : History}
    {token : Token} (hlexeme : l.lexeme? accept.lexeme = some lexeme)
    (h : Verdict.token? ⟨lexeme.kind, attributeOf accept lexeme⟩ history = some token) :
    (ofTrie t l).emit accept name history = .ok token := by
  have hlookup : (ofTrie t l).lexeme? accept.lexeme = some lexeme := hlexeme
  obtain ⟨first, last, hfirst, hlast, rfl⟩ := Verdict.exists_of_token? h
  simp [emit, hlookup, hfirst, hlast]

/-- The lexeme of the accept action at a node is there, and gives the verdict of the node. -/
lemma exists_lexeme?_acceptAt (ht : t.Fits l) (hnode : t.node? id = some node) :
    ∃ lexeme, l.lexeme? (acceptAt l node).lexeme = some lexeme ∧
      t.verdictAt l id = ⟨lexeme.kind, attributeOf (acceptAt l node) lexeme⟩ := by
  unfold acceptAt Trie.verdictAt
  cases hfull : node.fullMatch? with
  | some full =>
    obtain ⟨lexeme, hlexeme⟩ :=
      Lexicon.exists_lexeme?_of_lt ((ht.node id node hnode).fullMatch full hfull)
    refine ⟨lexeme, hlexeme, ?_⟩
    simp [hnode, hfull, hlexeme, Lexeme.fullVerdict, attributeOf]
  | none =>
    unfold partialOwner
    cases howner : l.lexeme? node.owner with
    | none =>
      refine ⟨l.defaultLexeme, by simp [Accept.lexeme], ?_⟩
      simp [hnode, hfull, howner, Lexeme.partialVerdict, attributeOf]
    | some owner =>
      cases hpartial : owner.partialMatch? with
      | none =>
        refine ⟨l.defaultLexeme, by simp [Accept.lexeme, hpartial], ?_⟩
        simp [hnode, hfull, howner, hpartial, Lexeme.ownPartialVerdict?, Lexeme.partialVerdict,
          attributeOf]
      | some rule =>
        refine ⟨owner, by simp [Accept.lexeme, hpartial, howner], ?_⟩
        simp [hnode, hfull, howner, hpartial, Lexeme.ownPartialVerdict?, attributeOf,
          Lexeme.partialMatch]

/-- A match that ends at a node has a token, and the accept action at the node makes the same. -/
lemma exists_token?_acceptAt (ht : t.Fits l) (hnode : t.node? id = some node) {history : History}
    (h : history.isEmpty = false) :
    ∃ lexeme token, l.lexeme? (acceptAt l node).lexeme = some lexeme ∧
      (t.verdictAt l id).token? history = some token ∧
      Verdict.token? ⟨lexeme.kind, attributeOf (acceptAt l node) lexeme⟩ history = some token := by
  obtain ⟨lexeme, hlexeme, hverdict⟩ := exists_lexeme?_acceptAt ht hnode
  obtain ⟨token, htoken⟩ := (t.verdictAt l id).exists_token? h
  refine ⟨lexeme, token, hlexeme, htoken, ?_⟩
  rw [← hverdict]
  exact htoken

end StateTable

/-! ## Steps of an automaton -/

namespace Automaton

variable {a : Automaton} {state target : State} {tr : Transition} {accept : Accept} {token : Token}

lemma step_eq_self (hstate : a.table.state? a.current = some state)
    (hs : s.isEndOfStream = true) (hinit : state.isInitial = true) :
    a.step s = .ok { token? := none, signal := .goOn, automaton := a } := by
  simp [step, hstate, hs, hinit]

lemma step_eq_follow (hstate : a.table.state? a.current = some state)
    (hs : (s.isEndOfStream && state.isInitial) = false) (htr : state.transition? s = some tr)
    (htarget : a.table.state? tr.target = some target) :
    a.step s = a.follow state.name tr s := by
  simp [step, hstate, hs, htr, htarget]

lemma follow_of_goOn {name : String} (haccept : tr.accept? = none) (hreplay : tr.replay = false) :
    a.follow name tr s =
      .ok { token? := none, signal := .goOn, automaton := a.consume name s tr.target } := by
  simp [follow, haccept, hreplay]

lemma follow_of_spent {name : String} (haccept : tr.accept? = some accept)
    (hreplay : tr.replay = false)
    (htoken : a.table.emit accept name (a.history.push name s) = .ok token) :
    a.follow name tr s = .ok { token? := some token, signal := .reset, automaton := a.reset } := by
  simp [follow, haccept, hreplay, htoken]

lemma follow_of_resolved {name : String} (haccept : tr.accept? = some accept)
    (hreplay : tr.replay = true) (htoken : a.table.emit accept name a.history = .ok token) :
    a.follow name tr s =
      .ok
        { token? := some token
          signal := if s.isEndOfStream then .reset else .replay
          automaton := a.reset } := by
  simp [follow, haccept, hreplay, htoken]

end Automaton

/-! ## Walkers and automata -/

namespace Walker

variable {w : Walker}

/-- The automaton that is where the walker is. -/
def automaton (t : Trie) (l : Lexicon) (w : Walker) : Automaton :=
  { table := ofTrie t l
    current := stateOf (liveNodes t) w.node
    history := w.history }

/-- The step of an automaton that shows what a step of a walker shows. -/
def image (t : Trie) (l : Lexicon) (r : Outcome × Walker) : Step :=
  { token? := r.1.token?, signal := r.1.signal, automaton := r.2.automaton t l }

/-- The walker stands where a match can go on, and it has symbols unless that is the root. -/
structure Sound (t : Trie) (w : Walker) : Prop where
  live : w.node ∈ liveNodes t
  isEmpty_iff : w.history.isEmpty = true ↔ w.node = Trie.rootId

lemma sound_start (ht : t.Fits l) : start.Sound t where
  live := rootId_mem_liveNodes ht.size_pos
  isEmpty_iff := by simp [start, History.empty, History.isEmpty]

lemma automaton_start (ht : t.Fits l) : start.automaton t l = .new (ofTrie t l) := by
  simp only [automaton, start, stateOf_rootId ht.size_pos]
  rfl

lemma reset_automaton (ht : t.Fits l) : (w.automaton t l).reset = start.automaton t l :=
  (automaton_start ht).symm

/-- Wherever a walker goes from a sound place is sound. -/
lemma Sound.step (ht : t.Fits l) (hw : w.Sound t) (s : Symbol) : (w.step t l s).2.Sound t := by
  have hsteps := w.steps_step t l s
  generalize w.step t l s = r at hsteps ⊢
  cases hsteps with
  | rests => exact hw
  | completes => exact sound_start ht
  | passes => exact sound_start ht
  | stalls => exact sound_start ht
  | goesOn _ hnext hleaf =>
    have hadmits := Trie.admits_of_successor? hnext
    exact
      { live := (Trie.mem_liveNodes_iff_of_admits ht hadmits).2 hleaf
        isEmpty_iff := by simpa using Trie.ne_rootId_of_admits ht hadmits }

lemma Sound.isEmpty_eq_false (hw : w.Sound t) (hroot : w.node ≠ Trie.rootId) :
    w.history.isEmpty = false := by
  rw [Bool.eq_false_iff, Ne, hw.isEmpty_iff]
  exact hroot

lemma Sound.history_eq_empty (hw : w.Sound t) (hroot : w.node = Trie.rootId) :
    w.history = .empty := by
  have hempty := hw.isEmpty_iff.2 hroot
  rw [History.isEmpty, List.isEmpty_iff] at hempty
  rw [History.empty, ← hempty]

/-! ## One step -/

lemma state?_automaton {node : Node} (hw : w.Sound t) (hnode : t.node? w.node = some node) :
    (w.automaton t l).table.state? (w.automaton t l).current = some (stateFor t l w.node node) :=
  state?_stateOf hw.live hnode

/-- A match in progress has a token, which the accept action at its node makes. -/
lemma Sound.exists_token (ht : t.Fits l) (hw : w.Sound t) {node : Node}
    (hnode : t.node? w.node = some node) (hroot : w.node ≠ Trie.rootId) :
    ∃ token, (t.verdictAt l w.node).token? w.history = some token ∧
      (ofTrie t l).emit (acceptAt l node) node.name w.history = .ok token := by
  obtain ⟨lexeme, token, hlexeme, htoken, haccept⟩ :=
    exists_token?_acceptAt ht hnode (hw.isEmpty_eq_false hroot)
  exact ⟨token, htoken, emit_eq_ok hlexeme haccept⟩

/-- At the end of the stream both do nothing at the start and end the match elsewhere. -/
lemma step_automaton_of_isEndOfStream (ht : t.Fits l) (hw : w.Sound t)
    (hs : s.isEndOfStream = true) :
    (w.automaton t l).step s = .ok (image t l (w.step t l s)) := by
  obtain ⟨node, hnode⟩ := exists_node?_of_mem_liveNodes hw.live
  have hstate := state?_automaton (l := l) hw hnode
  by_cases hroot : w.node = Trie.rootId
  · have hinit : (stateFor t l w.node node).isInitial = true := by simp [hroot]
    rw [Automaton.step_eq_self hstate hs hinit]
    simp [Walker.step, hs, hroot, image]
  · have hgoes : (s.isEndOfStream && (stateFor t l w.node node).isInitial) = false := by
      simp [hroot]
    have hreplay : (catchAllAt t l w.node node).replay = true := by simp [hroot]
    obtain ⟨token, htoken, hemit⟩ := hw.exists_token ht hnode hroot
    rw [Automaton.step_eq_follow hstate hgoes (transition?_of_isEndOfStream hs) state?_length,
      Automaton.follow_of_resolved (accept?_catchAllAt hroot) hreplay hemit, reset_automaton ht]
    simp [Walker.step, hs, hroot, image, htoken]

/-- Where the trie leads on, both consume the symbol, and end the match if it leads to a leaf. -/
lemma step_automaton_of_successor? (ht : t.Fits l) (hw : w.Sound t)
    (hs : s.isEndOfStream = false) (h : t.successor? w.node s.tag = some next) :
    (w.automaton t l).step s = .ok (image t l (w.step t l s)) := by
  obtain ⟨node, hnode⟩ := exists_node?_of_mem_liveNodes hw.live
  obtain ⟨tr, child, htr, hchild, htarget, hreplay, haccept⟩ :=
    exists_transition?_of_successor? (l := l) hs hw.live hnode h
  have hstate := state?_automaton (l := l) hw hnode
  have hgoes : (s.isEndOfStream && (stateFor t l w.node node).isInitial) = false := by simp [hs]
  have hname : t.nameAt w.node = node.name := by simp [Trie.nameAt, hnode]
  have hleaf := Trie.mem_liveNodes_iff_of_admits ht (Trie.admits_of_successor? h)
  by_cases hlive : next ∈ liveNodes t
  · rw [if_pos hlive] at haccept
    have hnext : (ofTrie t l).state? tr.target = some (stateFor t l next child) := by
      rw [htarget]
      exact state?_stateOf hlive hchild
    rw [Automaton.step_eq_follow hstate hgoes htr hnext, Automaton.follow_of_goOn haccept hreplay]
    simp [Walker.step, hs, h, hleaf.1 hlive, image, automaton, Automaton.consume, htarget, hname]
  · rw [if_neg hlive] at haccept
    have hnext : (ofTrie t l).state? tr.target = some resetState := by
      rw [htarget, stateOf_eq_length hlive]
      exact state?_length
    have hends : t.isLeaf next = true := by simpa [hlive] using hleaf
    obtain ⟨lexeme, token, hlexeme, htoken, hmade⟩ :=
      exists_token?_acceptAt ht hchild (History.isEmpty_push w.history node.name s)
    have hemit : (ofTrie t l).emit (acceptAt l child) node.name (w.history.push node.name s) =
        .ok token := emit_eq_ok hlexeme hmade
    rw [Automaton.step_eq_follow hstate hgoes htr hnext,
      Automaton.follow_of_spent haccept hreplay hemit, reset_automaton ht]
    simp [Walker.step, hs, h, hends, image, htoken, hname]

/-- Where the trie leads nowhere, both end the match, or make a token of the symbol. -/
lemma step_automaton_of_successor?_eq_none (ht : t.Fits l) (hw : w.Sound t)
    (hs : s.isEndOfStream = false) (h : t.successor? w.node s.tag = none) :
    (w.automaton t l).step s = .ok (image t l (w.step t l s)) := by
  obtain ⟨node, hnode⟩ := exists_node?_of_mem_liveNodes hw.live
  have hstate := state?_automaton (l := l) hw hnode
  have hgoes : (s.isEndOfStream && (stateFor t l w.node node).isInitial) = false := by simp [hs]
  have htr := transition?_of_successor?_eq_none (l := l) hs hnode h
  by_cases hroot : w.node = Trie.rootId
  · have hname : t.nameAt Trie.rootId = node.name := by simp [Trie.nameAt, ← hroot, hnode]
    have hreplay : (catchAllAt t l w.node node).replay = false := by simp [hroot]
    have haccept : (catchAllAt t l w.node node).accept? = some (.fullMatch defaultId) := by
      rw [hroot]
      exact accept?_catchAllAt_rootId
    obtain ⟨token, htoken⟩ := l.defaultLexeme.fullVerdict.exists_token?
      (History.isEmpty_push .empty node.name s)
    have hemit : (ofTrie t l).emit (.fullMatch defaultId) node.name (w.history.push node.name s) =
        .ok token := by
      rw [hw.history_eq_empty hroot]
      exact emit_eq_ok l.lexeme?_defaultId htoken
    rw [Automaton.step_eq_follow hstate hgoes htr state?_length,
      Automaton.follow_of_spent haccept hreplay hemit, reset_automaton ht]
    rw [hroot] at h
    simp [Walker.step, hs, h, hroot, image, htoken, hname]
  · have hreplay : (catchAllAt t l w.node node).replay = true := by simp [hroot]
    obtain ⟨token, htoken, hemit⟩ := hw.exists_token ht hnode hroot
    rw [Automaton.step_eq_follow hstate hgoes htr state?_length,
      Automaton.follow_of_resolved (accept?_catchAllAt hroot) hreplay hemit, reset_automaton ht]
    simp [Walker.step, hs, h, hroot, image, htoken]

/-- **One step.**  On the state of a sound walker an automaton does what the walker does. -/
theorem step_automaton (ht : t.Fits l) (hw : w.Sound t) (s : Symbol) :
    (w.automaton t l).step s = .ok (image t l (w.step t l s)) := by
  cases hs : s.isEndOfStream with
  | true => exact step_automaton_of_isEndOfStream ht hw hs
  | false =>
    cases h : t.successor? w.node s.tag with
    | none => exact step_automaton_of_successor?_eq_none ht hw hs h
    | some next => exact step_automaton_of_successor? ht hw hs h

end Walker

/-! ## Runs -/

/-- What is seen while symbols are presented to an automaton one after the other. -/
def Automaton.outcomes (a : Automaton) : List Symbol → Except AutomatonError (List Outcome)
  | [] => .ok []
  | s :: ss =>
    match a.step s with
    | .error fault => .error fault
    | .ok r =>
      match r.automaton.outcomes ss with
      | .error fault => .error fault
      | .ok rest => .ok ({ token? := r.token?, signal := r.signal } :: rest)

lemma Walker.outcomes_automaton (ht : t.Fits l) {w : Walker} (hw : w.Sound t) (ss : List Symbol) :
    (w.automaton t l).outcomes ss = .ok (w.outcomes t l ss) := by
  induction ss generalizing w with
  | nil => rfl
  | cons s ss ih =>
    have hstep := step_automaton ht hw s
    have hrest : (image t l (w.step t l s)).automaton.outcomes ss =
        .ok ((w.step t l s).2.outcomes t l ss) := ih (hw.step ht s)
    simp only [Automaton.outcomes, hstep, hrest, Walker.outcomes]
    rfl

/-- **Flattening preserves meaning.**  Whatever symbols are presented, the end of the stream among
them or not, an automaton on the table of a lexicon shows the signals and tokens that a walker on
its trie shows. -/
theorem StateTable.outcomes_compile (l : Lexicon) (ss : List Symbol) :
    (Automaton.new l.compile).outcomes ss =
      .ok (Walker.start.outcomes (.ofLexicon l) l ss) := by
  have ht := Trie.fits_ofLexicon l
  rw [Lexicon.compile, ← Walker.automaton_start ht]
  exact Walker.outcomes_automaton ht (Walker.sound_start ht) ss

end Lexing
