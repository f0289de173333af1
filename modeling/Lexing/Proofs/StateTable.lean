import Lexing.Proofs.Trie
import Lexing.StateTable.Compile
import Mathlib.Data.List.Basic

/-!
# The numbering of states

A node from which a match can go on is *live* and becomes a state.  `stateOf` numbers the live nodes
in order, the root first; every other node, a leaf in particular, gets the number of the reset
state.  So the number tells all there is to know about the kind of a state:
`stateOf_lt_length_iff`, `stateOf_eq_zero_iff` and `state?_stateOf` are what later proofs use.
-/

namespace Lexing.StateTable

variable {t : Trie} {l : Lexicon} {id id' : NodeId}

/-! ## Live nodes -/

lemma mem_liveNodes :
    id ∈ liveNodes t ↔ id < t.size ∧ (id = Trie.rootId ∨ t.isLeaf id = false) := by
  simp [liveNodes]

lemma rootId_mem_liveNodes (h : 0 < t.size) : Trie.rootId ∈ liveNodes t :=
  mem_liveNodes.2 ⟨h, .inl rfl⟩

lemma exists_node?_of_mem_liveNodes (h : id ∈ liveNodes t) : ∃ node, t.node? id = some node := by
  have hlt : id < t.nodes.size := (mem_liveNodes.1 h).1
  exact ⟨t.nodes[id], Array.getElem?_eq_getElem hlt⟩

/-! ## Numbers of states -/

lemma stateOf_lt_length_iff : stateOf (liveNodes t) id < (liveNodes t).length ↔ id ∈ liveNodes t :=
  List.idxOf_lt_length_iff

lemma stateOf_eq_length (h : id ∉ liveNodes t) :
    stateOf (liveNodes t) id = (liveNodes t).length :=
  List.idxOf_eq_length h

/-- The root is the first live node. -/
lemma stateOf_rootId (h : 0 < t.size) : stateOf (liveNodes t) Trie.rootId = 0 := by
  obtain ⟨n, hn⟩ := Nat.exists_eq_succ_of_ne_zero (Nat.ne_of_gt h)
  rw [stateOf, liveNodes, hn, List.range_succ_eq_map,
    List.filter_cons_of_pos (by simp [Trie.rootId])]
  exact List.idxOf_cons_self

lemma stateOf_inj (h : id ∈ liveNodes t) :
    stateOf (liveNodes t) id = stateOf (liveNodes t) id' ↔ id = id' :=
  List.idxOf_inj h

lemma stateOf_eq_zero_iff (h : id ∈ liveNodes t) :
    stateOf (liveNodes t) id = 0 ↔ id = Trie.rootId := by
  rw [← stateOf_rootId (Nat.zero_lt_of_lt (mem_liveNodes.1 h).1), stateOf_inj h]

/-! ## States by number -/

lemma mem_zipIdx_iff {table : StateTable} {state : State} {i : StateId} :
    (state, i) ∈ table.states.toList.zipIdx ↔ table.state? i = some state := by
  rw [List.mk_mem_zipIdx_iff_getElem?, Array.getElem?_toList, state?]

/-- The state that a live node becomes. -/
def stateFor (t : Trie) (l : Lexicon) (id : NodeId) (node : Node) : State :=
  { name := node.name
    isInitial := id == Trie.rootId
    isReset := false
    transitions := transitionsAt t l (liveNodes t) id node }

@[simp] lemma name_stateFor {node : Node} : (stateFor t l id node).name = node.name :=
  rfl

@[simp] lemma isInitial_stateFor {node : Node} :
    (stateFor t l id node).isInitial = (id == Trie.rootId) :=
  rfl

lemma stateAt_eq_some {node : Node} (h : t.node? id = some node) :
    stateAt t l (liveNodes t) id = some (stateFor t l id node) := by
  rw [stateAt, h]
  rfl

/-- Every live node becomes a state, so the states are numbered as the nodes are. -/
lemma filterMap_stateAt : (liveNodes t).filterMap (stateAt t l (liveNodes t)) =
    (liveNodes t).map fun id => (stateAt t l (liveNodes t) id).getD default := by
  rw [← List.filterMap_eq_map']
  refine List.filterMap_congr fun id hid => ?_
  obtain ⟨node, hnode⟩ := exists_node?_of_mem_liveNodes hid
  rw [stateAt_eq_some hnode, Option.getD_some]

lemma states_ofTrie : (ofTrie t l).states.toList =
    (liveNodes t).map (fun id => (stateAt t l (liveNodes t) id).getD default) ++ [resetState] := by
  rw [← filterMap_stateAt]
  rfl

lemma state?_stateOf {node : Node} (h : id ∈ liveNodes t) (hnode : t.node? id = some node) :
    (ofTrie t l).state? (stateOf (liveNodes t) id) = some (stateFor t l id node) := by
  have hlt := stateOf_lt_length_iff.2 h
  rw [state?, ← Array.getElem?_toList, states_ofTrie,
    List.getElem?_append_left (by simpa using hlt), List.getElem?_map, stateOf,
    List.getElem?_idxOf h, Option.map_some, stateAt_eq_some hnode, Option.getD_some]

lemma state?_length : (ofTrie t l).state? (liveNodes t).length = some resetState := by
  rw [state?, ← Array.getElem?_toList, states_ofTrie, List.getElem?_append_right (by simp)]
  simp

/-- A state of the table is that of a live node, or the reset state. -/
lemma exists_stateFor_of_state? {i : StateId} {state : State}
    (h : (ofTrie t l).state? i = some state) :
    (∃ id node, id ∈ liveNodes t ∧ t.node? id = some node ∧ state = stateFor t l id node) ∨
      state = resetState := by
  rw [state?, ← Array.getElem?_toList, states_ofTrie] at h
  rcases List.mem_append.1 (List.mem_of_getElem? h) with hmem | hmem
  · obtain ⟨id, hid, rfl⟩ := List.mem_map.1 hmem
    obtain ⟨node, hnode⟩ := exists_node?_of_mem_liveNodes hid
    exact .inl ⟨id, node, hid, hnode, by rw [stateAt_eq_some hnode, Option.getD_some]⟩
  · exact .inr (List.mem_singleton.1 hmem)

end Lexing.StateTable
