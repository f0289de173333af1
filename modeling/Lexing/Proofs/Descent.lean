import Lexing.Proofs.Safety
import Lexing.Proofs.Words

/-!
# Descents

Symbols that are read one after the other lead from the root of a trie down to a node, as long as
the match goes on at each of them (`Trie.descend?`).  On the trie of a lexicon each step either
takes the last edge of the node's path once more or goes one edge further (`successor?_cases`), so
what is read on the way to a node spells the path of the node (`exists_spells_of_descend?_rootId`).

The same descents are behind the table: what leads through its states leads down the trie
(`exists_descend?_of_retrace?`), and a walker stands where its history leads
(`Walker.Traced.descend?_eq`).
-/

namespace Lexing

open StateTable

variable {t : Trie} {l : Lexicon} {id next last : NodeId} {start path : List Edge}
  {ss : List Symbol}

/-! ## Nodes of the trie of a lexicon -/

namespace Trie

/-- The node to which symbols lead from a node, if the match goes on at each of them. -/
def descend? (t : Trie) (id : NodeId) (ss : List Symbol) : Option NodeId :=
  ss.foldlM (fun id s => t.successor? id s.tag) id

lemma descend?_append (t : Trie) (id : NodeId) (ss us : List Symbol) :
    t.descend? id (ss ++ us) = (t.descend? id ss).bind (t.descend? · us) := by
  simp [descend?, List.foldlM_append]

lemma descend?_concat (t : Trie) (id : NodeId) (ss : List Symbol) (s : Symbol) :
    t.descend? id (ss ++ [s]) = (t.descend? id ss).bind (t.successor? · s.tag) := by
  simp [descend?, List.foldlM_append]

/-- From a leaf no match goes on. -/
lemma isLeaf_eq_false_of_successor? {tag : Tag} (h : t.successor? id tag = some next) :
    t.isLeaf id = false := by
  unfold successor? at h
  unfold isLeaf
  split at h
  · rename_i hstay
    have hrepeats : t.nodes[id]?.any (·.repeats) = true := (Bool.and_eq_true_iff.1 hstay).1
    simp [hrepeats]
  · have hmem : next ∈ t.children id := List.mem_of_find?_eq_some h
    have hne : (t.children id).isEmpty = false := by
      rw [Bool.eq_false_iff, Ne, List.isEmpty_iff]
      exact List.ne_nil_of_mem hmem
    simp [hne]

lemma admits_of_find? {edge : Edge} (h : (ofLexicon l).find? (path ++ [edge]) = some id)
    (tag : Tag) : (ofLexicon l).admits id tag = edge.accepts tag := by
  obtain ⟨node, parent, hnode, hlink, _⟩ := exists_node_of_find? h
  simp [admits, hnode, hlink]

lemma repeatsAt_iff_of_find? {edge : Edge} (h : (ofLexicon l).find? (path ++ [edge]) = some id) :
    (ofLexicon l).repeatsAt id = true ↔ l.RepeatsAt (path ++ [edge]) := by
  obtain ⟨node, parent, hnode, _, _, hkeeps⟩ := exists_node_of_find? h
  rw [← hkeeps.repeats_iff]
  simp [repeatsAt, hnode]

lemma repeatsAt_rootId (l : Lexicon) : (ofLexicon l).repeatsAt rootId = false := by
  obtain ⟨node, hnode, _, _, hrepeats⟩ := (follows_ofLexicon l).root
  simp [repeatsAt, hnode, hrepeats]

/-- The children of the node of a path are the nodes of the paths that are longer by an edge. -/
lemma mem_children_iff_of_find? (h : (ofLexicon l).find? path = some id) :
    next ∈ (ofLexicon l).children id ↔
      ∃ edge, (ofLexicon l).find? (path ++ [edge]) = some next := by
  have hfollows := follows_ofLexicon l
  have hid := hfollows.find?_eq_some_iff.1 h
  constructor
  · intro hmem
    have hlt : next < (ofLexicon l).size := List.mem_range.1 (List.mem_of_mem_filter hmem)
    have hnode : (ofLexicon l).node? next = some (ofLexicon l).nodes[next] :=
      Array.getElem?_eq_getElem hlt
    obtain ⟨edge, hlink⟩ := (mem_children_iff hnode).1 hmem
    refine ⟨edge, hfollows.find?_eq_some_iff.2 ((hfollows.link?_eq_some_iff hid).1 ?_)⟩
    rw [hnode, Option.bind_some, hlink]
  · rintro ⟨edge, hnext⟩
    obtain ⟨node, parent, hnode, hlink, hparent, _⟩ := exists_node_of_find? hnext
    cases h.symm.trans hparent
    exact (mem_children_iff hnode).2 ⟨edge, hlink⟩

/-! ## Descending along a path -/

/-- A step down from the node of a path takes its last edge once more, or one edge further. -/
lemma successor?_cases (hid : (ofLexicon l).find? start = some id) {tag : Tag}
    (h : (ofLexicon l).successor? id tag = some next) :
    (∃ path edge, start = path ++ [edge] ∧ next = id ∧ l.RepeatsAt start ∧
        edge.accepts tag = true) ∨
      ∃ edge, (ofLexicon l).find? (start ++ [edge]) = some next ∧ edge.accepts tag = true := by
  unfold successor? at h
  split at h
  · rename_i hstay
    cases h
    obtain ⟨hrepeats, hadmits⟩ := Bool.and_eq_true_iff.1 hstay
    rcases List.eq_nil_or_concat' start with rfl | ⟨path, edge, rfl⟩
    · cases hid
      rw [repeatsAt_rootId] at hrepeats
      cases hrepeats
    · rw [admits_of_find? hid] at hadmits
      exact .inl ⟨path, edge, rfl, rfl, (repeatsAt_iff_of_find? hid).1 hrepeats, hadmits⟩
  · obtain ⟨edge, hnext⟩ := (mem_children_iff_of_find? hid).1 (List.mem_of_find?_eq_some h)
    have hadmits : (ofLexicon l).admits next tag = true := by simpa using List.find?_some h
    rw [admits_of_find? hnext] at hadmits
    exact .inr ⟨edge, hnext, hadmits⟩

/-- A descent from the node of a path takes the last edge of the path several times more, perhaps,
and then spells another path. -/
lemma exists_spells_of_descend? (hid : (ofLexicon l).find? start = some id)
    (h : (ofLexicon l).descend? id ss = some last) :
    ∃ stays rest path, ss = stays ++ rest ∧ (ofLexicon l).find? (start ++ path) = some last ∧
      l.Spells start path rest ∧ (stays ≠ [] → l.RepeatsAt start) ∧
      ∀ edge ∈ start.getLast?, ∀ s ∈ stays, edge.accepts s.tag = true := by
  induction ss generalizing start id with
  | nil =>
    cases h
    exact ⟨[], [], [], rfl, by rwa [List.append_nil], .nil, by simp, by simp⟩
  | cons s ss ih =>
    obtain ⟨next, hnext, hrest⟩ := Option.bind_eq_some_iff.1 h
    have hrest : (ofLexicon l).descend? next ss = some last := hrest
    rcases successor?_cases hid hnext with
      ⟨q, e, rfl, rfl, hrepeats, haccepts⟩ | ⟨edge, hchild, haccepts⟩
    · obtain ⟨stays, rest, path, rfl, hlast, hspells, _, hstays⟩ := ih hid hrest
      refine ⟨s :: stays, rest, path, rfl, hlast, hspells, fun _ => hrepeats, ?_⟩
      intro edge hedge
      obtain rfl : e = edge := by simpa using hedge
      exact List.forall_mem_cons.2 ⟨haccepts, hstays e hedge⟩
    · obtain ⟨stays, rest, path, rfl, hlast, hspells, hrepeats, hstays⟩ := ih hchild hrest
      have hrun : (s :: stays).length = 1 ∨ l.RepeatsAt (start ++ [edge]) := by
        by_cases hnil : stays = []
        · exact .inl (by rw [hnil]; rfl)
        · exact .inr (hrepeats hnil)
      have hall : ∀ u ∈ s :: stays, edge.accepts u.tag = true :=
        List.forall_mem_cons.2 ⟨haccepts, hstays edge (by simp)⟩
      refine ⟨[], (s :: stays) ++ rest, edge :: path, rfl, ?_, .cons (by simp) hrun hall hspells,
        by simp, by simp⟩
      rwa [List.append_cons]

/-- What is read on the way down to a node spells the path of the node. -/
lemma exists_spells_of_descend?_rootId (h : (ofLexicon l).descend? rootId ss = some last) :
    ∃ path, (ofLexicon l).find? path = some last ∧ l.Spells [] path ss := by
  have hroot : (ofLexicon l).find? [] = some rootId := rfl
  obtain ⟨stays, rest, path, rfl, hlast, hspells, hrepeats, _⟩ :=
    exists_spells_of_descend? hroot h
  have hstays : stays = [] := by
    by_contra hne
    obtain ⟨i, stop, hvisits, hnil, _⟩ := hrepeats hne
    exact Lexicon.Passes.ne_nil ⟨stop, hvisits, rfl⟩ hnil
  rw [hstays]
  exact ⟨path, hlast, hspells⟩

end Trie

/-- No symbols lead back to the root. -/
lemma Trie.eq_nil_of_descend?_eq_rootId (ht : t.Fits l)
    (h : t.descend? rootId ss = some rootId) : ss = [] := by
  rcases List.eq_nil_or_concat' ss with rfl | ⟨before, s, rfl⟩
  · rfl
  · rw [descend?_concat] at h
    obtain ⟨id, _, hnext⟩ := Option.bind_eq_some_iff.1 h
    exact absurd rfl (ne_rootId_of_admits ht (admits_of_successor? hnext))

/-! ## Descending and retracing -/

namespace StateTable

/-- A state has the catch-all transition on a symbol, or one to where the trie goes on. -/
lemma transition?_cases {node : Node} {s : Symbol} {tr : Transition} (hlive : id ∈ liveNodes t)
    (hnode : t.node? id = some node) (h : (stateFor t l id node).transition? s = some tr) :
    tr = catchAllAt t l id node ∨
      ∃ next child, t.successor? id s.tag = some next ∧ t.node? next = some child ∧
        tr.target = stateOf (liveNodes t) next ∧ tr.replay = false ∧
        tr.accept? = if next ∈ liveNodes t then none else some (acceptAt l child) := by
  cases hs : s.isEndOfStream with
  | true => exact .inl (Option.some.inj (h.symm.trans (transition?_of_isEndOfStream hs)))
  | false =>
    cases hnext : t.successor? id s.tag with
    | none =>
      have hlast := transition?_of_successor?_eq_none (l := l) hs hnode hnext
      exact .inl (Option.some.inj (h.symm.trans hlast))
    | some next =>
      obtain ⟨tr', child, htr, hchild, htarget, hreplay, haccept⟩ :=
        exists_transition?_of_successor? (l := l) hs hlive hnode hnext
      cases h.symm.trans htr
      exact .inr ⟨next, child, rfl, hchild, htarget, hreplay, haccept⟩

/-- The catch-all transition accepts what the node does, or at the root the symbol itself. -/
lemma accept_catchAllAt_cases {node : Node} {accept : Accept}
    (h : (catchAllAt t l id node).accept? = some accept) :
    id = Trie.rootId ∧ accept = .fullMatch defaultId ∨
      id ≠ Trie.rootId ∧ accept = acceptAt l node := by
  by_cases hroot : id = Trie.rootId
  · refine .inl ⟨hroot, ?_⟩
    rw [hroot, accept?_catchAllAt_rootId] at h
    exact (Option.some.inj h).symm
  · refine .inr ⟨hroot, ?_⟩
    rw [accept?_catchAllAt hroot] at h
    exact (Option.some.inj h).symm

/-- The table goes on only where the trie does: the catch-all transition ends every match. -/
lemma exists_successor?_of_goOn? {history : History} {s : Symbol}
    {place : History × StateId} (hlive : id ∈ liveNodes t)
    (h : (ofTrie t l).goOn? (history, stateOf (liveNodes t) id) s = some place) :
    ∃ next ∈ liveNodes t, t.successor? id s.tag = some next ∧
      place.2 = stateOf (liveNodes t) next := by
  obtain ⟨node, hnode⟩ := exists_node?_of_mem_liveNodes hlive
  simp only [goOn?, state?_stateOf hlive hnode, Option.bind_eq_bind, Option.bind_some] at h
  obtain ⟨tr, htr, h⟩ := Option.bind_eq_some_iff.1 h
  split at h
  · rename_i hgo
    cases h
    rcases transition?_cases hlive hnode htr with
      rfl | ⟨next, child, hnext, _, htarget, _, haccept⟩
    · simp [catchAllAt, catchAll] at hgo
    · by_cases hmem : next ∈ liveNodes t
      · exact ⟨next, hmem, hnext, htarget⟩
      · rw [hgo.1, if_neg hmem] at haccept
        cases haccept
  · cases h

/-- What leads through the states of the table leads down the trie, to the node of the state. -/
lemma exists_descend?_of_retrace? (ht : t.Fits l) {history : History} {i : StateId}
    (h : (ofTrie t l).retrace? ss = some (history, i)) :
    ∃ id ∈ liveNodes t, t.descend? Trie.rootId ss = some id ∧ i = stateOf (liveNodes t) id := by
  induction ss using List.reverseRecOn generalizing history i with
  | nil =>
    have hroot := rootId_mem_liveNodes ht.size_pos
    refine ⟨Trie.rootId, hroot, rfl, ?_⟩
    rw [stateOf_rootId ht.size_pos]
    cases h
    rfl
  | append_singleton ss s ih =>
    rw [retrace?_concat] at h
    obtain ⟨⟨history', i'⟩, hbefore, hgo⟩ := Option.bind_eq_some_iff.1 h
    obtain ⟨id, hlive, hdescend, rfl⟩ := ih hbefore
    obtain ⟨next, hmem, hnext, hplace⟩ := exists_successor?_of_goOn? hlive hgo
    refine ⟨next, hmem, ?_, hplace⟩
    rw [Trie.descend?_concat, hdescend, Option.bind_some, hnext]

end StateTable

/-- A walker is where its history leads. -/
lemma Walker.Traced.descend?_eq (ht : t.Fits l) {w : Walker} (hw : w.Traced t l) :
    t.descend? Trie.rootId w.history.symbols = some w.node := by
  obtain ⟨id, hlive, hdescend, hstate⟩ := exists_descend?_of_retrace? ht hw.retraced
  rw [hdescend, (stateOf_inj hw.live).1 hstate]

end Lexing
