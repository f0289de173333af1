import Lexing.Proofs.Beginnings
import Lexing.Proofs.Endings

/-!
# Names

A name is made of tags, and these may hold anything, the characters that separate them and the
numbers of later holders included.  So different ways through a trie often come to the same name, and
a name with a number may be one that is taken itself.  What keeps names apart is only the search for
one that is free.

The search ends, since the names that it tries are all different (`Text.firstFree_freshName`), and it
ends with the first that is not taken.  In a trie each node has been named so after all nodes before
it (`Trie.Named`), so no two nodes have the same name, and none but the root has a name that is set
aside.  A table that is looked up by name is entered state by state, and a name that came twice would
hide a state; it never does (`Lexicon.names_identify`).
-/

namespace Lexing

/-! ## The search for a free name -/

namespace Text

variable {base name : String} {taken : List String} {n : ℕ}

/-- The names that are tried for `base`, in this order: `base` itself, `base#2`, `base#3`, … -/
def candidate (base : String) : ℕ → String
  | 0 => base
  | n + 1 => s!"{base}#{n + 2}"

/-- The name is the first of the candidates that is not taken, and is found after at most one try for
each name that is. -/
def FirstFree (base : String) (taken : List String) (name : String) : Prop :=
  ∃ n ≤ taken.length, name = candidate base n ∧ name ∉ taken ∧ ∀ m < n, candidate base m ∈ taken

lemma candidate_succ (base : String) (n : ℕ) :
    candidate base (n + 1) = base ++ ("#" ++ (n + 2).repr) := by
  simp [candidate, toString, String.append_assoc]

lemma candidate_injective (base : String) : Function.Injective (candidate base) := by
  intro m n h
  cases m with
  | zero =>
    cases n with
    | zero => rfl
    | succ n =>
      rw [candidate_succ] at h
      have hlength := congrArg String.length h
      simp [candidate] at hlength
  | succ m =>
    cases n with
    | zero =>
      rw [candidate_succ] at h
      have hlength := congrArg String.length h
      simp [candidate] at hlength
    | succ n =>
      rw [candidate_succ, candidate_succ, String.append_right_inj, String.append_right_inj] at h
      have hdigits : Nat.toDigits 10 (m + 2) = Nat.toDigits 10 (n + 2) := by
        simpa [Nat.repr_eq_ofList_toDigits, String.ofList_inj] using h
      have hnumber := congrArg (Nat.ofDigitChars 10 · 0) hdigits
      simpa [Nat.ofDigitChars_toDigits] using hnumber

/-- A search that has found only taken names so far has not tried more than there are. -/
lemma le_length_of_taken (h : ∀ m < n, candidate base m ∈ taken) : n ≤ taken.length := by
  have hnodup : ((List.range n).map (candidate base)).Nodup :=
    List.nodup_range.map (candidate_injective base)
  have hsubset : (List.range n).map (candidate base) ⊆ taken := by
    intro name hname
    obtain ⟨m, hm, rfl⟩ := List.mem_map.1 hname
    exact h m (List.mem_range.1 hm)
  simpa using (hnodup.subperm hsubset).length_le

lemma freshNumbered_eq_ite (base : String) (taken : List String) (n : ℕ) :
    freshNumbered base taken (n + 2) =
      if candidate base (n + 1) ∈ taken then
        freshNumbered base (taken.erase (candidate base (n + 1))) (n + 1 + 2)
      else candidate base (n + 1) := by
  rw [freshNumbered]
  rfl

/-- **The search ends.**  Names that were struck are not tried again, so that it does not matter
that they are missing. -/
lemma exists_freshNumbered (base : String) (taken : List String) (n : ℕ) :
    ∃ k, n ≤ k ∧ freshNumbered base taken (n + 2) = candidate base (k + 1) ∧
      candidate base (k + 1) ∉ taken ∧
      ∀ m, n ≤ m → m < k → candidate base (m + 1) ∈ taken := by
  induction hlength : taken.length generalizing taken n with
  | zero =>
    obtain rfl := List.length_eq_zero_iff.1 hlength
    rw [freshNumbered_eq_ite, if_neg List.not_mem_nil]
    exact ⟨n, le_rfl, rfl, List.not_mem_nil, fun m hn hm => absurd hm (Nat.not_lt.2 hn)⟩
  | succ size ih =>
    rw [freshNumbered_eq_ite]
    split_ifs with htaken
    · have hsize : (taken.erase (candidate base (n + 1))).length = size := by
        rw [List.length_erase_of_mem htaken, hlength, Nat.add_sub_cancel]
      obtain ⟨k, hk, hname, hfree, hbefore⟩ := ih _ (n + 1) hsize
      have hother : candidate base (k + 1) ≠ candidate base (n + 1) := by
        intro hsame
        have := candidate_injective base hsame
        omega
      rw [List.mem_erase_of_ne hother] at hfree
      refine ⟨k, Nat.le_of_succ_le hk, hname, hfree, fun m hn hm => ?_⟩
      rcases Nat.eq_or_lt_of_le hn with rfl | hlt
      · exact htaken
      · exact List.mem_of_mem_erase (hbefore m hlt hm)
    · exact ⟨n, le_rfl, rfl, htaken, fun m hn hm => absurd hm (Nat.not_lt.2 hn)⟩

/-- A fresh name is the first that is free. -/
lemma firstFree_freshName (base : String) (taken : List String) :
    FirstFree base taken (freshName base taken) := by
  unfold freshName
  split_ifs with hbase
  · obtain ⟨k, -, hname, hfree, hbefore⟩ := exists_freshNumbered base taken 0
    have htaken : ∀ m < k + 1, candidate base m ∈ taken := by
      intro m hm
      cases m with
      | zero => exact hbase
      | succ m => exact hbefore m (Nat.zero_le m) (Nat.succ_lt_succ_iff.1 hm)
    rw [hname]
    exact ⟨k + 1, le_length_of_taken htaken, rfl, hfree, htaken⟩
  · exact ⟨0, Nat.zero_le _, rfl, hbase, nofun⟩

lemma FirstFree.notMem (h : FirstFree base taken name) : name ∉ taken := by
  obtain ⟨_, _, _, hfree, _⟩ := h
  exact hfree

end Text

/-! ## The names of nodes -/

namespace Trie

variable {t : Trie} {owner : LexemeId} {id id' parent : NodeId} {edge : Edge} {node node' : Node}

/-- The names of the nodes, in the order in which the nodes were made. -/
def names (t : Trie) : List String :=
  t.nodes.toList.map (·.name)

/-- The name with which the search for the name of a node begins. -/
def baseName (t : Trie) (link : Link) : String :=
  if link.parent = rootId then link.edge.label else t.nameAt link.parent ++ "/" ++ link.edge.label

/-- The nodes were named one after the other: the root by the name set aside for it, and any other
by the first name that was free then. -/
structure Named (t : Trie) : Prop where
  size_pos : 0 < t.size
  linkAt?_rootId : t.linkAt? rootId = none
  nameAt_rootId : t.nameAt rootId = rootName
  node : ∀ {id : NodeId}, id < t.size → id ≠ rootId → ∃ link, t.linkAt? id = some link ∧
    link.parent < id ∧
    Text.FirstFree (t.baseName link) (resetName :: t.names.take id) (t.nameAt id)

lemma named_new (owner : LexemeId) : (new owner).Named where
  size_pos := by simp [new, size]
  linkAt?_rootId := rfl
  nameAt_rootId := rfl
  node {id} hid hroot := by
    have hone : id < 1 := by simpa [new, size] using hid
    exact absurd (Nat.lt_one_iff.1 hone) hroot

@[simp] lemma length_names (t : Trie) : t.names.length = t.size := by
  simp [names, size]

lemma getElem?_names (h : id < t.size) : t.names[id]? = some (t.nameAt id) := by
  have hnode : t.nodes[id]? = some t.nodes[id] := Array.getElem?_eq_getElem h
  simp [names, nameAt, node?, hnode]

lemma names_push (t : Trie) (node : Node) :
    names { nodes := t.nodes.push node } = t.names ++ [node.name] := by
  simp [names]

lemma names_modify (t : Trie) {f : Node → Node} (hf : ∀ node, (f node).name = node.name)
    (id : NodeId) : names { nodes := t.nodes.modify id f } = t.names := by
  apply List.ext_getElem?
  intro i
  rcases Nat.lt_or_ge i t.size with hi | hi
  · rw [getElem?_names (by simpa [size] using hi), getElem?_names hi, nameAt_modify t hf]
  · rw [List.getElem?_eq_none (by simpa [size] using hi), List.getElem?_eq_none (by simpa using hi)]

lemma baseName_modify (t : Trie) {f : Node → Node} (hf : ∀ node, (f node).name = node.name)
    (id : NodeId) (link : Link) :
    baseName { nodes := t.nodes.modify id f } link = t.baseName link := by
  rw [baseName, baseName, nameAt_modify t hf]

lemma baseName_push {link : Link} (node : Node) (h : link.parent < t.size) :
    baseName { nodes := t.nodes.push node } link = t.baseName link := by
  rw [baseName, baseName, nameAt_push_of_lt node h]

lemma childName_eq (t : Trie) (parent : NodeId) (edge : Edge) :
    t.childName parent edge = Text.freshName (t.baseName { parent, edge }) (resetName :: t.names) :=
  rfl

namespace Named

lemma modify (h : t.Named) {f : Node → Node} (hlink : ∀ node, (f node).link? = node.link?)
    (hname : ∀ node, (f node).name = node.name) (id : NodeId) :
    Named { nodes := t.nodes.modify id f } where
  size_pos := by simpa [size] using h.size_pos
  linkAt?_rootId := (linkAt?_modify t hlink ..).trans h.linkAt?_rootId
  nameAt_rootId := (nameAt_modify t hname ..).trans h.nameAt_rootId
  node {other} hother hroot := by
    have hlt : other < t.size := by simpa [size] using hother
    obtain ⟨link, hlinked, hparent, hfree⟩ := h.node hlt hroot
    refine ⟨link, (linkAt?_modify t hlink ..).trans hlinked, hparent, ?_⟩
    rw [baseName_modify t hname, names_modify t hname, nameAt_modify t hname]
    exact hfree

/-- **A new node** is named after all that there are, and they keep their names. -/
lemma push (h : t.Named) (hparent : parent < t.size) (hlink : node.link? = some { parent, edge })
    (hname : node.name = t.childName parent edge) : Named { nodes := t.nodes.push node } where
  size_pos := by simp [size]
  linkAt?_rootId := (linkAt?_push_of_lt node h.size_pos).trans h.linkAt?_rootId
  nameAt_rootId := (nameAt_push_of_lt node h.size_pos).trans h.nameAt_rootId
  node {id} hid hroot := by
    rw [names_push]
    rcases Nat.lt_or_ge id t.size with hold | hnew
    · obtain ⟨link, hlinked, hbefore, hfree⟩ := h.node hold hroot
      refine ⟨link, (linkAt?_push_of_lt node hold).trans hlinked, hbefore, ?_⟩
      rw [baseName_push node (hbefore.trans hold), nameAt_push_of_lt node hold,
        List.take_append_of_le_length (by simpa using hold.le)]
      exact hfree
    · obtain rfl : id = t.size := Nat.le_antisymm (by simpa [size, Nat.lt_succ_iff] using hid) hnew
      refine ⟨{ parent, edge }, ?_, hparent, ?_⟩
      · simp [linkAt?, node?, size, hlink]
      · have hnode : nameAt { nodes := t.nodes.push node } t.size = node.name := by
          simp [nameAt, node?, size]
        have htake : (t.names ++ [node.name]).take t.size = t.names :=
          List.take_left' (length_names t)
        rw [htake, hnode, hname, baseName_push node hparent, childName_eq]
        exact Text.firstFree_freshName ..

end Named

lemma kept_named : Kept Named where
  size_pos h := h.size_pos
  modify h := h.modify
  push h := h.push

/-- **All patterns of a lexicon.** -/
lemma named_ofLexicon (l : Lexicon) : (ofLexicon l).Named :=
  kept_named.insertAll (named_new defaultId) (defaultId + 1) l.patternLexemes

/-! ## What the names tell apart -/

/-- A name is none of those that were given before. -/
lemma Named.nameAt_ne (h : t.Named) (hid : id < t.size) (hid' : id' < id) :
    t.nameAt id' ≠ t.nameAt id := by
  obtain ⟨_, _, _, hfree⟩ := h.node hid (Nat.ne_zero_of_lt hid')
  intro hsame
  refine hfree.notMem (List.mem_cons_of_mem _ ?_)
  rw [← hsame]
  apply List.mem_of_getElem? (i := id')
  rw [List.getElem?_take_of_lt hid', getElem?_names (hid'.trans hid)]

lemma Named.nameAt_inj (h : t.Named) (hid : id < t.size) (hid' : id' < t.size) :
    t.nameAt id = t.nameAt id' ↔ id = id' := by
  refine ⟨fun hsame => ?_, fun hsame => by rw [hsame]⟩
  rcases Nat.lt_trichotomy id id' with hlt | heq | hlt
  · exact absurd hsame (h.nameAt_ne hid' hlt)
  · exact heq
  · exact absurd hsame.symm (h.nameAt_ne hid hlt)

lemma Named.nameAt_eq_rootName_iff (h : t.Named) (hid : id < t.size) :
    t.nameAt id = rootName ↔ id = rootId := by
  rw [← h.nameAt_rootId]
  exact h.nameAt_inj hid h.size_pos

lemma Named.nameAt_ne_resetName (h : t.Named) (hid : id < t.size) : t.nameAt id ≠ resetName := by
  intro hreset
  by_cases hroot : id = rootId
  · rw [hroot, h.nameAt_rootId] at hreset
    exact absurd hreset (by decide)
  · obtain ⟨_, _, _, hfree⟩ := h.node hid hroot
    rw [hreset] at hfree
    exact hfree.notMem List.mem_cons_self

/-- Every node has a name of its own, found by the search, and only the root has a name that is set
aside. -/
structure NamesIdentify (t : Trie) : Prop where
  named : t.Named
  eq_of_name_eq : ∀ {id id' : NodeId} {node node' : Node}, t.node? id = some node →
    t.node? id' = some node' → node.name = node'.name → id = id'
  name_eq_rootName_iff : ∀ {id : NodeId} {node : Node}, t.node? id = some node →
    (node.name = rootName ↔ id = rootId)
  name_ne_resetName : ∀ {id : NodeId} {node : Node}, t.node? id = some node →
    node.name ≠ resetName

lemma lt_size_of_node? (h : t.node? id = some node) : id < t.size :=
  (Array.getElem?_eq_some_iff.1 h).1

lemma nameAt_of_node? (h : t.node? id = some node) : t.nameAt id = node.name := by
  rw [nameAt, h, Option.elim_some]

lemma Named.namesIdentify (h : t.Named) : t.NamesIdentify where
  named := h
  eq_of_name_eq hnode hnode' hsame := by
    rw [← nameAt_of_node? hnode, ← nameAt_of_node? hnode'] at hsame
    exact (h.nameAt_inj (lt_size_of_node? hnode) (lt_size_of_node? hnode')).1 hsame
  name_eq_rootName_iff hnode := by
    rw [← nameAt_of_node? hnode]
    exact h.nameAt_eq_rootName_iff (lt_size_of_node? hnode)
  name_ne_resetName hnode := by
    rw [← nameAt_of_node? hnode]
    exact h.nameAt_ne_resetName (lt_size_of_node? hnode)

end Trie

/-! ## Looking states up by name -/

namespace StateTable

open Trie (rootId rootName resetName)

variable {t : StateTable} {trie : Trie} {l : Lexicon} {i j : StateId} {state state' : State}
  {name : String}

/-- Enters a state under its name.  What was entered under the same name before is lost. -/
def enter (index : String → Option StateId) (entry : State × StateId) : String → Option StateId :=
  Function.update index entry.1.name (some entry.2)

/-- The index of names: the states are entered in order. -/
def nameIndex (t : StateTable) : String → Option StateId :=
  t.states.toList.zipIdx.foldl enter fun _ => none

/-- The state that the index has under a name, and its number. -/
def stateNamed? (t : StateTable) (name : String) : Option (StateId × State) :=
  (t.nameIndex name).bind fun i => (t.state? i).map fun state => (i, state)

lemma foldl_enter_of_notMem {entries : List (State × StateId)} {index : String → Option StateId}
    (h : name ∉ entries.map (·.1.name)) : entries.foldl enter index name = index name := by
  induction entries generalizing index with
  | nil => rfl
  | cons entry entries ih =>
    obtain ⟨hne, hrest⟩ := List.ne_and_not_mem_of_not_mem_cons h
    rw [List.foldl_cons, ih hrest, enter, Function.update_of_ne hne]

/-- No entry is lost if no name comes twice. -/
lemma foldl_enter_of_mem {entries : List (State × StateId)} {index : String → Option StateId}
    (h : (entries.map (·.1.name)).Nodup) (hmem : (state, i) ∈ entries) :
    entries.foldl enter index state.name = some i := by
  induction entries generalizing index with
  | nil => cases hmem
  | cons entry entries ih =>
    obtain ⟨hnew, hrest⟩ := List.nodup_cons.1 h
    rw [List.foldl_cons]
    rcases List.mem_cons.1 hmem with rfl | hmem
    · rw [foldl_enter_of_notMem hnew, enter, Function.update_self]
    · exact ih hrest hmem

/-- The names of the states, in order. -/
def names (t : StateTable) : List String :=
  t.states.toList.map (·.name)

lemma map_name_zipIdx (t : StateTable) : t.states.toList.zipIdx.map (·.1.name) = t.names := by
  show t.states.toList.zipIdx.map (State.name ∘ Prod.fst) = t.names
  rw [← List.map_map, List.zipIdx_map_fst]
  rfl

lemma nameIndex_of_state? (ht : t.names.Nodup) (h : t.state? i = some state) :
    t.nameIndex state.name = some i := by
  refine foldl_enter_of_mem ?_ (mem_zipIdx_iff.2 h)
  rwa [map_name_zipIdx]

lemma nameIndex_eq_none (h : ∀ i state, t.state? i = some state → state.name ≠ name) :
    t.nameIndex name = none := by
  refine foldl_enter_of_notMem fun hmem => ?_
  obtain ⟨⟨state, i⟩, hentry, rfl⟩ := List.mem_map.1 hmem
  exact h i state (mem_zipIdx_iff.1 hentry) rfl

/-- Two states that are called the same are one. -/
lemma eq_of_name_eq (ht : t.names.Nodup) (h : t.state? i = some state)
    (h' : t.state? j = some state') (hname : state.name = state'.name) : i = j := by
  have hi := nameIndex_of_state? ht h
  rw [hname, nameIndex_of_state? ht h'] at hi
  exact (Option.some.inj hi).symm

lemma findState?_of_state? (ht : t.names.Nodup) (h : t.state? i = some state) :
    t.findState? state.name = some i := by
  obtain ⟨hlt, hstate⟩ := Array.getElem?_eq_some_iff.1 h
  refine Array.findIdx?_eq_some_iff_getElem.2 ⟨hlt, by simp [hstate], fun k hk hsame => ?_⟩
  have hthere : t.state? k = some t.states[k] := Array.getElem?_eq_getElem (hk.trans hlt)
  exact absurd (eq_of_name_eq ht hthere h (beq_iff_eq.1 hsame)) hk.ne

lemma findState?_eq_none (h : ∀ i state, t.state? i = some state → state.name ≠ name) :
    t.findState? name = none := by
  rw [findState?, Array.findIdx?_eq_none_iff]
  intro state hmem
  obtain ⟨i, hstate⟩ := Array.getElem?_of_mem hmem
  exact beq_eq_false_iff_ne.2 (h i state hstate)

/-- A search through the states finds the same as the index. -/
lemma findState?_eq_nameIndex (ht : t.names.Nodup) (name : String) :
    t.findState? name = t.nameIndex name := by
  by_cases hname : ∃ i state, t.state? i = some state ∧ state.name = name
  · obtain ⟨i, state, hstate, rfl⟩ := hname
    rw [findState?_of_state? ht hstate, nameIndex_of_state? ht hstate]
  · push Not at hname
    rw [findState?_eq_none hname, nameIndex_eq_none hname]

/-- The names of the states identify them, and the index finds the states by their names. -/
structure NamesIdentify (t : StateTable) : Prop where
  eq_of_name_eq : ∀ {i j : StateId} {state state' : State}, t.state? i = some state →
    t.state? j = some state' → state.name = state'.name → i = j
  name_eq_rootName_iff : ∀ {i : StateId} {state : State}, t.state? i = some state →
    (state.name = rootName ↔ i = t.initial)
  name_eq_resetName_iff : ∀ {i : StateId} {state : State}, t.state? i = some state →
    (state.name = resetName ↔ i = t.terminal)
  stateNamed?_name : ∀ {i : StateId} {state : State}, t.state? i = some state →
    t.stateNamed? state.name = some (i, state)
  stateNamed?_eq_none : ∀ {name : String},
    (∀ i state, t.state? i = some state → state.name ≠ name) → t.stateNamed? name = none
  findState?_eq : ∀ name : String, t.findState? name = t.nameIndex name

/-- It is enough that no name comes twice, and that the names that are set aside are where they
belong. -/
lemma namesIdentify_of_nodup (ht : t.names.Nodup)
    (hinitial : ∃ state, t.state? t.initial = some state ∧ state.name = rootName)
    (hterminal : ∃ state, t.state? t.terminal = some state ∧ state.name = resetName) :
    t.NamesIdentify where
  eq_of_name_eq := eq_of_name_eq ht
  name_eq_rootName_iff {i state} h := by
    obtain ⟨first, hfirst, hname⟩ := hinitial
    rw [← hname]
    refine ⟨eq_of_name_eq ht h hfirst, ?_⟩
    rintro rfl
    rw [Option.some.inj (h.symm.trans hfirst)]
  name_eq_resetName_iff {i state} h := by
    obtain ⟨last, hlast, hname⟩ := hterminal
    rw [← hname]
    refine ⟨eq_of_name_eq ht h hlast, ?_⟩
    rintro rfl
    rw [Option.some.inj (h.symm.trans hlast)]
  stateNamed?_name h := by
    rw [stateNamed?, nameIndex_of_state? ht h, Option.bind_some, h, Option.map_some]
  stateNamed?_eq_none h := by
    rw [stateNamed?, nameIndex_eq_none h, Option.bind_none]
  findState?_eq := findState?_eq_nameIndex ht

/-! ### Tables of tries -/

/-- The states are called as the nodes are that they come from. -/
lemma names_ofTrie (trie : Trie) (l : Lexicon) :
    (ofTrie trie l).names = (liveNodes trie).map trie.nameAt ++ [resetName] := by
  rw [names, states_ofTrie, List.map_append, List.map_map]
  congr 1
  apply List.map_congr_left
  intro id hid
  obtain ⟨node, hnode⟩ := exists_node?_of_mem_liveNodes hid
  rw [Function.comp_apply, stateAt_eq_some hnode, Option.getD_some, name_stateFor,
    Trie.nameAt_of_node? hnode]

lemma nodup_names_ofTrie (h : trie.Named) : (ofTrie trie l).names.Nodup := by
  have hlt : ∀ id ∈ liveNodes trie, id < trie.size := fun id hid => (mem_liveNodes.1 hid).1
  have hlive : (liveNodes trie).Nodup := List.nodup_range.filter _
  rw [names_ofTrie]
  refine List.Nodup.append (hlive.map_on ?_) (List.nodup_singleton _) ?_
  · intro id hid id' hid' hsame
    exact (h.nameAt_inj (hlt id hid) (hlt id' hid')).1 hsame
  · rw [List.disjoint_singleton]
    intro hmem
    obtain ⟨id, hid, hreset⟩ := List.mem_map.1 hmem
    exact h.nameAt_ne_resetName (hlt id hid) hreset

/-- **The table of a trie** with names of this kind. -/
lemma namesIdentify_ofTrie (h : trie.Named) (l : Lexicon) : (ofTrie trie l).NamesIdentify := by
  refine namesIdentify_of_nodup (nodup_names_ofTrie h) ?_ ⟨resetState, state?_length, rfl⟩
  have hlive := rootId_mem_liveNodes h.size_pos
  obtain ⟨node, hnode⟩ := exists_node?_of_mem_liveNodes hlive
  have hstate := state?_stateOf (l := l) hlive hnode
  rw [stateOf_rootId h.size_pos] at hstate
  refine ⟨_, hstate, ?_⟩
  rw [name_stateFor, ← Trie.nameAt_of_node? hnode, h.nameAt_rootId]

end StateTable

/-- **Names identify states**, whatever the tags in the patterns of a lexicon are.  Each node of its
trie gets a name from a search that ends, which no other node has.  Only the root is called `<root>`
and only the reset state `<reset>`, and a state is found by its name and by nothing else. -/
theorem Lexicon.names_identify (l : Lexicon) :
    (Trie.ofLexicon l).NamesIdentify ∧ l.compile.NamesIdentify :=
  ⟨(Trie.named_ofLexicon l).namesIdentify,
    StateTable.namesIdentify_ofTrie (Trie.named_ofLexicon l) l⟩

/-- Tags that look like names of nodes. -/
def Lexicon.clashing : Lexicon :=
  { mode := .token
    defaultLexeme := Definition.lexemeWith { kind := "other" } []
    patternLexemes := [["a/b"], ["a", "b"], ["a/b#2"], ["<root>"], ["<reset>"]].map fun tags =>
      Definition.lexemeWith { kind := "word" } (tags.map fun tag => .element (.plain tag)) }

example : (Trie.ofLexicon .clashing).names =
    ["<root>", "a/b", "a", "a/b#2", "a/b#2#2", "<root>#2", "<reset>#2"] := by
  decide +kernel

end Lexing
