import Lexing.Proofs.Quoting
import Lexing.Proofs.Totality
import Lexing.StateTable.Diagram

/-!
# Drawings are read back

A state table is drawn line by line, and what it holds of free text, the names of states and the
labels of transitions, is quoted.  `Drawing.read?` takes a drawing apart again: it cuts the text
into lines and reads from each line the numbers, the quotation, and what comes after it.  It knows
the fixed parts of the lines, and nothing about the table.

Tags, kinds and names can hold quotes, backslashes, new lines and braces, and yet each line stays
one line and is read to its end, since a quotation is (`Text.readQuoted_quote`).  So the lines show
what the table contains, whatever table it is (`StateTable.shows_toDot`), and what they show is read
from them (`Drawing.read?_of_shows`).  In the table of a lexicon moreover each transition leads to a
state that is drawn, and no state has two roles; the main result is `Lexicon.drawnFaithfully`.
-/

namespace Lexing

open Text (quote readNumber readQuoted)

/-! ## Drawings -/

/-- What a state is in a table. -/
inductive Drawing.Role where
  | initial
  | reset
  | ordinary
  deriving DecidableEq, Repr

structure Drawing.Node where
  number : StateId
  name : String
  role : Role
  deriving DecidableEq, Repr

structure Drawing.Arrow where
  source : StateId
  target : StateId
  label : String
  isCatchAll : Bool
  deriving DecidableEq, Repr

/-- What a drawing shows, in the order in which it is drawn. -/
structure Drawing where
  nodes : List Drawing.Node
  arrows : List Drawing.Arrow
  deriving DecidableEq, Repr

namespace StateTable

def roleOf (state : State) : Drawing.Role :=
  if state.isInitial then .initial
  else if state.isReset then .reset
  else .ordinary

/-- All transitions with the states that they leave, in order. -/
def ways (t : StateTable) : List (StateId × Transition) :=
  t.states.toList.zipIdx.flatMap fun (state, i) => state.transitions.map (i, ·)

/-- What the drawing of a table should show. -/
def drawing (t : StateTable) : Drawing where
  nodes := t.states.toList.zipIdx.map fun (state, i) =>
    { number := i, name := state.name, role := roleOf state }
  arrows := t.ways.map fun (i, tr) =>
    { source := i
      target := tr.target
      label := t.transitionLabel tr
      isCatchAll := tr.kind = .catchAll }

end StateTable

/-! ## Reading -/

namespace Drawing

/-- The end of the line of a state, after its name. -/
def readRole (cs : List Char) : Option Role :=
  if cs = ", shape=doublecircle];".toList then some .initial
  else if cs = ", shape=box];".toList then some .reset
  else if cs = ", shape=circle];".toList then some .ordinary
  else none

/-- The end of the line of a transition, after its label. -/
def readStyle (cs : List Char) : Option Bool :=
  if cs = ", style=dashed];".toList then some true
  else if cs = "];".toList then some false
  else none

def readNode (line : List Char) : Option Node := do
  let cs ← line.dropPrefix? "  s".toList
  let (number, cs) ← readNumber cs
  let cs ← cs.dropPrefix? " [label=".toList
  let (name, cs) ← readQuoted cs
  let role ← readRole cs
  return { number, name, role }

def readArrow (line : List Char) : Option Arrow := do
  let cs ← line.dropPrefix? "  s".toList
  let (source, cs) ← readNumber cs
  let cs ← cs.dropPrefix? " -> s".toList
  let (target, cs) ← readNumber cs
  let cs ← cs.dropPrefix? " [label=".toList
  let (label, cs) ← readQuoted cs
  let isCatchAll ← readStyle cs
  return { source, target, label, isCatchAll }

/-- Reads lines as long as they can be read. -/
def readMany {α : Type} (read : List Char → Option α) :
    List (List Char) → List α × List (List Char)
  | [] => ([], [])
  | line :: lines =>
    match read line with
    | some a => (readMany read lines).map (a :: ·) id
    | none => ([], line :: lines)

def header : List (List Char) :=
  ["digraph StateTable \x7b", "  rankdir=LR;", "  node [shape=circle];", ""].map String.toList

/-- Reads a whole drawing, of which every line is ended. -/
def read? (text : String) : Option Drawing := do
  let lines ← (text.toList.splitOn '\n').dropPrefix? header
  let (nodes, lines) := readMany readNode lines
  let lines ← lines.dropPrefix? [[]]
  let (arrows, lines) := readMany readArrow lines
  if lines = ["\x7d".toList, []] then some { nodes, arrows } else none

/-- The lines show the drawing: after the header there is a line for each node, a blank line, a line
for each arrow, and a closing line, which is ended too. -/
def Shows (lines : List (List Char)) (d : Drawing) : Prop :=
  ∃ nodeLines arrowLines,
    lines = header ++ (nodeLines ++ [] :: (arrowLines ++ ["\x7d".toList, []])) ∧
      List.Forall₂ (fun line node => readNode line = some node) nodeLines d.nodes ∧
      List.Forall₂ (fun line arrow => readArrow line = some arrow) arrowLines d.arrows

lemma dropPrefix?_append {α : Type} [BEq α] [LawfulBEq α] (xs ys : List α) :
    (xs ++ ys).dropPrefix? xs = some ys :=
  List.dropPrefix?_eq_some_iff.2 ⟨xs, rfl, beq_self_eq_true xs⟩

/-- Reading stops at the first line that cannot be read. -/
lemma readMany_append {α : Type} {read : List Char → Option α} {lines rest : List (List Char)}
    {as : List α} {stop : List Char}
    (h : List.Forall₂ (fun line a => read line = some a) lines as) (hstop : read stop = none) :
    readMany read (lines ++ stop :: rest) = (as, stop :: rest) := by
  induction h with
  | nil => simp [readMany, hstop]
  | cons hline _ ih =>
    rw [List.cons_append, readMany, hline]
    simp [ih]

/-- **Reading.**  What the lines of a text show is what is read from it. -/
lemma read?_of_shows {text : String} {d : Drawing} (h : Shows (text.toList.splitOn '\n') d) :
    read? text = some d := by
  obtain ⟨nodeLines, arrowLines, hlines, hnodes, harrows⟩ := h
  have hblank : readNode [] = none := rfl
  have hclosing : readArrow "\x7d".toList = none := rfl
  have hskip : ∀ rest : List (List Char), ([] :: rest).dropPrefix? [[]] = some rest :=
    dropPrefix?_append [[]]
  simp only [read?, hlines, dropPrefix?_append, readMany_append hnodes hblank, hskip,
    readMany_append harrows hclosing, Option.bind_eq_bind, Option.bind_some, if_true]

end Drawing

/-! ## Lines of a table -/

namespace StateTable

open Drawing

variable {t : StateTable}

lemma readRole_shapeOf (state : State) :
    readRole (", shape=".toList ++ ((shapeOf state).toList ++ "];".toList)) =
      some (roleOf state) := by
  unfold shapeOf roleOf
  split_ifs <;> rfl

/-- What ends the line of a transition. -/
lemma readStyle_ite (b : Bool) :
    readStyle ((if b then ", style=dashed" else "").toList ++ "];".toList) = some b := by
  cases b <;> rfl

lemma toList_stateLine (i : StateId) (state : State) : (stateLine i state).toList =
    "  s".toList ++ ((toString i).toList ++ (" [label=".toList ++ ((quote state.name).toList ++
      (", shape=".toList ++ ((shapeOf state).toList ++ "];".toList))))) := by
  simp only [stateLine, String.toList_append, List.append_assoc]
  rfl

lemma toList_transitionLine (t : StateTable) (i : StateId) (tr : Transition) :
    (t.transitionLine i tr).toList =
      "  s".toList ++ ((toString i).toList ++ (" -> s".toList ++ ((toString tr.target).toList ++
        (" [label=".toList ++ ((quote (t.transitionLabel tr)).toList ++
          ((if decide (tr.kind = .catchAll) then ", style=dashed" else "").toList ++
            "];".toList)))))) := by
  simp only [transitionLine, String.toList_append, List.append_assoc, decide_eq_true_eq]
  rfl

lemma readNode_stateLine (i : StateId) (state : State) : readNode (stateLine i state).toList =
    some { number := i, name := state.name, role := roleOf state } := by
  simp (disch := decide) only [readNode, toList_stateLine, dropPrefix?_append,
    Text.readNumber_toString, Text.readQuoted_quote, readRole_shapeOf, Option.bind_eq_bind,
    Option.bind_some, Option.pure_def]

lemma readArrow_transitionLine (i : StateId) (tr : Transition) :
    readArrow (t.transitionLine i tr).toList =
      some { source := i
             target := tr.target
             label := t.transitionLabel tr
             isCatchAll := tr.kind = .catchAll } := by
  simp (disch := decide) only [readArrow, toList_transitionLine, dropPrefix?_append,
    Text.readNumber_toString, Text.readQuoted_quote, readStyle_ite, Option.bind_eq_bind,
    Option.bind_some, Option.pure_def]

lemma newline_notMem_stateLine (i : StateId) (state : State) :
    '\n' ∉ (stateLine i state).toList := by
  have hshape : '\n' ∉ (shapeOf state).toList := by
    unfold shapeOf
    split_ifs <;> decide
  simp [toList_stateLine, Text.newline_notMem_toDigits, Text.newline_notMem_quote, hshape]

lemma newline_notMem_transitionLine (i : StateId) (tr : Transition) :
    '\n' ∉ (t.transitionLine i tr).toList := by
  have hstyle : '\n' ∉ (if tr.kind = .catchAll then ", style=dashed" else "").toList := by
    split_ifs <;> decide
  simp [toList_transitionLine, Text.newline_notMem_toDigits, Text.newline_notMem_quote, hstyle]

lemma diagramLines_eq (t : StateTable) : t.diagramLines.map String.toList =
    header ++ (t.states.toList.zipIdx.map (fun (state, i) => (stateLine i state).toList) ++
      [] :: (t.ways.map (fun (i, tr) => (t.transitionLine i tr).toList) ++ ["\x7d".toList])) := by
  simp [diagramLines, header, ways, List.map_flatMap, Function.comp_def]

lemma newline_notMem_of_mem_diagramLines {line : List Char}
    (h : line ∈ t.diagramLines.map String.toList) : '\n' ∉ line := by
  rw [diagramLines_eq] at h
  simp only [List.mem_append, List.mem_cons, List.mem_map, List.not_mem_nil, or_false] at h
  obtain h | ⟨_, _, rfl⟩ | rfl | ⟨_, _, rfl⟩ | rfl := h
  · revert line
    decide
  · exact newline_notMem_stateLine _ _
  · simp
  · exact newline_notMem_transitionLine _ _
  · decide

/-- Lines that are ended one by one are separated by their ends, with nothing after the last. -/
lemma flatMap_newline_eq (lines : List (List Char)) :
    lines.flatMap (· ++ ['\n']) = ['\n'].intercalate (lines ++ [[]]) := by
  induction lines with
  | nil => rfl
  | cons line lines ih =>
    rw [List.flatMap_cons, ih, List.cons_append, List.intercalate_cons_of_ne_nil (by simp)]

/-- The lines of the text are the lines that were put together. -/
lemma splitOn_toDot (t : StateTable) :
    t.toDot.toList.splitOn '\n' = t.diagramLines.map String.toList ++ [[]] := by
  have htext : t.toDot.toList = (t.diagramLines.map String.toList).flatMap (· ++ ['\n']) := by
    simp [toDot, String.toList_join, List.flatMap_map]
  rw [htext, flatMap_newline_eq]
  apply List.splitOn_intercalate
  · intro line hline
    rcases List.mem_append.1 hline with hline | hline
    · exact newline_notMem_of_mem_diagramLines hline
    · simp [List.mem_singleton.1 hline]
  · simp

/-- **Faithful lines**, for any table. -/
lemma shows_toDot (t : StateTable) : Shows (t.toDot.toList.splitOn '\n') t.drawing := by
  refine ⟨t.states.toList.zipIdx.map fun (state, i) => (stateLine i state).toList,
    t.ways.map fun (i, tr) => (t.transitionLine i tr).toList, ?_, ?_, ?_⟩
  · rw [splitOn_toDot, diagramLines_eq]
    simp
  · rw [drawing, List.forall₂_map_left_iff, List.forall₂_map_right_iff, List.forall₂_same]
    rintro ⟨state, i⟩ _
    exact readNode_stateLine i state
  · rw [drawing, List.forall₂_map_left_iff, List.forall₂_map_right_iff, List.forall₂_same]
    rintro ⟨i, tr⟩ _
    exact readArrow_transitionLine i tr

/-! ## Tables of lexicons -/

variable {trie : Trie} {l : Lexicon} {id : NodeId} {i : StateId} {state : State} {tr : Transition}

lemma size_ofTrie : (ofTrie trie l).size = (liveNodes trie).length + 1 := by
  rw [size, ← Array.length_toList, states_ofTrie, List.length_append, List.length_map,
    List.length_singleton]

/-- **Transitions lead to states.** -/
lemma target_lt_size (hstate : (ofTrie trie l).state? i = some state)
    (htr : tr ∈ state.transitions) : tr.target < (ofTrie trie l).size := by
  rw [size_ofTrie, Nat.lt_succ_iff]
  rcases exists_stateFor_of_state? hstate with ⟨id, node, _, _, rfl⟩ | rfl
  · rw [stateFor, transitionsAt_eq, List.mem_append, List.mem_singleton] at htr
    rcases htr with htr | rfl
    · obtain ⟨exit, hexit, _, rfl⟩ := exists_becomes_of_mem_narrow htr
      exact target_le_of_mem_exits hexit
    · exact Nat.le_refl _
  · rw [List.mem_singleton.1 htr]
    exact Nat.zero_le _

/-- What the number of a state says about it. -/
lemma stateFor_or_reset (h : (ofTrie trie l).state? i = some state) :
    (∃ id node, id ∈ liveNodes trie ∧ i = stateOf (liveNodes trie) id ∧
      state = stateFor trie l id node) ∨ i = (liveNodes trie).length ∧ state = resetState := by
  have hlt : i < (ofTrie trie l).size := (Array.getElem?_eq_some_iff.1 h).1
  rw [size_ofTrie] at hlt
  rcases Nat.lt_or_eq_of_le (Nat.le_of_lt_succ hlt) with hlive | rfl
  · have hmem : (liveNodes trie)[i] ∈ liveNodes trie := List.getElem_mem hlive
    have hnumber : i = stateOf (liveNodes trie) (liveNodes trie)[i] :=
      ((List.nodup_range.filter _).idxOf_getElem i hlive).symm
    obtain ⟨node, hnode⟩ := exists_node?_of_mem_liveNodes hmem
    have hstate := state?_stateOf (l := l) hmem hnode
    rw [← hnumber, h] at hstate
    exact .inl ⟨_, node, hmem, hnumber, Option.some.inj hstate⟩
  · rw [state?_length] at h
    exact .inr ⟨rfl, (Option.some.inj h).symm⟩

/-- The first state and the last have their roles, and no other state has one. -/
lemma roleOf_iff (hsize : 0 < trie.size) (h : (ofTrie trie l).state? i = some state) :
    (roleOf state = .initial ↔ i = (ofTrie trie l).initial) ∧
      (roleOf state = .reset ↔ i = (ofTrie trie l).terminal) := by
  show (_ ↔ i = 0) ∧ (_ ↔ i = (liveNodes trie).length)
  rcases stateFor_or_reset h with ⟨id, node, hlive, rfl, rfl⟩ | ⟨rfl, rfl⟩
  · have hne := Nat.ne_of_lt (stateOf_lt_length_iff.2 hlive)
    rw [stateOf_eq_zero_iff hlive]
    have hreset : roleOf (stateFor trie l id node) ≠ .reset := by
      by_cases hroot : id = Trie.rootId <;> simp [roleOf, stateFor, hroot]
    exact ⟨by simp [roleOf, stateFor], iff_of_false hreset hne⟩
  · have hne : (liveNodes trie).length ≠ 0 :=
      Nat.ne_of_gt (List.length_pos_of_mem (rootId_mem_liveNodes hsize))
    simp [roleOf, resetState, hne]

/-- The drawing of a table is faithful: its lines show the table, the table is read back from it,
each transition joins two states that are drawn, and the roles tell the first state and the last. -/
structure DrawnFaithfully (t : StateTable) : Prop where
  shows : Shows (t.toDot.toList.splitOn '\n') t.drawing
  read : read? t.toDot = some t.drawing
  declared : ∀ arrow ∈ t.drawing.arrows,
    (∃ node ∈ t.drawing.nodes, node.number = arrow.source) ∧
      ∃ node ∈ t.drawing.nodes, node.number = arrow.target
  roles : ∀ node ∈ t.drawing.nodes, (node.role = .initial ↔ node.number = t.initial) ∧
    (node.role = .reset ↔ node.number = t.terminal)

/-- Every state is drawn. -/
lemma exists_mem_nodes (hi : i < t.size) : ∃ node ∈ t.drawing.nodes, node.number = i := by
  have hstate : t.state? i = some t.states[i] := Array.getElem?_eq_getElem hi
  exact ⟨_, List.mem_map_of_mem (mem_zipIdx_iff.2 hstate), rfl⟩

lemma drawnFaithfully_ofTrie (hsize : 0 < trie.size) : (ofTrie trie l).DrawnFaithfully where
  shows := shows_toDot _
  read := read?_of_shows (shows_toDot _)
  declared := by
    intro arrow harrow
    obtain ⟨⟨i, tr⟩, hway, rfl⟩ := List.mem_map.1 harrow
    obtain ⟨⟨state, j⟩, hmem, htr⟩ := List.mem_flatMap.1 hway
    obtain ⟨tr, htr, hpair⟩ := List.mem_map.1 htr
    cases hpair
    have hstate := mem_zipIdx_iff.1 hmem
    exact ⟨exists_mem_nodes (Array.getElem?_eq_some_iff.1 hstate).1,
      exists_mem_nodes (target_lt_size hstate htr)⟩
  roles := by
    intro node hnode
    obtain ⟨⟨state, i⟩, hmem, rfl⟩ := List.mem_map.1 hnode
    exact roleOf_iff hsize (mem_zipIdx_iff.1 hmem)

end StateTable

/-- **Drawings are faithful**, whatever the tags, kinds and names of a lexicon are.  Each label is
one quotation, which ends where it should and stays on its line, and the drawing of the table says
which states there are and which transitions join them. -/
theorem Lexicon.drawnFaithfully (l : Lexicon) :
    (∀ (label : String) (rest : List Char),
      readQuoted ((quote label).toList ++ rest) = some (label, rest) ∧
        '\n' ∉ (quote label).toList) ∧
      l.compile.DrawnFaithfully :=
  ⟨fun label rest => ⟨Text.readQuoted_quote label rest, Text.newline_notMem_quote label⟩,
    StateTable.drawnFaithfully_ofTrie (Trie.fits_ofLexicon l).size_pos⟩

end Lexing
