import Lexing.Proofs.Tour
import Lexing.Trie
import Mathlib.Order.Bounds.Basic

/-!
# Logs of insertions

A log says what was done to a trie: which lexemes came along which paths, which paths were marked
as repeat points, and which lexemes ended with which paths, in order.  It knows nothing of nodes.
The node of a path is the path's place among the first visits (`Log.paths`), and what the node has
to keep is a matter of the log alone (`Log.Says`).

A node keeps three things of all that comes by: the first lexeme, the last one that ended, and the
mark.  Since lexemes are inserted in the order of their numbers, the first is the least and the last
the greatest; that no later lexeme is in the log yet (`Log.UpTo`) is all there is to the order.
-/

namespace Lexing

open Pattern (Item)

/-! ## Logs -/

/-- The node keeps of what was inserted what it should: the first lexeme that came by, whether one
came for a repeated element, and the last lexeme that ended here. -/
structure Node.Keeps (node : Node) (visits : Set LexemeId) (repeated : Prop)
    (ends : Set LexemeId) : Prop where
  owner : IsLeast visits node.owner
  repeats_iff : node.repeats = true ↔ repeated
  fullMatch?_eq_none_iff : node.fullMatch? = none ↔ ∀ i, i ∉ ends
  fullMatch : ∀ i ∈ node.fullMatch?, IsGreatest ends i

/-- What was done to a trie, in order. -/
structure Log where
  /-- The lexemes that came along paths. -/
  visits : List (LexemeId × List Edge) := []
  /-- The paths whose last edge was taken for a repeated element. -/
  marks : List (List Edge) := []
  /-- The lexemes that ended with paths. -/
  ends : List (LexemeId × List Edge) := []

namespace Log

instance : Append Log where
  append first second :=
    { visits := first.visits ++ second.visits
      marks := first.marks ++ second.marks
      ends := first.ends ++ second.ends }

@[simp] lemma visits_append (first second : Log) :
    (first ++ second).visits = first.visits ++ second.visits :=
  rfl

@[simp] lemma marks_append (first second : Log) :
    (first ++ second).marks = first.marks ++ second.marks :=
  rfl

@[simp] lemma ends_append (first second : Log) :
    (first ++ second).ends = first.ends ++ second.ends :=
  rfl

lemma append_assoc (a b c : Log) : a ++ b ++ c = a ++ (b ++ c) := by
  show Log.mk _ _ _ = Log.mk _ _ _
  simp

@[simp] lemma append_empty (log : Log) : log ++ ({} : Log) = log := by
  show Log.mk _ _ _ = Log.mk _ _ _
  simp

/-- The paths of nodes, the root first, in the order in which they were first come along. -/
def paths (log : Log) : List (List Edge) :=
  ([] :: log.visits.map (·.2)).eraseDups

@[simp] lemma paths_empty : ({} : Log).paths = [[]] := by
  simp [paths, List.eraseDups_cons]

lemma nodup_paths (log : Log) : log.paths.Nodup :=
  nodup_eraseDups _

lemma mem_paths {log : Log} {path : List Edge} :
    path ∈ log.paths ↔ path = [] ∨ ∃ i, (i, path) ∈ log.visits := by
  simp [paths]

lemma getElem?_paths_zero (log : Log) : log.paths[0]? = some [] := by
  simp [paths, List.eraseDups_cons]

/-- The nodes have different paths. -/
lemma eq_of_getElem?_paths {log : Log} {id id' : NodeId} {path : List Edge}
    (h : log.paths[id]? = some path) (h' : log.paths[id']? = some path) : id = id' := by
  obtain ⟨hlt, h⟩ := List.getElem?_eq_some_iff.1 h
  obtain ⟨hlt', h'⟩ := List.getElem?_eq_some_iff.1 h'
  exact (List.Nodup.getElem_inj_iff log.nodup_paths).1 (h.trans h'.symm)

/-- One more visit adds a path at the end, unless it is there already. -/
lemma paths_append_visit (log : Log) (i : LexemeId) (path : List Edge) :
    (log ++ { visits := [(i, path)] } : Log).paths =
      log.paths ++ if path ∈ log.paths then [] else [path] := by
  have hmem : path ∈ [] :: log.visits.map (·.2) ↔ path ∈ log.paths := by
    rw [paths, List.mem_eraseDups]
  rw [paths, visits_append, List.map_append, ← List.cons_append, List.map_singleton,
    eraseDups_concat, if_congr hmem rfl rfl]
  rfl

lemma paths_append_of_visits_eq_nil (log : Log) {more : Log} (h : more.visits = []) :
    (log ++ more).paths = log.paths := by
  rw [paths, visits_append, h, List.append_nil]
  rfl

/-- What the log says about the node of a path. -/
def Says (log : Log) (path : List Edge) (node : Node) : Prop :=
  node.Keeps {i | (i, path) ∈ log.visits} (path ∈ log.marks) {i | (i, path) ∈ log.ends}

/-- No lexeme after `i` is in the log. -/
structure UpTo (log : Log) (i : LexemeId) : Prop where
  visits : ∀ visit ∈ log.visits, visit.1 ≤ i
  ends : ∀ e ∈ log.ends, e.1 ≤ i

lemma UpTo.append {first second : Log} {i : LexemeId} (h : first.UpTo i) (h' : second.UpTo i) :
    (first ++ second).UpTo i where
  visits visit hvisit := (List.mem_append.1 hvisit).elim (h.visits visit) (h'.visits visit)
  ends e he := (List.mem_append.1 he).elim (h.ends e) (h'.ends e)

lemma UpTo.mono {log : Log} {i j : LexemeId} (h : log.UpTo i) (hij : i ≤ j) : log.UpTo j where
  visits visit hvisit := (h.visits visit hvisit).trans hij
  ends e he := (h.ends e he).trans hij

section Says

variable {log : Log} {i : LexemeId} {path other : List Edge} {node : Node}

/-- A later visit does not change who came first. -/
lemma Says.visit (h : log.Says path node) (hi : log.UpTo i) :
    (log ++ { visits := [(i, path)] } : Log).Says path node := by
  have hset : {j | (j, path) ∈ (log ++ { visits := [(i, path)] } : Log).visits} =
      insert i {j | (j, path) ∈ log.visits} := by
    ext j
    simp [or_comm]
  have hmin : min i node.owner = node.owner := min_eq_right (hi.visits _ h.owner.1)
  refine { h with owner := ?_, repeats_iff := ?_, fullMatch?_eq_none_iff := ?_, fullMatch := ?_ }
  · rw [hset, ← hmin]
    exact h.owner.insert i
  · simpa using h.repeats_iff
  · simpa using h.fullMatch?_eq_none_iff
  · simpa using h.fullMatch

lemma Says.visit_of_ne (h : log.Says path node) (hne : path ≠ other) :
    (log ++ { visits := [(i, other)] } : Log).Says path node := by
  simpa [Says, hne] using h

/-- The first visit to a path makes its node. -/
lemma says_visit (hvisits : ∀ j, (j, path) ∉ log.visits) (hmarks : path ∉ log.marks)
    (hends : ∀ j, (j, path) ∉ log.ends) {link? : Option Link} {name : String} :
    (log ++ { visits := [(i, path)] } : Log).Says path { link?, name, owner := i } := by
  have hset : {j | (j, path) ∈ (log ++ { visits := [(i, path)] } : Log).visits} = {i} := by
    ext j
    simp [hvisits]
  refine ⟨?_, by simpa using hmarks, by simpa using hends, by simp⟩
  rw [hset]
  exact isLeast_singleton

lemma Says.mark (h : log.Says path node) :
    (log ++ { marks := [path] } : Log).Says path { node with repeats := true } := by
  refine ⟨?_, by simp, ?_, ?_⟩
  · simpa using h.owner
  · simpa using h.fullMatch?_eq_none_iff
  · simpa using h.fullMatch

lemma Says.mark_of_ne (h : log.Says path node) (hne : path ≠ other) :
    (log ++ { marks := [other] } : Log).Says path node := by
  simpa [Says, hne] using h

/-- The last lexeme that ends with a path takes its node over. -/
lemma Says.end (h : log.Says path node) (hi : log.UpTo i) :
    (log ++ { ends := [(i, path)] } : Log).Says path { node with fullMatch? := some i } := by
  refine ⟨?_, ?_, ?_, ?_⟩
  · simpa using h.owner
  · simpa using h.repeats_iff
  · simpa using ⟨i, fun _ => rfl⟩
  · intro j hj
    cases hj
    refine ⟨by simp, ?_⟩
    intro j hj
    rcases List.mem_append.1 hj with hj | hj
    · exact hi.ends _ hj
    · exact (Prod.mk.inj (List.mem_singleton.1 hj)).1.le

lemma Says.end_of_ne (h : log.Says path node) (hne : path ≠ other) :
    (log ++ { ends := [(i, other)] } : Log).Says path node := by
  simpa [Says, hne] using h

end Says

/-! ## Logs of insertions -/

/-- The log of a lexeme that comes to stops one after the other. -/
def ofStops (i : LexemeId) (stops : List Stop) : Log where
  visits := stops.map fun stop => (i, stop.path)
  marks := (stops.filter (·.repeats)).map (·.path)

/-- The log of the insertion of several branches. -/
def ofBranches (i : LexemeId) (bs : List Branch) : Log :=
  .ofStops i (bs.flatMap (stopsAlong ·.steps)) ++
    { ends := (bs.filter (·.completes)).map fun b => (i, b.path) }

/-- The logs of the insertions of lexemes with consecutive numbers. -/
def ofEach (i : LexemeId) (lexemes : List Lexeme) : List Log :=
  (lexemes.zipIdx i).map fun (lexeme, j) => ofBranches j (Item.branchesOf lexeme.items)

/-- Several logs, one after the other. -/
def join (logs : List Log) : Log where
  visits := logs.flatMap (·.visits)
  marks := logs.flatMap (·.marks)
  ends := logs.flatMap (·.ends)

@[simp] lemma ofBranches_nil (i : LexemeId) : ofBranches i [] = {} :=
  rfl

lemma ofBranches_cons (i : LexemeId) (b : Branch) (bs : List Branch) :
    ofBranches i (b :: bs) = ofBranches i [b] ++ ofBranches i bs := by
  show Log.mk _ _ _ = Log.mk _ _ _
  by_cases h : b.completes = true <;> simp [ofBranches, ofStops, h]

lemma join_cons (log : Log) (logs : List Log) : join (log :: logs) = log ++ join logs :=
  rfl

lemma ofStops_cons (i : LexemeId) (stop : Stop) (stops : List Stop) :
    ofStops i (stop :: stops) = ofStops i [stop] ++ ofStops i stops := by
  show Log.mk _ _ _ = Log.mk _ _ _
  by_cases h : stop.repeats = true <;> simp [ofStops, h]

lemma upTo_ofStops (i : LexemeId) (stops : List Stop) : (ofStops i stops).UpTo i where
  visits := by simp [ofStops]
  ends := by simp [ofStops]

lemma upTo_ofBranches (i : LexemeId) (bs : List Branch) : (ofBranches i bs).UpTo i := by
  refine (upTo_ofStops i _).append ⟨by simp, ?_⟩
  intro e he
  obtain ⟨b, _, rfl⟩ := List.mem_map.1 he
  exact le_refl i

section OfItems

variable {i j : LexemeId} {items : List Item} {path : List Edge}

lemma mem_visits_ofBranches : (i, path) ∈ (ofBranches j (Item.branchesOf items)).visits ↔
    i = j ∧ ∃ stop ∈ Item.tour items, stop.path = path := by
  simp only [ofBranches, ofStops, visits_append, List.append_nil, List.mem_map, List.mem_flatMap,
    Prod.mk.injEq, Item.mem_tour_iff]
  grind

lemma mem_marks_ofBranches : path ∈ (ofBranches j (Item.branchesOf items)).marks ↔
    ∃ stop ∈ Item.tour items, stop.path = path ∧ stop.repeats = true := by
  simp only [ofBranches, ofStops, marks_append, List.append_nil, List.mem_map, List.mem_filter,
    List.mem_flatMap, Item.mem_tour_iff]
  grind

lemma mem_ends_ofBranches : (i, path) ∈ (ofBranches j (Item.branchesOf items)).ends ↔
    i = j ∧ Item.Ends items path := by
  simp only [ofBranches, ofStops, ends_append, List.nil_append, List.mem_map, List.mem_filter,
    Prod.mk.injEq, Item.ends_iff]
  grind

end OfItems

end Log

end Lexing
