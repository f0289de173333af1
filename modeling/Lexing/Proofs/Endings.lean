import Lexing.Proofs.Regrowth

/-!
# Where patterns end in a trie

When a pattern is inserted, its lexeme is let end at the nodes to which the branches lead that come
to the end of the pattern (`Trie.endings`).  At these nodes it ends afterwards, except at the root,
which is passed over, and nothing else changes about what ends where (`Trie.endAt?_insert`).

What holds of a trie with a root goes on to hold if each change of a node keeps it (`Trie.Kept`).  So
no edge of a trie leads to its root, whatever was inserted into it (`Trie.Built.rooted`).  Hence a
branch leads to the root only if it has no steps at all, and the lines to the end of a pattern tell
whether it ends at the root (`Trie.Rooted.rootId_mem_endings_iff`) and whether it ends anywhere else
(`Trie.Rooted.exists_mem_endings_iff`).
-/

namespace Lexing

open Pattern (Item)

namespace Trie

variable {t : Trie} {owner : LexemeId} {id other parent : NodeId} {step : BranchStep}
  {steps : List BranchStep} {b : Branch} {bs : List Branch} {items : List Item}

/-! ## What ends where -/

/-- The nodes at which the lexeme is let end while the branches are inserted one after the other:
for each branch that completes, the node to which it leads. -/
def endings (t : Trie) (owner : LexemeId) : List Branch → List NodeId
  | [] => []
  | b :: bs =>
    (if b.completes then [(t.walk owner rootId b.steps).1] else []) ++
      endings (t.insertBranch owner b) owner bs

lemma mem_endings_cons : id ∈ t.endings owner (b :: bs) ↔
    b.completes = true ∧ id = (t.walk owner rootId b.steps).1 ∨
      id ∈ (t.insertBranch owner b).endings owner bs := by
  rw [endings, List.mem_append]
  by_cases hcompletes : b.completes = true <;> simp [hcompletes]

lemma endAt?_modify (t : Trie) {f : Node → Node}
    (hf : ∀ node, (f node).fullMatch? = node.fullMatch?) (id other : NodeId) :
    endAt? { nodes := t.nodes.modify id f } other = t.endAt? other :=
  t.read_node?_modify (·.bind (·.fullMatch?)) hf id other

/-- Nothing ends at a new node. -/
lemma endAt?_push (t : Trie) {node : Node} (hnode : node.fullMatch? = none) (id : NodeId) :
    endAt? { nodes := t.nodes.push node } id = t.endAt? id := by
  rw [endAt?, endAt?, node?, node?, Array.getElem?_push]
  split
  · rename_i hid
    rw [hid, Array.getElem?_size]
    exact hnode
  · rfl

lemma endAt?_takeStep (t : Trie) (owner : LexemeId) (parent : NodeId) (step : BranchStep)
    (id : NodeId) : (t.takeStep owner parent step).2.endAt? id = t.endAt? id := by
  have hchild : (t.findOrAddChild owner parent step.edge).2.endAt? id = t.endAt? id := by
    unfold findOrAddChild
    split
    · rfl
    · exact endAt?_push t rfl id
  unfold takeStep
  dsimp only
  split
  · rw [markRepeat, endAt?_modify, hchild]
    exact fun _ => rfl
  · exact hchild

/-- Going along the steps of a branch lets nothing end. -/
lemma endAt?_walk (t : Trie) (owner : LexemeId) (start : NodeId) (steps : List BranchStep)
    (id : NodeId) : (t.walk owner start steps).2.endAt? id = t.endAt? id := by
  induction steps generalizing t start with
  | nil => rfl
  | cons step steps ih => exact (ih ..).trans (endAt?_takeStep ..)

lemma endAt?_complete_eq_ite (hid : id ≠ rootId → id < t.size) :
    (t.complete owner id).endAt? other =
      if other = id ∧ other ≠ rootId then some owner else t.endAt? other := by
  by_cases hroot : id = rootId
  · rw [complete, if_pos hroot, if_neg]
    rintro ⟨rfl, hne⟩
    exact hne hroot
  · by_cases hother : other = id
    · subst hother
      rw [if_pos ⟨rfl, hroot⟩, endAt?_complete (hid hroot) hroot]
    · rw [if_neg fun h => hother h.1, complete, if_neg hroot, endAt?, endAt?, node?, node?,
        Array.getElem?_modify, if_neg (Ne.symm hother)]

/-- Where a branch leads there is a node, if it is not the root from which it starts. -/
lemma walk_lt_size (h : (t.walk owner rootId steps).1 ≠ rootId) :
    (t.walk owner rootId steps).1 < (t.walk owner rootId steps).2.size := by
  refine (t.along_walk owner rootId steps).lt_size ?_
  rintro rfl
  exact h rfl

lemma endAt?_insertBranch (t : Trie) (owner : LexemeId) (b : Branch) (id : NodeId) :
    (t.insertBranch owner b).endAt? id =
      if b.completes = true ∧ id = (t.walk owner rootId b.steps).1 ∧ id ≠ rootId then some owner
      else t.endAt? id := by
  unfold insertBranch
  by_cases hcompletes : b.completes = true
  · simp [hcompletes, endAt?_complete_eq_ite walk_lt_size, endAt?_walk]
  · simp [hcompletes, endAt?_walk]

lemma endAt?_foldl_insertBranch (t : Trie) (owner : LexemeId) (bs : List Branch) (id : NodeId) :
    (bs.foldl (·.insertBranch owner) t).endAt? id =
      if id ∈ t.endings owner bs ∧ id ≠ rootId then some owner else t.endAt? id := by
  induction bs generalizing t with
  | nil => simp [endings]
  | cons b bs ih =>
    rw [List.foldl_cons, ih, endAt?_insertBranch]
    -- what the later branches let end here decides, then this branch, then what was there before
    simp only [mem_endings_cons]
    split_ifs <;> grind

/-- The lexeme ends at the nodes at which it was let end, except at the root, and what ends at other
nodes stays as it was. -/
lemma endAt?_insert (t : Trie) (owner : LexemeId) (items : List Item) (id : NodeId) :
    (t.insert owner items).endAt? id =
      if id ∈ t.endings owner (Item.branchesOf items) ∧ id ≠ rootId then some owner
      else t.endAt? id :=
  endAt?_foldl_insertBranch ..

/-! ## What insertion keeps -/

/-- Tries with the property have a root, and whatever insertion does to the nodes keeps it: a node is
changed, but neither its link nor its name, or a node is made and named after all that there are. -/
structure Kept (P : Trie → Prop) : Prop where
  size_pos : ∀ {t : Trie}, P t → 0 < t.size
  modify : ∀ {t : Trie} {f : Node → Node}, P t → (∀ node, (f node).link? = node.link?) →
    (∀ node, (f node).name = node.name) → ∀ id, P { nodes := t.nodes.modify id f }
  push : ∀ {t : Trie} {parent : NodeId} {edge : Edge} {node : Node}, P t → parent < t.size →
    node.link? = some { parent, edge } → node.name = t.childName parent edge →
    P { nodes := t.nodes.push node }

namespace Kept

variable {P : Trie → Prop}

lemma findOrAddChild (hP : Kept P) (h : P t) (hparent : parent < t.size) (owner : LexemeId)
    (edge : Edge) : P (t.findOrAddChild owner parent edge).2 ∧
      (t.findOrAddChild owner parent edge).1 < (t.findOrAddChild owner parent edge).2.size := by
  unfold Trie.findOrAddChild
  split
  · rename_i hchild
    exact ⟨h, lt_size_of_child? hchild⟩
  · exact ⟨hP.push h hparent rfl rfl, by simp [size]⟩

lemma takeStep (hP : Kept P) (h : P t) (hparent : parent < t.size) (owner : LexemeId)
    (step : BranchStep) : P (t.takeStep owner parent step).2 ∧
      (t.takeStep owner parent step).1 < (t.takeStep owner parent step).2.size := by
  obtain ⟨hchild, hlt⟩ := hP.findOrAddChild h hparent owner step.edge
  unfold Trie.takeStep
  dsimp only
  split
  · refine ⟨hP.modify hchild ?_ ?_ _, by simpa [markRepeat, size] using hlt⟩
    · exact fun _ => rfl
    · exact fun _ => rfl
  · exact ⟨hchild, hlt⟩

lemma walk (hP : Kept P) (h : P t) {start : NodeId} (hstart : start < t.size) (owner : LexemeId)
    (steps : List BranchStep) : P (t.walk owner start steps).2 := by
  induction steps generalizing t start with
  | nil => exact h
  | cons step steps ih =>
    obtain ⟨hnext, hlt⟩ := hP.takeStep h hstart owner step
    exact ih hnext hlt

lemma insertBranch (hP : Kept P) (h : P t) (owner : LexemeId) (b : Branch) :
    P (t.insertBranch owner b) := by
  have hwalk := hP.walk h (hP.size_pos h) owner b.steps
  unfold Trie.insertBranch complete
  dsimp only
  split
  · split
    · exact hwalk
    · refine hP.modify hwalk ?_ ?_ _
      · exact fun _ => rfl
      · exact fun _ => rfl
  · exact hwalk

lemma insert (hP : Kept P) (h : P t) (owner : LexemeId) (items : List Item) :
    P (t.insert owner items) := by
  unfold Trie.insert
  generalize Item.branchesOf items = bs
  induction bs generalizing t with
  | nil => exact h
  | cons b bs ih => exact ih (hP.insertBranch h owner b)

lemma insertAll (hP : Kept P) (h : P t) (i : LexemeId) (lexemes : List Lexeme) :
    P (t.insertAll i lexemes) := by
  induction lexemes generalizing t i with
  | nil => exact h
  | cons lexeme lexemes ih => exact ih (hP.insert h i lexeme.items) (i + 1)

end Kept

/-! ## The root -/

/-- The root is there, and no edge leads to it. -/
structure Rooted (t : Trie) : Prop where
  size_pos : 0 < t.size
  linkAt?_rootId : t.linkAt? rootId = none

/-- The tries that are made by inserting patterns. -/
inductive Built : Trie → Prop
  | new (owner : LexemeId) : Built (.new owner)
  | insert {t : Trie} (owner : LexemeId) (items : List Item) (h : Built t) :
      Built (t.insert owner items)

lemma kept_rooted : Kept Rooted where
  size_pos h := h.size_pos
  modify {t f} h hlink _ id :=
    ⟨by simpa [size] using h.size_pos, (linkAt?_modify t hlink ..).trans h.linkAt?_rootId⟩
  push h _ _ _ :=
    ⟨by simp [size], (linkAt?_push_of_lt _ h.size_pos).trans h.linkAt?_rootId⟩

lemma rooted_new (owner : LexemeId) : (new owner).Rooted :=
  ⟨by simp [new, size], rfl⟩

lemma Built.rooted (h : t.Built) : t.Rooted := by
  induction h with
  | new owner => exact rooted_new owner
  | insert owner items _ ih => exact kept_rooted.insert ih owner items

/-- Steps that lead somewhere do not lead to the root. -/
lemma Along.ne_rootId {start last : NodeId} (h : t.Along start steps last) (ht : t.Rooted)
    (hne : steps ≠ []) : last ≠ rootId := by
  induction h with
  | nil => exact absurd rfl hne
  | @cons _ next _ _ steps hchild _ h ih =>
    cases h with
    | nil =>
      rintro rfl
      have hlink := (child?_eq_some_iff.1 hchild).1
      rw [ht.linkAt?_rootId] at hlink
      cases hlink
    | cons => exact ih (by simp)

namespace Rooted

/-- From the root only a branch without steps leads to the root. -/
lemma walk_eq_rootId_iff (h : t.Rooted) :
    (t.walk owner rootId steps).1 = rootId ↔ steps = [] := by
  constructor
  · intro hroot
    by_contra hne
    have hwalk := kept_rooted.walk h h.size_pos owner steps
    exact (t.along_walk owner rootId steps).ne_rootId hwalk hne hroot
  · rintro rfl
    rfl

lemma mem_endings (h : t.Rooted) (hid : id ∈ t.endings owner bs) :
    ∃ b ∈ bs, b.completes = true ∧ (id = rootId ↔ b.steps = []) := by
  induction bs generalizing t with
  | nil => cases hid
  | cons b bs ih =>
    rcases mem_endings_cons.1 hid with ⟨hcompletes, rfl⟩ | hlater
    · exact ⟨b, List.mem_cons_self, hcompletes, h.walk_eq_rootId_iff⟩
    · obtain ⟨b', hb', hends⟩ := ih (kept_rooted.insertBranch h owner b) hlater
      exact ⟨b', List.mem_cons_of_mem b hb', hends⟩

lemma exists_mem_endings (h : t.Rooted) (hb : b ∈ bs) (hcompletes : b.completes = true) :
    ∃ id ∈ t.endings owner bs, (id = rootId ↔ b.steps = []) := by
  induction bs generalizing t with
  | nil => cases hb
  | cons first bs ih =>
    rcases List.mem_cons.1 hb with rfl | hb
    · exact ⟨_, mem_endings_cons.2 (.inl ⟨hcompletes, rfl⟩), h.walk_eq_rootId_iff⟩
    · obtain ⟨id, hid, hroot⟩ := ih (kept_rooted.insertBranch h owner first) hb
      exact ⟨id, mem_endings_cons.2 (.inr hid), hroot⟩

/-- A pattern is let end at the root if and only if it has a line of no edges to its end. -/
lemma rootId_mem_endings_iff (h : t.Rooted) :
    rootId ∈ t.endings owner (Item.branchesOf items) ↔ Item.Ends items [] := by
  rw [Item.ends_iff]
  constructor
  · intro hroot
    obtain ⟨b, hb, hcompletes, hsteps⟩ := h.mem_endings hroot
    exact ⟨b, hb, hcompletes, List.map_eq_nil_iff.2 (hsteps.1 rfl)⟩
  · rintro ⟨b, hb, hcompletes, hpath⟩
    obtain ⟨id, hid, hroot⟩ := h.exists_mem_endings hb hcompletes
    rwa [hroot.2 (List.map_eq_nil_iff.1 hpath)] at hid

/-- It is let end anywhere else if and only if it has a line of at least one edge to its end. -/
lemma exists_mem_endings_iff (h : t.Rooted) (owner : LexemeId) :
    (∃ id ∈ t.endings owner (Item.branchesOf items), id ≠ rootId) ↔
      ∃ path, path ≠ [] ∧ Item.Ends items path := by
  constructor
  · rintro ⟨id, hid, hroot⟩
    obtain ⟨b, hb, hcompletes, hsteps⟩ := h.mem_endings hid
    have hpath : b.path ≠ [] := fun hnil => hroot (hsteps.2 (List.map_eq_nil_iff.1 hnil))
    exact ⟨b.path, hpath, Item.ends_iff.2 ⟨b, hb, hcompletes, rfl⟩⟩
  · rintro ⟨path, hpath, hends⟩
    obtain ⟨b, hb, hcompletes, rfl⟩ := Item.ends_iff.1 hends
    obtain ⟨id, hid, hroot⟩ := h.exists_mem_endings hb hcompletes
    exact ⟨id, hid, fun hid => hpath (List.map_eq_nil_iff.2 (hroot.1 hid))⟩

end Rooted

end Trie

end Lexing
