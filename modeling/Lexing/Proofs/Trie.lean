import Lexing.Trie
import Mathlib.Tactic.Lemma

/-!
# How tries grow

A trie changes in three ways only: a child is found or added, a node is marked as a repeat point,
and a lexeme is made to end at a node.  `Trie.Grown` lists them, with what holds of their arguments
when the patterns of a lexicon are inserted; `grown_ofLexicon` says that the trie of a lexicon comes
about in this way, whatever options and groups its patterns have.

An invariant of tries is then an induction over the three changes.  The one proved here is
`Trie.Fits`: the root and no other node lacks a link, the edges are those of elements of the
lexicon, and the lexemes that end at nodes are lexemes of the lexicon.
-/

namespace Lexing

/-! ## The edges of branches -/

namespace Pattern.Item

open Branch (followedBy)

lemma mem_steps_of_mem_followedBy {b c : Branch} {rest : List Branch} {step : BranchStep}
    (hc : c ∈ b.followedBy rest) (hstep : step ∈ c.steps) :
    step ∈ b.steps ∨ ∃ r ∈ rest, step ∈ r.steps := by
  unfold followedBy at hc
  split at hc
  · obtain ⟨r, hr, rfl⟩ := List.mem_map.1 hc
    rcases List.mem_append.1 hstep with hb | hr'
    · exact .inl hb
    · exact .inr ⟨r, hr, hr'⟩
  · rw [List.mem_singleton] at hc
    exact .inl (hc ▸ hstep)

mutual

/-- Each step of a branch is along the edge of an element of the item. -/
theorem edge_of_mem_branches (item : Item) {b : Branch} {step : BranchStep}
    (hb : b ∈ branches item) (hstep : step ∈ b.steps) :
    ∃ e ∈ elements item, step.edge = .ofElement e := by
  match item with
  | element e =>
    refine ⟨e, by simp [elements], ?_⟩
    have hb : b = .ofElement e ∨ b = .done := by
      unfold branches at hb
      split at hb <;> simp_all
    rcases hb with rfl | rfl
    · rw [Branch.ofElement, List.mem_singleton] at hstep
      rw [hstep]
    · simp [Branch.done] at hstep
  | group [] => simp_all [branches, Branch.dead]
  | group (alternative :: alternatives) =>
    simpa [elements] using edge_of_mem_branchesOfEach _ (by simpa [branches] using hb) hstep

theorem edge_of_mem_branchesOf (items : List Item) {b : Branch} {step : BranchStep}
    (hb : b ∈ branchesOf items) (hstep : step ∈ b.steps) :
    ∃ e ∈ elementsOf items, step.edge = .ofElement e := by
  match items with
  | [] => simp_all [branchesOf, Branch.done]
  | item :: items =>
    rw [branchesOf, List.mem_flatMap] at hb
    obtain ⟨first, hfirst, hb⟩ := hb
    rw [elementsOf]
    rcases mem_steps_of_mem_followedBy hb hstep with hstep | ⟨r, hr, hstep⟩
    · obtain ⟨e, he, hedge⟩ := edge_of_mem_branches item hfirst hstep
      exact ⟨e, List.mem_append_left _ he, hedge⟩
    · obtain ⟨e, he, hedge⟩ := edge_of_mem_branchesOf items hr hstep
      exact ⟨e, List.mem_append_right _ he, hedge⟩

theorem edge_of_mem_branchesOfEach (alternatives : List (List Item)) {b : Branch}
    {step : BranchStep} (hb : b ∈ branchesOfEach alternatives) (hstep : step ∈ b.steps) :
    ∃ e ∈ elementsOfEach alternatives, step.edge = .ofElement e := by
  match alternatives with
  | [] => simp [branchesOfEach] at hb
  | alternative :: alternatives =>
    rw [branchesOfEach, List.mem_append] at hb
    rw [elementsOfEach]
    rcases hb with hb | hb
    · obtain ⟨e, he, hedge⟩ := edge_of_mem_branchesOf alternative hb hstep
      exact ⟨e, List.mem_append_left _ he, hedge⟩
    · obtain ⟨e, he, hedge⟩ := edge_of_mem_branchesOfEach alternatives hb hstep
      exact ⟨e, List.mem_append_right _ he, hedge⟩

end

end Pattern.Item

/-! ## Lexemes of a lexicon -/

lemma Lexicon.exists_lexeme?_of_lt {l : Lexicon} {id : LexemeId} (h : id < l.size) :
    ∃ lexeme, l.lexeme? id = some lexeme :=
  ⟨l.lexemes[id], List.getElem?_eq_getElem h⟩

namespace Trie

variable {l : Lexicon} {t : Trie}

/-! ## The three changes -/

/-- The tries that come about when patterns of `l` are inserted, one change at a time. -/
inductive Grown (l : Lexicon) : Trie → Prop where
  | new : Grown l (.new defaultId)
  | findOrAddChild {t : Trie} {owner : LexemeId} {parent : NodeId} {e : Pattern.Element}
      (h : Grown l t) (ho : owner < l.size) (he : e ∈ l.elements) :
      Grown l (t.findOrAddChild owner parent (.ofElement e)).2
  | markRepeat {t : Trie} {id : NodeId} (h : Grown l t) : Grown l (t.markRepeat id)
  | complete {t : Trie} {owner : LexemeId} {id : NodeId} (h : Grown l t) (ho : owner < l.size) :
      Grown l (t.complete owner id)

lemma Grown.takeStep (h : t.Grown l) {owner : LexemeId} {parent : NodeId} {step : BranchStep}
    (ho : owner < l.size) (hstep : ∃ e ∈ l.elements, step.edge = .ofElement e) :
    (t.takeStep owner parent step).2.Grown l := by
  obtain ⟨e, he, hedge⟩ := hstep
  unfold Trie.takeStep
  rw [hedge]
  dsimp only
  split
  · exact (h.findOrAddChild ho he).markRepeat
  · exact h.findOrAddChild ho he

lemma Grown.walk (h : t.Grown l) {owner : LexemeId} (ho : owner < l.size) {start : NodeId}
    {steps : List BranchStep}
    (hsteps : ∀ step ∈ steps, ∃ e ∈ l.elements, step.edge = .ofElement e) :
    (t.walk owner start steps).2.Grown l := by
  induction steps generalizing t start with
  | nil => exact h
  | cons step steps ih =>
    rw [List.forall_mem_cons] at hsteps
    exact ih (h.takeStep ho hsteps.1) hsteps.2

lemma Grown.insertBranch (h : t.Grown l) {owner : LexemeId} (ho : owner < l.size) {b : Branch}
    (hb : ∀ step ∈ b.steps, ∃ e ∈ l.elements, step.edge = .ofElement e) :
    (t.insertBranch owner b).Grown l := by
  unfold Trie.insertBranch
  dsimp only
  split
  · exact (h.walk ho hb).complete ho
  · exact h.walk ho hb

lemma Grown.insert (h : t.Grown l) {owner : LexemeId} (ho : owner < l.size)
    {items : List Pattern.Item} (hitems : Pattern.Item.elementsOf items ⊆ l.elements) :
    (t.insert owner items).Grown l := by
  have hbranches : ∀ b ∈ Pattern.Item.branchesOf items, ∀ step ∈ b.steps,
      ∃ e ∈ l.elements, step.edge = .ofElement e := by
    intro b hb step hstep
    obtain ⟨e, he, hedge⟩ := Pattern.Item.edge_of_mem_branchesOf items hb hstep
    exact ⟨e, hitems he, hedge⟩
  unfold Trie.insert
  generalize Pattern.Item.branchesOf items = branches at hbranches
  induction branches generalizing t with
  | nil => exact h
  | cons b branches ih =>
    rw [List.forall_mem_cons] at hbranches
    exact ih (h.insertBranch ho hbranches.1) hbranches.2

lemma Grown.insertAll (h : t.Grown l) {id : Nat} {lexemes : List Lexeme}
    (hid : id + lexemes.length ≤ l.size) (hlexemes : lexemes ⊆ l.patternLexemes) :
    (t.insertAll id lexemes).Grown l := by
  induction lexemes generalizing t id with
  | nil => exact h
  | cons lexeme lexemes ih =>
    rw [List.length_cons] at hid
    rw [List.cons_subset] at hlexemes
    have howner : id < l.size := by omega
    have hitems : Pattern.Item.elementsOf lexeme.items ⊆ l.elements := fun e he =>
      List.mem_flatMap.2 ⟨lexeme, hlexemes.1, he⟩
    have hrest : id + 1 + lexemes.length ≤ l.size := by omega
    exact ih (h.insert howner hitems) hrest hlexemes.2

theorem grown_ofLexicon (l : Lexicon) : (ofLexicon l).Grown l := by
  refine Grown.new.insertAll ?_ (List.Subset.refl _)
  simp [Lexicon.size, Lexicon.lexemes, defaultId, Nat.add_comm]

/-! ## Nodes after a change -/

/-- A step to a child leaves the nodes that there are as they are, and adds at most one node, which
no lexeme ends at yet. -/
lemma node?_findOrAddChild {owner : LexemeId} {parent id : NodeId} {edge : Edge} {node : Node}
    (h : (t.findOrAddChild owner parent edge).2.node? id = some node) :
    t.node? id = some node ∨
      id = t.size ∧ node.link? = some { parent, edge } ∧ node.fullMatch? = none := by
  unfold findOrAddChild at h
  split at h
  · exact .inl h
  · rw [node?, Array.getElem?_push] at h
    split at h
    · rename_i hid
      cases h
      exact .inr ⟨hid, rfl, rfl⟩
    · exact .inl h

/-- A mark leaves the number of nodes and all but the mark as it was. -/
lemma node?_markRepeat {marked id : NodeId} {node : Node}
    (h : (t.markRepeat marked).node? id = some node) :
    ∃ old, t.node? id = some old ∧ node.link? = old.link? ∧ node.fullMatch? = old.fullMatch? := by
  rw [markRepeat, node?, Array.getElem?_modify] at h
  split at h
  · obtain ⟨old, hold, rfl⟩ := Option.map_eq_some_iff.1 h
    exact ⟨old, hold, rfl, rfl⟩
  · exact ⟨node, h, rfl, rfl⟩

/-- Letting a lexeme end at a node changes no link, and no end but to that lexeme. -/
lemma node?_complete {owner : LexemeId} {completed id : NodeId} {node : Node}
    (h : (t.complete owner completed).node? id = some node) :
    ∃ old, t.node? id = some old ∧ node.link? = old.link? ∧
      (node.fullMatch? = old.fullMatch? ∨ node.fullMatch? = some owner) := by
  unfold complete at h
  split at h
  · exact ⟨node, h, rfl, .inl rfl⟩
  · rw [node?, Array.getElem?_modify] at h
    split at h
    · obtain ⟨old, hold, rfl⟩ := Option.map_eq_some_iff.1 h
      exact ⟨old, hold, rfl, .inr rfl⟩
    · exact ⟨node, h, rfl, .inl rfl⟩

lemma size_le_findOrAddChild (t : Trie) (owner : LexemeId) (parent : NodeId) (edge : Edge) :
    t.size ≤ (t.findOrAddChild owner parent edge).2.size := by
  unfold findOrAddChild
  split <;> simp [size]

@[simp] lemma size_markRepeat (t : Trie) (id : NodeId) : (t.markRepeat id).size = t.size := by
  simp [markRepeat, size]

@[simp] lemma size_complete (t : Trie) (owner : LexemeId) (id : NodeId) :
    (t.complete owner id).size = t.size := by
  unfold complete
  split <;> simp [size]

/-! ## Tries that fit a lexicon -/

/-- What the number and the fields of a node have to do with each other and with the lexicon. -/
structure NodeFits (l : Lexicon) (id : NodeId) (node : Node) : Prop where
  link?_eq_none_iff : node.link? = none ↔ id = rootId
  edge : ∀ link ∈ node.link?, ∃ e ∈ l.elements, link.edge = .ofElement e
  fullMatch : ∀ lexeme ∈ node.fullMatch?, lexeme < l.size

/-- The trie has a root, and all its nodes fit. -/
structure Fits (t : Trie) (l : Lexicon) : Prop where
  size_pos : 0 < t.size
  node : ∀ id node, t.node? id = some node → NodeFits l id node

lemma Grown.fits (h : t.Grown l) : t.Fits l := by
  induction h with
  | new =>
    refine ⟨by simp [Trie.new, size], ?_⟩
    intro id node hnode
    rw [Trie.new, node?, Array.getElem?_singleton] at hnode
    split at hnode
    · rename_i hid
      cases hnode
      exact ⟨by simp [hid, rootId], by simp, by simp⟩
    · cases hnode
  | @findOrAddChild t owner parent e _ ho he ih =>
    refine ⟨Nat.lt_of_lt_of_le ih.size_pos (size_le_findOrAddChild ..), ?_⟩
    intro id node hnode
    rcases node?_findOrAddChild hnode with hold | ⟨hid, hlink, hfull⟩
    · exact ih.node id node hold
    · have hroot : id ≠ rootId := hid ▸ Nat.ne_of_gt ih.size_pos
      refine ⟨by simp [hlink, hroot], ?_, by simp [hfull]⟩
      intro link hl
      obtain rfl : { parent, edge := .ofElement e } = link := by simpa [hlink] using hl
      exact ⟨e, he, rfl⟩
  | markRepeat _ ih =>
    refine ⟨by simpa using ih.size_pos, ?_⟩
    intro id node hnode
    obtain ⟨old, hold, hlink, hfull⟩ := node?_markRepeat hnode
    obtain ⟨h₁, h₂, h₃⟩ := ih.node id old hold
    exact ⟨hlink ▸ h₁, hlink ▸ h₂, hfull ▸ h₃⟩
  | complete _ ho ih =>
    refine ⟨by simpa using ih.size_pos, ?_⟩
    intro id node hnode
    obtain ⟨old, hold, hlink, hfull⟩ := node?_complete hnode
    obtain ⟨h₁, h₂, h₃⟩ := ih.node id old hold
    refine ⟨hlink ▸ h₁, hlink ▸ h₂, ?_⟩
    rcases hfull with hfull | hfull
    · exact hfull ▸ h₃
    · simpa [hfull] using ho

theorem fits_ofLexicon (l : Lexicon) : (ofLexicon l).Fits l :=
  (grown_ofLexicon l).fits

end Trie

end Lexing
