import Lexing.Proofs.Tour
import Lexing.Proofs.Walker

/-!
# Inserting what is there already

A trie grows and never forgets.  What a lexeme has put into it stays there as long as only the same
lexeme comes along: the children, the marks, and the ends of the lexeme (`Trie.Retains`).  A branch
of which all this is there already (`Trie.Holds`) changes nothing when it is inserted.

Two things follow, for any trie whatever.  It does not matter if branches are inserted more than
once (`insertBranches_eraseDups`).  And a branch can be inserted bit by bit: for each of its steps
the branch that ends with this step, and last of all the end (`insertBranchAt_eq_stations`).
-/

namespace Lexing

/-! ## Stations of branches -/

namespace Branch

/-- The branch that goes along the edge and then on with `b`. -/
def below (edge : Edge) (b : Branch) : Branch :=
  { b with steps := { edge, repeats := false } :: b.steps }

/-- The branch of a single step, which ends short of the end of the pattern. -/
def hop (step : BranchStep) : Branch :=
  { steps := [step], completes := false }

/-- The stations of steps that are taken one after the other, and of the end if it is reached. -/
def stationsAlong (completes : Bool) : List BranchStep → List Branch
  | [] => if completes then [.done] else []
  | step :: steps => hop step :: (stationsAlong completes steps).map (below step.edge)

/-- What there is to be done for a branch, bit by bit: each step by itself, at the end of the way to
it, and then the end. -/
def stations (b : Branch) : List Branch :=
  stationsAlong b.completes b.steps

end Branch

namespace Trie

variable {t u v : Trie} {owner : LexemeId} {start id parent next last : NodeId} {edge : Edge}
  {step : BranchStep} {steps : List BranchStep} {b : Branch} {bs : List Branch}

/-! ## Links -/

/-- How a node is reached, if it is there and is not the root. -/
def linkAt? (t : Trie) (id : NodeId) : Option Link :=
  (t.node? id).bind (·.link?)

/-- What does not see the change of a node sees the same afterwards. -/
lemma read_node?_modify {β : Type*} (t : Trie) (read : Option Node → β) {f : Node → Node}
    (hread : ∀ node, read (some (f node)) = read (some node)) (id other : NodeId) :
    read (node? { nodes := t.nodes.modify id f } other) = read (t.node? other) := by
  rw [node?, node?, Array.getElem?_modify]
  by_cases h : id = other
  · cases t.nodes[other]? <;> simp [h, hread]
  · rw [if_neg h]

lemma linkAt?_modify (t : Trie) {f : Node → Node} (hf : ∀ node, (f node).link? = node.link?)
    (id other : NodeId) :
    linkAt? { nodes := t.nodes.modify id f } other = t.linkAt? other :=
  t.read_node?_modify (·.bind (·.link?)) hf id other

lemma node?_push_of_lt (node : Node) (hid : id < t.size) :
    node? { nodes := t.nodes.push node } id = t.node? id := by
  have hne : id ≠ t.nodes.size := Nat.ne_of_lt hid
  rw [node?, Array.getElem?_push, if_neg hne, node?]

lemma linkAt?_push_of_lt (node : Node) (hid : id < t.size) :
    linkAt? { nodes := t.nodes.push node } id = t.linkAt? id := by
  rw [linkAt?, node?_push_of_lt node hid, linkAt?]

lemma lt_size_of_linkAt? {link : Link} (h : t.linkAt? id = some link) : id < t.size := by
  obtain ⟨node, hnode, _⟩ := Option.bind_eq_some_iff.1 h
  exact (Array.getElem?_eq_some_iff.1 hnode).1

lemma linkAt?_of_lt (hid : id < t.nodes.size) : t.linkAt? id = t.nodes[id].link? := by
  rw [linkAt?, node?, Array.getElem?_eq_getElem hid, Option.bind_some]

/-- A child is the first node with its link. -/
lemma child?_eq_some_iff : t.child? parent edge = some id ↔
    t.linkAt? id = some { parent, edge } ∧ ∀ k < id, t.linkAt? k ≠ some { parent, edge } := by
  rw [child?, Array.findIdx?_eq_some_iff_getElem]
  constructor
  · rintro ⟨hlt, hhere, hbefore⟩
    refine ⟨(linkAt?_of_lt hlt).trans (of_decide_eq_true hhere), fun k hk hthere => hbefore k hk ?_⟩
    exact decide_eq_true ((linkAt?_of_lt (Nat.lt_trans hk hlt)).symm.trans hthere)
  · rintro ⟨hhere, hbefore⟩
    have hlt := lt_size_of_linkAt? hhere
    refine ⟨hlt, decide_eq_true ((linkAt?_of_lt hlt).symm.trans hhere), fun k hk hthere => ?_⟩
    exact hbefore k hk ((linkAt?_of_lt (Nat.lt_trans hk hlt)).trans (of_decide_eq_true hthere))

lemma linkAt?_ne_of_child?_eq_none (h : t.child? parent edge = none) (hid : id < t.size) :
    t.linkAt? id ≠ some { parent, edge } := by
  rw [child?, Array.findIdx?_eq_none_iff] at h
  rw [linkAt?_of_lt hid]
  exact of_decide_eq_false (h _ (Array.getElem_mem hid))

lemma lt_size_of_child? (h : t.child? parent edge = some id) : id < t.size :=
  lt_size_of_linkAt? (child?_eq_some_iff.1 h).1

/-! ## What is retained -/

/-- The lexeme that ends at a node. -/
def endAt? (t : Trie) (id : NodeId) : Option LexemeId :=
  (t.node? id).bind (·.fullMatch?)

/-- What there is of a lexeme in `t` is still there in `u`. -/
structure Retains (t u : Trie) (owner : LexemeId) : Prop where
  child : ∀ {parent edge id}, t.child? parent edge = some id → u.child? parent edge = some id
  mark : ∀ {id}, t.repeatsAt id = true → u.repeatsAt id = true
  ends : ∀ {id}, t.endAt? id = some owner → u.endAt? id = some owner

namespace Retains

lemma refl (t : Trie) (owner : LexemeId) : t.Retains t owner :=
  ⟨id, id, id⟩

lemma trans (h : t.Retains u owner) (h' : u.Retains v owner) : t.Retains v owner :=
  ⟨h'.child ∘ h.child, h'.mark ∘ h.mark, h'.ends ∘ h.ends⟩

/-- A change of one node that keeps its link and takes nothing of the lexeme away. -/
lemma modify (t : Trie) (owner : LexemeId) (id : NodeId) {f : Node → Node}
    (hlink : ∀ node, (f node).link? = node.link?)
    (hmark : ∀ node, node.repeats = true → (f node).repeats = true)
    (hends : ∀ node, node.fullMatch? = some owner → (f node).fullMatch? = some owner) :
    t.Retains { nodes := t.nodes.modify id f } owner where
  child h := by simpa only [child?_eq_some_iff, linkAt?_modify t hlink] using h
  mark {other} h := by
    rw [repeatsAt, node?, Array.getElem?_modify]
    cases hnode : t.nodes[other]? with
    | none => simp [repeatsAt, node?, hnode] at h
    | some node =>
      have hmarked : node.repeats = true := by simpa [repeatsAt, node?, hnode] using h
      split <;> simp [hmarked, hmark]
  ends {other} h := by
    rw [endAt?, node?, Array.getElem?_modify]
    cases hnode : t.nodes[other]? with
    | none => simp [endAt?, node?, hnode] at h
    | some node =>
      have hended : node.fullMatch? = some owner := by simpa [endAt?, node?, hnode] using h
      split <;> simp [hended, hends]

lemma push (t : Trie) (owner : LexemeId) (node : Node) :
    t.Retains { nodes := t.nodes.push node } owner where
  child h := by
    have hlt := lt_size_of_child? h
    rw [child?_eq_some_iff] at h ⊢
    refine ⟨(linkAt?_push_of_lt node hlt).trans h.1, fun k hk => ?_⟩
    rw [linkAt?_push_of_lt node (Nat.lt_trans hk hlt)]
    exact h.2 k hk
  mark {id} h := by
    obtain ⟨old, hold, _⟩ := (Option.any_eq_true ..).1 h
    rwa [repeatsAt, node?_push_of_lt node (Array.getElem?_eq_some_iff.1 hold).1]
  ends {id} h := by
    obtain ⟨old, hold, _⟩ := Option.bind_eq_some_iff.1 h
    rwa [endAt?, node?_push_of_lt node (Array.getElem?_eq_some_iff.1 hold).1]

lemma findOrAddChild (t : Trie) (owner : LexemeId) (parent : NodeId) (edge : Edge) :
    t.Retains (t.findOrAddChild owner parent edge).2 owner := by
  unfold Trie.findOrAddChild
  split
  · exact refl t owner
  · exact push t owner _

lemma markRepeat (t : Trie) (owner : LexemeId) (id : NodeId) :
    t.Retains (t.markRepeat id) owner :=
  modify t owner id (fun _ => rfl) (fun _ _ => rfl) (fun _ h => h)

lemma complete (t : Trie) (owner : LexemeId) (id : NodeId) :
    t.Retains (t.complete owner id) owner := by
  unfold Trie.complete
  split
  · exact refl t owner
  · exact modify t owner id (fun _ => rfl) (fun _ h => h) (fun _ _ => rfl)

lemma takeStep (t : Trie) (owner : LexemeId) (parent : NodeId) (step : BranchStep) :
    t.Retains (t.takeStep owner parent step).2 owner := by
  unfold Trie.takeStep
  dsimp only
  split
  · exact (findOrAddChild t owner parent step.edge).trans (markRepeat ..)
  · exact findOrAddChild t owner parent step.edge

lemma walk (t : Trie) (owner : LexemeId) (start : NodeId) (steps : List BranchStep) :
    t.Retains (t.walk owner start steps).2 owner := by
  induction steps generalizing t start with
  | nil => exact refl t owner
  | cons step steps ih => exact (takeStep t owner start step).trans (ih ..)

end Retains

/-! ## Insertion at a node -/

/-- Inserts a branch that starts at a node. -/
def insertBranchAt (t : Trie) (owner : LexemeId) (start : NodeId) (b : Branch) : Trie :=
  let (id, t) := t.walk owner start b.steps
  if b.completes then t.complete owner id else t

/-- Inserts several branches that start at a node. -/
def insertBranches (t : Trie) (owner : LexemeId) (start : NodeId) (bs : List Branch) : Trie :=
  bs.foldl (·.insertBranchAt owner start) t

/-- A pattern is inserted as its branches are at the root. -/
lemma insert_eq (t : Trie) (owner : LexemeId) (items : List Pattern.Item) :
    t.insert owner items = t.insertBranches owner rootId (Pattern.Item.branchesOf items) :=
  rfl

lemma insertBranches_cons (t : Trie) (owner : LexemeId) (start : NodeId) (b : Branch)
    (bs : List Branch) : t.insertBranches owner start (b :: bs) =
      (t.insertBranchAt owner start b).insertBranches owner start bs :=
  rfl

lemma insertBranches_append (t : Trie) (owner : LexemeId) (start : NodeId)
    (bs more : List Branch) : t.insertBranches owner start (bs ++ more) =
      (t.insertBranches owner start bs).insertBranches owner start more :=
  List.foldl_append

namespace Retains

lemma insertBranchAt (t : Trie) (owner : LexemeId) (start : NodeId) (b : Branch) :
    t.Retains (t.insertBranchAt owner start b) owner := by
  unfold Trie.insertBranchAt
  dsimp only
  split
  · exact (walk t owner start b.steps).trans (complete ..)
  · exact walk t owner start b.steps

lemma insertBranches (t : Trie) (owner : LexemeId) (start : NodeId) (bs : List Branch) :
    t.Retains (t.insertBranches owner start bs) owner := by
  induction bs generalizing t with
  | nil => exact refl t owner
  | cons b bs ih => exact (insertBranchAt t owner start b).trans (ih _)

end Retains

/-! ## What is there already -/

/-- The steps lead from a node to a node along children that are there, and those that repeat are
marked. -/
inductive Along (t : Trie) : NodeId → List BranchStep → NodeId → Prop
  | nil {id : NodeId} : Along t id [] id
  | cons {id next last : NodeId} {step : BranchStep} {steps : List BranchStep}
      (hchild : t.child? id step.edge = some next)
      (hmark : step.repeats = true → t.repeatsAt next = true) (h : Along t next steps last) :
      Along t id (step :: steps) last

/-- All that the branch of a lexeme asks for is there. -/
def Holds (t : Trie) (owner : LexemeId) (start : NodeId) (b : Branch) : Prop :=
  ∃ last, t.Along start b.steps last ∧
    (b.completes = true → last = rootId ∨ t.endAt? last = some owner)

lemma Along.retained (h : t.Along start steps last) (hu : t.Retains u owner) :
    u.Along start steps last := by
  induction h with
  | nil => exact .nil
  | cons hchild hmark _ ih => exact .cons (hu.child hchild) (hu.mark ∘ hmark) ih

lemma Holds.retained (h : t.Holds owner start b) (hu : t.Retains u owner) :
    u.Holds owner start b := by
  obtain ⟨last, halong, hend⟩ := h
  exact ⟨last, halong.retained hu, fun hcompletes => (hend hcompletes).imp_right hu.ends⟩

/-- A change of a node that leaves it as it is changes nothing. -/
lemma modify_eq_self (t : Trie) (id : NodeId) {f : Node → Node}
    (hf : ∀ node, t.node? id = some node → f node = node) :
    { nodes := t.nodes.modify id f } = t := by
  have hnodes : t.nodes.modify id f = t.nodes := by
    apply Array.ext_getElem?
    intro k
    rw [Array.getElem?_modify]
    split
    · rename_i hk
      subst hk
      cases hnode : t.nodes[id]? with
      | none => rfl
      | some node => rw [Option.map_some, hf node hnode]
    · rfl
  rw [hnodes]

lemma takeStep_eq_self (hchild : t.child? parent step.edge = some next)
    (hmark : step.repeats = true → t.repeatsAt next = true) :
    t.takeStep owner parent step = (next, t) := by
  unfold takeStep findOrAddChild
  simp only [hchild]
  split
  · rename_i hrepeats
    have hsame : t.markRepeat next = t := t.modify_eq_self next fun node hnode => by
      have hmarked : node.repeats = true := by simpa [repeatsAt, hnode] using hmark hrepeats
      rw [← hmarked]
    rw [hsame]
  · rfl

lemma Along.walk_eq (h : t.Along start steps last) :
    t.walk owner start steps = (last, t) := by
  induction h with
  | nil => rfl
  | cons hchild hmark _ ih =>
    rw [walk, takeStep_eq_self hchild hmark]
    exact ih

/-- **Nothing to do.**  Inserting a branch that is there changes nothing. -/
lemma Holds.insertBranchAt_eq (h : t.Holds owner start b) :
    t.insertBranchAt owner start b = t := by
  obtain ⟨last, halong, hend⟩ := h
  simp only [insertBranchAt, halong.walk_eq]
  split
  · rename_i hcompletes
    unfold complete
    split
    · rfl
    · rename_i hroot
      have hended := (hend hcompletes).resolve_left hroot
      refine t.modify_eq_self last fun node hnode => ?_
      have hfull : node.fullMatch? = some owner := by simpa [endAt?, hnode] using hended
      rw [← hfull]
  · rfl

/-! ## What has been inserted is there -/

lemma child?_findOrAddChild (t : Trie) (owner : LexemeId) (parent : NodeId) (edge : Edge) :
    (t.findOrAddChild owner parent edge).2.child? parent edge =
      some (t.findOrAddChild owner parent edge).1 := by
  unfold findOrAddChild
  cases hchild : t.child? parent edge with
  | some id => exact hchild
  | none =>
    rw [child?_eq_some_iff]
    refine ⟨by simp [linkAt?, node?, size], fun k hk => ?_⟩
    rw [linkAt?_push_of_lt _ hk]
    exact linkAt?_ne_of_child?_eq_none hchild hk

lemma repeatsAt_markRepeat (hid : id < t.size) : (t.markRepeat id).repeatsAt id = true := by
  simp [repeatsAt, markRepeat, node?, Array.getElem?_modify, Array.getElem?_eq_getElem hid]

lemma endAt?_complete (hid : id < t.size) (hroot : id ≠ rootId) :
    (t.complete owner id).endAt? id = some owner := by
  simp [endAt?, complete, hroot, node?, Array.getElem?_modify, Array.getElem?_eq_getElem hid]

/-- A step that was taken can be taken again. -/
lemma takeStep_spec (t : Trie) (owner : LexemeId) (parent : NodeId) (step : BranchStep) :
    (t.takeStep owner parent step).2.child? parent step.edge =
        some (t.takeStep owner parent step).1 ∧
      (step.repeats = true →
        (t.takeStep owner parent step).2.repeatsAt (t.takeStep owner parent step).1 = true) := by
  have hchild := t.child?_findOrAddChild owner parent step.edge
  unfold takeStep
  dsimp only
  split
  · refine ⟨(Retains.markRepeat _ owner _).child hchild, fun _ => ?_⟩
    exact repeatsAt_markRepeat (lt_size_of_child? hchild)
  · rename_i hrepeats
    exact ⟨hchild, fun h => absurd h hrepeats⟩

lemma along_walk (t : Trie) (owner : LexemeId) (start : NodeId) (steps : List BranchStep) :
    (t.walk owner start steps).2.Along start steps (t.walk owner start steps).1 := by
  induction steps generalizing t start with
  | nil => exact .nil
  | cons step steps ih =>
    obtain ⟨hchild, hmark⟩ := t.takeStep_spec owner start step
    have hlater := Retains.walk (t.takeStep owner start step).2 owner
      (t.takeStep owner start step).1 steps
    exact .cons (hlater.child hchild) (hlater.mark ∘ hmark) (ih ..)

/-- Where steps lead there is a node. -/
lemma Along.lt_size (h : t.Along start steps last) (hne : steps ≠ []) : last < t.size := by
  induction h with
  | nil => exact absurd rfl hne
  | @cons _ next last _ steps hchild _ h ih =>
    cases h with
    | nil => exact lt_size_of_child? hchild
    | cons => exact ih (by simp)

/-- **Done.**  A branch that starts at the root is there once it has been inserted. -/
lemma holds_insertBranchAt (t : Trie) (owner : LexemeId) (b : Branch) :
    (t.insertBranchAt owner rootId b).Holds owner rootId b := by
  have halong := t.along_walk owner rootId b.steps
  unfold insertBranchAt
  dsimp only
  split
  · refine ⟨_, halong.retained (Retains.complete ..), fun _ => ?_⟩
    by_cases hroot : (t.walk owner rootId b.steps).1 = rootId
    · exact .inl hroot
    · have hsteps : b.steps ≠ [] := fun hnil => hroot (by rw [hnil]; rfl)
      exact .inr (endAt?_complete (halong.lt_size hsteps) hroot)
  · rename_i hcompletes
    exact ⟨_, halong, fun h => absurd h hcompletes⟩

lemma holds_insertBranches (t : Trie) (owner : LexemeId) (h : b ∈ bs) :
    (t.insertBranches owner rootId bs).Holds owner rootId b := by
  obtain ⟨before, after, rfl⟩ := List.append_of_mem h
  rw [insertBranches_append, insertBranches_cons]
  exact (holds_insertBranchAt _ owner b).retained (Retains.insertBranches ..)

/-! ## Insertion again -/

/-- **Once is enough.**  It does not matter if branches are inserted more than once. -/
lemma insertBranches_eraseDups (t : Trie) (owner : LexemeId) (bs : List Branch) :
    t.insertBranches owner rootId bs.eraseDups = t.insertBranches owner rootId bs := by
  induction bs using List.reverseRecOn with
  | nil => simp
  | append_singleton bs b ih =>
    rw [eraseDups_concat, insertBranches_append, insertBranches_append, ih]
    by_cases h : b ∈ bs
    · rw [if_pos h]
      exact (t.holds_insertBranches owner h).insertBranchAt_eq.symm
    · rw [if_neg h]

/-! ## Bit by bit -/

/-- Below an edge that is there, branches are inserted as they are at its end. -/
lemma insertBranches_below (owner : LexemeId) (hchild : t.child? start edge = some next)
    (bs : List Branch) :
    t.insertBranches owner start (bs.map (.below edge)) = t.insertBranches owner next bs := by
  induction bs generalizing t with
  | nil => rfl
  | cons b bs ih =>
    have hone : t.insertBranchAt owner start (b.below edge) = t.insertBranchAt owner next b := by
      have hstep : t.takeStep owner start { edge, repeats := false } = (next, t) :=
        takeStep_eq_self hchild (by simp)
      simp only [insertBranchAt, Branch.below, walk, hstep]
    rw [List.map_cons, insertBranches_cons, insertBranches_cons, hone]
    exact ih ((Retains.insertBranchAt t owner next b).child hchild)

/-- **Bit by bit.**  A branch may be inserted station by station. -/
lemma insertBranchAt_eq_stations (t : Trie) (owner : LexemeId) (start : NodeId) (b : Branch) :
    t.insertBranchAt owner start b = t.insertBranches owner start b.stations := by
  obtain ⟨steps, completes⟩ := b
  rw [Branch.stations]
  induction steps generalizing t start with
  | nil => cases completes <;> rfl
  | cons step steps ih =>
    have hhop : t.insertBranchAt owner start (.hop step) = (t.takeStep owner start step).2 := rfl
    have hrest := insertBranches_below owner (t.takeStep_spec owner start step).1
      (Branch.stationsAlong completes steps)
    rw [Branch.stationsAlong, insertBranches_cons, hhop, hrest]
    exact ih ..

lemma insertBranches_stations (t : Trie) (owner : LexemeId) (start : NodeId) (bs : List Branch) :
    t.insertBranches owner start (bs.flatMap Branch.stations) =
      t.insertBranches owner start bs := by
  induction bs generalizing t with
  | nil => rfl
  | cons b bs ih =>
    rw [List.flatMap_cons, insertBranches_append, ← insertBranchAt_eq_stations, ih]
    rfl

end Trie

end Lexing
