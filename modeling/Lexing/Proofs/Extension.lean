import Lexing.Proofs.Completeness
import Lexing.Proofs.Lockstep
import Lexing.Proofs.Regrowth
import Mathlib.Data.List.Find

/-!
# Lexemes that do not come up

A lexeme that is registered after all others can share nodes with them, end where they end, mark
their steps as repeated and make nodes of its own.  If none of its elements is inverted, all of this
lies *behind* its tags: to come there, one has to pass along an edge for one of them
(`Trie.SameBefore`).

The insertion of the lexeme keeps to that, since its branches start at the root and each of their
steps takes such an edge (`Trie.sameBefore_insert`).  A walker to whom none of the tags is presented
never gets behind them, and what it looks at elsewhere is the same in both tries: the nodes, the
first child that accepts a symbol, and whether a child is a leaf (`Trie.SameBefore.step_eq`).  So it
cannot tell whether the lexeme is there (`Automaton.agreeOn_extend`).
-/

namespace Lexing

open Pattern (Item)

/-- The lexicon with one more lexeme, registered after the others. -/
def Lexicon.extend (l : Lexicon) (lexeme : Lexeme) : Lexicon :=
  { l with patternLexemes := l.patternLexemes ++ [lexeme] }

namespace Trie

variable {t u : Trie} {l : Lexicon} {tags : Set Tag} {id parent : NodeId} {tag : Tag}

lemma edge?_eq (t : Trie) (id : NodeId) : t.edge? id = (t.linkAt? id).map (·.edge) :=
  rfl

lemma admits_eq (t : Trie) (id : NodeId) (tag : Tag) :
    t.admits id tag = (t.linkAt? id).any (·.edge.accepts tag) :=
  rfl

lemma linkAt?_markRepeat (t : Trie) (id other : NodeId) :
    (t.markRepeat id).linkAt? other = t.linkAt? other := by
  rw [markRepeat, linkAt?_modify]
  exact fun _ => rfl

/-! ## Behind the tags -/

/-- The node is entered on one of the tags only. -/
def Behind (t : Trie) (tags : Set Tag) (id : NodeId) : Prop :=
  ∃ tag ∈ tags, t.edge? id = some (.exact tag)

lemma Behind.push (h : t.Behind tags id) (node : Node) :
    Behind { nodes := t.nodes.push node } tags id := by
  obtain ⟨tag, htag, hedge⟩ := h
  obtain ⟨link, hlink, _⟩ := Option.map_eq_some_iff.1 hedge
  exact ⟨tag, htag, by rwa [edge?_eq, linkAt?_push_of_lt node (lt_size_of_linkAt? hlink)]⟩

/-- Apart from what lies behind the tags the tries are the same: `u` has nodes that `t` has not, but
the way to them goes by one of the tags. -/
structure SameBefore (t u : Trie) (tags : Set Tag) : Prop where
  size_le : t.size ≤ u.size
  linkAt?_eq : ∀ id < t.size, u.linkAt? id = t.linkAt? id
  node?_eq : ∀ id < t.size, ¬ t.Behind tags id → u.node? id = t.node? id
  /-- What is new is entered on one of the tags, from the root or from behind the tags. -/
  exists_linkAt? : ∀ id, t.size ≤ id → id < u.size → ∃ parent, ∃ tag ∈ tags,
    u.linkAt? id = some { parent, edge := .exact tag } ∧ (parent = rootId ∨ u.Behind tags parent)

namespace SameBefore

lemma refl (t : Trie) (tags : Set Tag) : t.SameBefore t tags where
  size_le := le_refl _
  linkAt?_eq _ _ := rfl
  node?_eq _ _ _ := rfl
  exists_linkAt? _ hle hlt := absurd (hle.trans_lt hlt) (lt_irrefl _)

lemma behind_iff (h : t.SameBefore u tags) (hid : id < t.size) :
    u.Behind tags id ↔ t.Behind tags id := by
  simp only [Behind, edge?_eq, h.linkAt?_eq id hid]

/-! ## Insertion stays behind the tags -/

/-- A node behind the tags may be changed, but for its link. -/
lemma modify (h : t.SameBefore u tags) {f : Node → Node}
    (hf : ∀ node, (f node).link? = node.link?) (hid : u.Behind tags id) :
    t.SameBefore { nodes := u.nodes.modify id f } tags := by
  have hlink := u.linkAt?_modify hf id
  have hsize : size { nodes := u.nodes.modify id f } = u.size := by simp [size]
  refine ⟨hsize ▸ h.size_le, fun k hk => (hlink k).trans (h.linkAt?_eq k hk),
    fun k hk hbehind => ?_, fun k hle hlt => ?_⟩
  · have hne : id ≠ k := by
      rintro rfl
      exact hbehind ((h.behind_iff hk).1 hid)
    rw [← h.node?_eq k hk hbehind, node?, Array.getElem?_modify, if_neg hne, node?]
  · simpa only [Behind, edge?_eq, hlink] using h.exists_linkAt? k hle (hsize ▸ hlt)

/-- A new node may be added behind the tags. -/
lemma push (h : t.SameBefore u tags) {node : Node}
    (hparent : parent = rootId ∨ u.Behind tags parent) (htag : tag ∈ tags)
    (hnode : node.link? = some { parent, edge := .exact tag }) :
    t.SameBefore { nodes := u.nodes.push node } tags := by
  have hnew : linkAt? { nodes := u.nodes.push node } u.size =
      some { parent, edge := .exact tag } := by
    simp [linkAt?, node?, size, hnode]
  refine ⟨h.size_le.trans (by simp [size]), fun k hk => ?_, fun k hk hbefore => ?_,
    fun k hle hlt => ?_⟩
  · exact (linkAt?_push_of_lt node (hk.trans_le h.size_le)).trans (h.linkAt?_eq k hk)
  · exact (node?_push_of_lt node (hk.trans_le h.size_le)).trans (h.node?_eq k hk hbefore)
  · rcases Nat.lt_or_ge k u.size with hk | hk
    · obtain ⟨above, other, hother, hlink, habove⟩ := h.exists_linkAt? k hle hk
      exact ⟨above, other, hother, (linkAt?_push_of_lt node hk).trans hlink,
        habove.imp_right (·.push node)⟩
    · have hlt' : k < u.size + 1 := by simpa [size] using hlt
      obtain rfl : k = u.size := by omega
      exact ⟨parent, tag, htag, hnew, hparent.imp_right (·.push node)⟩

/-- A step for one of the tags leads behind them, whether or not the child is there already. -/
lemma findOrAddChild (h : t.SameBefore u tags) (hparent : parent = rootId ∨ u.Behind tags parent)
    (htag : tag ∈ tags) (owner : LexemeId) :
    t.SameBefore (u.findOrAddChild owner parent (.exact tag)).2 tags ∧
      (u.findOrAddChild owner parent (.exact tag)).2.Behind tags
        (u.findOrAddChild owner parent (.exact tag)).1 := by
  unfold Trie.findOrAddChild
  cases hchild : u.child? parent (.exact tag) with
  | some id => exact ⟨h, tag, htag, by rw [edge?_eq, (child?_eq_some_iff.1 hchild).1]; rfl⟩
  | none =>
    refine ⟨h.push hparent htag rfl, tag, htag, ?_⟩
    simp [edge?, node?, size]

lemma takeStep (h : t.SameBefore u tags) (hparent : parent = rootId ∨ u.Behind tags parent)
    (owner : LexemeId) {step : BranchStep} (hstep : ∃ tag ∈ tags, step.edge = .exact tag) :
    t.SameBefore (u.takeStep owner parent step).2 tags ∧
      (u.takeStep owner parent step).2.Behind tags (u.takeStep owner parent step).1 := by
  obtain ⟨tag, htag, hedge⟩ := hstep
  obtain ⟨hsame, hbehind⟩ := h.findOrAddChild hparent htag owner
  unfold Trie.takeStep
  rw [hedge]
  by_cases hrepeats : step.repeats = true
  · simp only [hrepeats, if_true]
    refine ⟨hsame.modify (fun _ => rfl) hbehind, ?_⟩
    rw [Behind, edge?_eq, linkAt?_markRepeat]
    exact hbehind
  · simp only [hrepeats]
    exact ⟨hsame, hbehind⟩

lemma walk (h : t.SameBefore u tags) (hparent : parent = rootId ∨ u.Behind tags parent)
    (owner : LexemeId) {steps : List BranchStep}
    (hsteps : ∀ step ∈ steps, ∃ tag ∈ tags, step.edge = .exact tag) :
    t.SameBefore (u.walk owner parent steps).2 tags ∧
      ((u.walk owner parent steps).1 = rootId ∨
        (u.walk owner parent steps).2.Behind tags (u.walk owner parent steps).1) := by
  induction steps generalizing u parent with
  | nil => exact ⟨h, hparent⟩
  | cons step steps ih =>
    rw [List.forall_mem_cons] at hsteps
    obtain ⟨hsame, hbehind⟩ := h.takeStep hparent owner hsteps.1
    exact ih hsame (.inr hbehind) hsteps.2

/-- Nothing ends at the root. -/
lemma complete (h : t.SameBefore u tags) (hid : id = rootId ∨ u.Behind tags id)
    (owner : LexemeId) :
    t.SameBefore (u.complete owner id) tags := by
  unfold Trie.complete
  split
  · exact h
  · rename_i hroot
    exact h.modify (fun _ => rfl) (hid.resolve_left hroot)

lemma insertBranchAt (h : t.SameBefore u tags) (owner : LexemeId) {b : Branch}
    (hb : ∀ step ∈ b.steps, ∃ tag ∈ tags, step.edge = .exact tag) :
    t.SameBefore (u.insertBranchAt owner rootId b) tags := by
  obtain ⟨hsame, hend⟩ := h.walk (.inl rfl) owner hb
  unfold Trie.insertBranchAt
  dsimp only
  split
  · exact hsame.complete hend owner
  · exact hsame

lemma insertBranches (h : t.SameBefore u tags) (owner : LexemeId) {bs : List Branch}
    (hbs : ∀ b ∈ bs, ∀ step ∈ b.steps, ∃ tag ∈ tags, step.edge = .exact tag) :
    t.SameBefore (u.insertBranches owner rootId bs) tags := by
  induction bs generalizing u with
  | nil => exact h
  | cons b bs ih =>
    rw [List.forall_mem_cons] at hbs
    exact ih (h.insertBranchAt owner hbs.1) hbs.2

end SameBefore

/-- **Insertion.**  A pattern without inverted elements changes nothing but what lies behind its
tags. -/
lemma sameBefore_insert (t : Trie) (owner : LexemeId) {items : List Item}
    (hexact : ∀ e ∈ Item.elementsOf items, e.inverted = false) :
    t.SameBefore (t.insert owner items) {tag | ∃ e ∈ Item.elementsOf items, e.symbol = tag} := by
  have hbranches : ∀ b ∈ Item.branchesOf items, ∀ step ∈ b.steps,
      ∃ tag ∈ {tag | ∃ e ∈ Item.elementsOf items, e.symbol = tag}, step.edge = .exact tag := by
    intro b hb step hstep
    obtain ⟨e, he, hedge⟩ := Item.edge_of_mem_branchesOf items hb hstep
    refine ⟨e.symbol, ⟨e, he, rfl⟩, ?_⟩
    simpa [Edge.ofElement, hexact e he] using hedge
  rw [insert_eq]
  exact (SameBefore.refl t _).insertBranches owner hbranches

lemma insertAll_concat (t : Trie) (i : LexemeId) (lexemes : List Lexeme) (lexeme : Lexeme) :
    t.insertAll i (lexemes ++ [lexeme]) =
      (t.insertAll i lexemes).insert (i + lexemes.length) lexeme.items := by
  induction lexemes generalizing t i with
  | nil => rfl
  | cons first lexemes ih =>
    rw [List.cons_append, insertAll, ih, insertAll, List.length_cons, Nat.add_assoc, Nat.add_comm 1]

lemma sameBefore_extend (l : Lexicon) {lexeme : Lexeme}
    (hexact : ∀ e ∈ Item.elementsOf lexeme.items, e.inverted = false) :
    (ofLexicon l).SameBefore (ofLexicon (l.extend lexeme))
      {tag | ∃ e ∈ Item.elementsOf lexeme.items, e.symbol = tag} := by
  rw [ofLexicon, ofLexicon, Lexicon.extend, insertAll_concat]
  exact sameBefore_insert _ _ hexact

/-! ## Before the tags both are the same -/

lemma lt_size_of_admits (h : t.admits id tag = true) : id < t.size := by
  rw [admits, Option.any_eq_true] at h
  obtain ⟨link, hlink, _⟩ := h
  exact lt_size_of_linkAt? hlink

/-- What another tag leads to is not behind the tags. -/
lemma not_behind_of_admits (h : t.admits id tag = true) (htag : tag ∉ tags) :
    ¬ t.Behind tags id := by
  rintro ⟨other, hother, hedge⟩
  obtain ⟨edge, hedge', haccepts⟩ := exists_edge?_of_admits h
  cases hedge.symm.trans hedge'
  exact htag (of_decide_eq_true haccepts ▸ hother)

lemma Fits.not_behind_rootId (h : t.Fits l) : ¬ t.Behind tags rootId := by
  rintro ⟨tag, _, hedge⟩
  obtain ⟨link, hlink, _⟩ := Option.map_eq_some_iff.1 hedge
  obtain ⟨node, hnode, hlink⟩ := Option.bind_eq_some_iff.1 hlink
  rw [(h.node rootId node hnode).link?_eq_none_iff.2 rfl] at hlink
  cases hlink

/-- A walker that is not presented any of the tags stays before them. -/
lemma Fits.not_behind_step (h : t.Fits l) {w : Walker} {s : Symbol}
    (hbefore : ¬ t.Behind tags w.node) (hs : s.tag ∉ tags) :
    ¬ t.Behind tags (w.step t l s).2.node := by
  have hsteps := w.steps_step t l s
  generalize w.step t l s = r at hsteps ⊢
  cases hsteps with
  | rests => exact hbefore
  | goesOn _ hnext _ => exact not_behind_of_admits (admits_of_successor? hnext) hs
  | completes => exact h.not_behind_rootId
  | passes => exact h.not_behind_rootId
  | stalls => exact h.not_behind_rootId

namespace SameBefore

lemma admits_eq (h : t.SameBefore u tags) (hid : id < t.size) (tag : Tag) :
    u.admits id tag = t.admits id tag := by
  rw [Trie.admits_eq, Trie.admits_eq, h.linkAt?_eq id hid]

/-- Another tag leads to none of the nodes that only `u` has. -/
lemma lt_size_of_admits (h : t.SameBefore u tags) (hadmits : u.admits id tag = true)
    (htag : tag ∉ tags) : id < t.size := by
  by_contra hle
  obtain ⟨parent, other, hother, hlink, _⟩ :=
    h.exists_linkAt? id (Nat.le_of_not_lt hle) (Trie.lt_size_of_admits hadmits)
  exact not_behind_of_admits hadmits htag ⟨other, hother, by rw [edge?_eq, hlink]; rfl⟩

/-- The new children of a node come after the old ones, and only the root and what is behind the
tags has any. -/
lemma exists_children_eq (h : t.SameBefore u tags) (parent : NodeId) :
    ∃ more, u.children parent = t.children parent ++ more ∧
      ∀ id ∈ more, t.size ≤ id ∧ (parent = rootId ∨ u.Behind tags parent) := by
  -- children come in the order of their numbers, and the new nodes have the last numbers
  obtain ⟨d, hd⟩ := Nat.exists_eq_add_of_le h.size_le
  have hold : (List.range t.size).filter (fun id => (u.linkAt? id).any (·.parent == parent)) =
      t.children parent :=
    List.filter_congr fun id hid => by
      rw [h.linkAt?_eq id (List.mem_range.1 hid)]
      rfl
  refine ⟨((List.range d).map (t.size + ·)).filter
    fun id => (u.linkAt? id).any (·.parent == parent), ?_, fun id hid => ?_⟩
  · rw [← hold, ← List.filter_append, ← List.range_add, ← hd]
    rfl
  · obtain ⟨hnew, hparent⟩ := List.mem_filter.1 hid
    obtain ⟨k, hk, rfl⟩ := List.mem_map.1 hnew
    have hlt : t.size + k < u.size := by
      rw [hd]
      exact Nat.add_lt_add_left (List.mem_range.1 hk) _
    obtain ⟨above, _, _, hlink, habove⟩ := h.exists_linkAt? _ (Nat.le_add_right ..) hlt
    obtain rfl : above = parent := by simpa [hlink] using hparent
    exact ⟨Nat.le_add_right .., habove⟩

lemma successor?_eq (h : t.SameBefore u tags) (hid : id < t.size) (hbefore : ¬ t.Behind tags id)
    (htag : tag ∉ tags) : u.successor? id tag = t.successor? id tag := by
  obtain ⟨more, hmore, hnew⟩ := h.exists_children_eq id
  have hold : (t.children id).find? (u.admits · tag) = (t.children id).find? (t.admits · tag) :=
    List.find?_congr fun k hk =>
      h.admits_eq (List.mem_range.1 (List.mem_of_mem_filter hk)) tag
  have hnone : more.find? (u.admits · tag) = none :=
    List.find?_eq_none.2 fun k hk hadmits =>
      absurd (h.lt_size_of_admits hadmits htag) (Nat.not_lt.2 (hnew k hk).1)
  rw [successor?, successor?, repeatsAt, repeatsAt, h.node?_eq id hid hbefore, h.admits_eq hid,
    hmore, List.find?_append, hold, hnone, Option.or_none]

/-- What is not behind the tags gets no child, the root apart. -/
lemma isLeaf_eq (h : t.SameBefore u tags) (hid : id < t.size) (hbefore : ¬ t.Behind tags id)
    (hroot : id ≠ rootId) : u.isLeaf id = t.isLeaf id := by
  obtain ⟨more, hmore, hnew⟩ := h.exists_children_eq id
  have hnone : more = [] := List.eq_nil_iff_forall_not_mem.2 fun k hk =>
    (hnew k hk).2.elim hroot fun hbehind => hbefore ((h.behind_iff hid).1 hbehind)
  have hnode : u.nodes[id]? = t.nodes[id]? := h.node?_eq id hid hbefore
  rw [isLeaf, isLeaf, hmore, hnone, List.append_nil, hnode]

lemma nameAt_eq (h : t.SameBefore u tags) (hid : id < t.size) (hbefore : ¬ t.Behind tags id) :
    u.nameAt id = t.nameAt id := by
  rw [nameAt, nameAt, h.node?_eq id hid hbefore]

end SameBefore

end Trie

/-! ## Verdicts -/

section Extend

variable {l : Lexicon} {u : Trie} {tags : Set Tag} {id : NodeId} {lexeme : Lexeme} {w : Walker}
  {s : Symbol}

lemma Lexicon.lexeme?_extend (lexeme : Lexeme) {i : LexemeId} (hi : i < l.size) :
    (l.extend lexeme).lexeme? i = l.lexeme? i := by
  have hlexemes : (l.extend lexeme).lexemes = l.lexemes ++ [lexeme] := rfl
  rw [lexeme?, hlexemes, List.getElem?_append_left hi, lexeme?]

namespace Trie

/-- The lexeme for which a node was made is in the lexicon. -/
lemma owner_lt_size {node : Node} (hnode : (ofLexicon l).node? id = some node)
    (hroot : id ≠ rootId) : node.owner < l.size := by
  have hfollows := follows_ofLexicon l
  obtain ⟨path, edge, hpath⟩ := hfollows.exists_path_of_ne_rootId
    (Array.getElem?_eq_some_iff.1 hnode).1 hroot
  obtain ⟨_, _, hnode', _, _, hkeeps⟩ := exists_node_of_find? (hfollows.find?_eq_some_iff.2 hpath)
  cases hnode.symm.trans hnode'
  obtain ⟨_, ⟨items, hitems, _⟩, _⟩ := hkeeps.owner.1
  obtain ⟨lexeme, _, hlexeme, _⟩ := Lexicon.exists_lexeme_of_pattern? hitems
  exact (List.getElem?_eq_some_iff.1 hlexeme).1

namespace SameBefore

/-- A match that ends before the tags becomes what it did. -/
lemma verdictAt_eq (h : (ofLexicon l).SameBefore u tags) (lexeme : Lexeme)
    (hid : id < (ofLexicon l).size) (hbefore : ¬ (ofLexicon l).Behind tags id)
    (hroot : id ≠ rootId) :
    u.verdictAt (l.extend lexeme) id = (ofLexicon l).verdictAt l id := by
  obtain ⟨node, hnode⟩ : ∃ node, (ofLexicon l).node? id = some node :=
    ⟨_, Array.getElem?_eq_getElem hid⟩
  have howner := Lexicon.lexeme?_extend lexeme (owner_lt_size hnode hroot)
  have hfull : node.fullMatch?.bind (l.extend lexeme).lexeme? =
      node.fullMatch?.bind l.lexeme? :=
    Option.bind_congr fun i hi =>
      Lexicon.lexeme?_extend lexeme (((fits_ofLexicon l).node id node hnode).fullMatch i hi)
  simp only [verdictAt, h.node?_eq id hid hbefore, hnode, Option.bind_some, hfull, howner]
  rfl

/-! ## Runs -/

/-- **One step.**  Before the tags a walker cannot tell the tries apart. -/
lemma step_eq (h : (ofLexicon l).SameBefore u tags) (lexeme : Lexeme)
    (hlt : w.node < (ofLexicon l).size) (hbefore : ¬ (ofLexicon l).Behind tags w.node)
    (hs : s.tag ∉ tags) :
    w.step u (l.extend lexeme) s = w.step (ofLexicon l) l s := by
  have hname := h.nameAt_eq hlt hbefore
  have hnext := h.successor?_eq hlt hbefore hs
  have hverdict := h.verdictAt_eq lexeme hlt hbefore
  cases hend : s.isEndOfStream with
  | true =>
    by_cases hroot : w.node = rootId
    · simp [Walker.step, hend, hroot]
    · simp [Walker.step, hend, hroot, hverdict hroot]
  | false =>
    cases hgo : (ofLexicon l).successor? w.node s.tag with
    | none =>
      rw [hgo] at hnext
      by_cases hroot : w.node = rootId
      · rw [hroot] at hname hnext hgo
        simp [Walker.step, hend, hroot, hname, hnext, hgo, Lexicon.extend]
      · simp [Walker.step, hend, hroot, hnext, hgo, hverdict hroot]
    | some next =>
      rw [hgo] at hnext
      have hadmits := admits_of_successor? hgo
      have hlt' := Trie.lt_size_of_admits hadmits
      have hbefore' := not_behind_of_admits hadmits hs
      have hroot' := ne_rootId_of_admits (fits_ofLexicon l) hadmits
      simp [Walker.step, hend, hname, hnext, hgo, h.isLeaf_eq hlt' hbefore' hroot',
        h.verdictAt_eq lexeme hlt' hbefore' hroot']

/-- Walkers that stand at the same place before the tags go in lockstep. -/
lemma lockstep (h : (ofLexicon l).SameBefore u tags) :
    Walker.Lockstep (ofLexicon l) l u (l.extend lexeme) (·.tag ∉ tags)
      fun w w' => w' = w ∧ ¬ (ofLexicon l).Behind tags w.node where
  start := ⟨rfl, (fits_ofLexicon l).not_behind_rootId⟩
  step := by
    rintro w _ s ⟨rfl, hbefore⟩ hw - hs
    obtain ⟨node, hnode⟩ := StateTable.exists_node?_of_mem_liveNodes hw.live
    have hstep := h.step_eq lexeme (Array.getElem?_eq_some_iff.1 hnode).1 hbefore hs
    exact ⟨by rw [hstep], congrArg Prod.snd hstep, (fits_ofLexicon l).not_behind_step hbefore hs⟩

end SameBefore

end Trie

/-- **A lexeme that does not come up.**  Symbols with tags that the last lexeme does not mention are
matched as if the lexeme were not there, provided that it has no inverted elements, which match what
they do not mention. -/
theorem Automaton.agreeOn_extend (l : Lexicon) {lexeme : Lexeme}
    (hexact : ∀ e ∈ Item.elementsOf lexeme.items, e.inverted = false) {ss : List Symbol}
    (hss : ∀ s ∈ ss, ∀ e ∈ Item.elementsOf lexeme.items, s.tag ≠ e.symbol) :
    (Automaton.new l.compile).AgreeOn (.new (l.extend lexeme).compile) ss := by
  refine (Trie.sameBefore_extend l hexact).lockstep.agreeOn (Trie.fits_ofLexicon l)
    (Trie.fits_ofLexicon (l.extend lexeme)) fun s hs => ?_
  rintro ⟨e, he, htag⟩
  exact hss s hs e he htag.symm

/-- Empty remarks end where other remarks do and mark the step to the end of the line as repeated,
but rules and arrows go on as before. -/
theorem Automaton.agreeOn_extend_marks :
    (Automaton.new marks.compile).AgreeOn
      (.new (marks.extend
        { kind := "empty"
          items := [.element { symbol := "#" }, .element { symbol := "\n", repeats := true }]
          fullMatch := .concat
          partialMatch? := some .collect }).compile)
      [.special '-', .special '-', .special '>', .text "so", .special '-'] :=
  agreeOn_extend marks (by decide) (by decide)

end Extend

end Lexing
