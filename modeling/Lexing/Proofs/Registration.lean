import Lexing.Proofs.Completeness
import Lexing.Proofs.Lockstep

/-!
# The order of registration

The order in which lexemes are registered decides in which order nodes are made, so it changes their
numbers, their names and the order of children, and it decides which lexeme owns a node and which
of several lexemes that end there wins.  None of this is to be seen if no two lexemes end at the
same place, siblings have nothing in common, and no attribute looks at owners or names
(`Lexicon.OrderFree`).

What is left of a node is its path.  The paths, the marks and the ends of a trie depend on the set
of lexemes alone, and without overlap they determine where a tag leads (`Lexicon.Goes`), where a
match cannot go on and what it becomes.  So walkers on two tries whose nodes have the same path go
in lockstep (`Lexicon.Reordered.lockstep`), and the order does not matter
(`Automaton.agreeOn_of_reordered`).
-/

namespace Lexing

open Pattern (Item)

variable {l l' : Lexicon} {id next : NodeId} {i : LexemeId} {path start : List Edge} {tag : Tag}

/-! ## Attributes that see symbols only -/

/-- The attribute is a function, which may look at the names of states. -/
def Attribute.isFunction : Attribute → Bool
  | .function _ => true
  | _ => false

/-- Some attribute of the lexeme is a function. -/
def Lexeme.usesFunction (lexeme : Lexeme) : Bool :=
  lexeme.fullMatch.isFunction || lexeme.partialMatch?.any (·.isFunction)

/-- Attributes that are no functions do not depend on the names of states. -/
lemma Attribute.evaluate_congr {a : Attribute} (ha : a.isFunction = false) {h h' : History}
    (hsymbols : h.symbols = h'.symbols) (s : Symbol) : a.evaluate h s = a.evaluate h' s := by
  cases a with
  | input => rfl
  | constant => rfl
  | concat => rw [evaluate, evaluate, History.text, History.text, hsymbols]
  | collect => rw [evaluate, evaluate, hsymbols]
  | function => cases ha

lemma Verdict.token?_eq (v : Verdict) (h : History) :
    v.token? h = match h.symbols.head?, h.symbols.getLast? with
      | some first, some last =>
        some { kind := v.kind, value := v.rule.evaluate h last, position := first.position }
      | _, _ => none := by
  rw [token?, History.symbols, List.head?_map, List.getLast?_map, History.first?, History.last?]
  cases h.visits.head? <;> cases h.visits.getLast? <;> rfl

lemma Verdict.token?_congr {v : Verdict} (hv : v.rule.isFunction = false) {h h' : History}
    (hsymbols : h.symbols = h'.symbols) : v.token? h = v.token? h' := by
  simp only [token?_eq, hsymbols, Attribute.evaluate_congr hv hsymbols]

namespace Lexeme

variable {lexeme : Lexeme}

lemma isFunction_fullVerdict (h : lexeme.usesFunction = false) :
    lexeme.fullVerdict.rule.isFunction = false :=
  (Bool.or_eq_false_iff.1 h).1

lemma isFunction_partialVerdict (h : lexeme.usesFunction = false) :
    lexeme.partialVerdict.rule.isFunction = false := by
  have hpartial := (Bool.or_eq_false_iff.1 h).2
  rw [partialVerdict, partialMatch]
  cases hrule : lexeme.partialMatch? with
  | none => rfl
  | some rule => simpa [hrule] using hpartial

end Lexeme

/-! ## Paths by lexemes -/

namespace Lexicon

lemma exists_pattern?_of_mem {lexeme : Lexeme} (h : lexeme ∈ l.patternLexemes) :
    ∃ i, l.pattern? i = some lexeme.items ∧ l.lexeme? i = some lexeme := by
  obtain ⟨k, hk⟩ := List.getElem?_of_mem h
  have hlexeme : l.lexeme? (k + 1) = some lexeme := hk
  exact ⟨k + 1, by simp [pattern?, defaultId, hlexeme], hlexeme⟩

lemma exists_visits_iff {stop : Stop} : (∃ i, l.Visits i stop) ↔ stop ∈ l.tour := by
  rw [tour, List.mem_flatMap]
  constructor
  · rintro ⟨i, items, hitems, hstop⟩
    obtain ⟨lexeme, hmem, _, rfl⟩ := exists_lexeme_of_pattern? hitems
    exact ⟨lexeme, hmem, hstop⟩
  · rintro ⟨lexeme, hmem, hstop⟩
    obtain ⟨i, hi, _⟩ := exists_pattern?_of_mem hmem
    exact ⟨i, lexeme.items, hi, hstop⟩

/-- Some pattern comes along the path. -/
def HasPath (l : Lexicon) (path : List Edge) : Prop :=
  ∃ i, l.Passes i path

lemma hasPath_iff : l.HasPath path ↔ ∃ stop ∈ l.tour, stop.path = path := by
  simp only [HasPath, Passes, ← exists_visits_iff]
  exact ⟨fun ⟨i, stop, hvisits, hpath⟩ => ⟨stop, ⟨i, hvisits⟩, hpath⟩,
    fun ⟨stop, ⟨i, hvisits⟩, hpath⟩ => ⟨i, stop, hvisits, hpath⟩⟩

lemma repeatsAt_iff :
    l.RepeatsAt path ↔ ∃ stop ∈ l.tour, stop.path = path ∧ stop.repeats = true := by
  simp only [RepeatsAt, ← exists_visits_iff]
  exact ⟨fun ⟨i, stop, hvisits, hpath⟩ => ⟨stop, ⟨i, hvisits⟩, hpath⟩,
    fun ⟨stop, ⟨i, hvisits⟩, hpath⟩ => ⟨i, stop, hvisits, hpath⟩⟩

/-- The step to the end of the path may be taken once more on the tag. -/
def Stays (l : Lexicon) (path : List Edge) (tag : Tag) : Prop :=
  l.RepeatsAt path ∧ ∃ edge ∈ path.getLast?, edge.accepts tag = true

/-- From one path the tag leads to another: to the same one if it may, else one edge further. -/
inductive Goes (l : Lexicon) (tag : Tag) : List Edge → List Edge → Prop
  | stays {path : List Edge} (h : l.Stays path tag) : Goes l tag path path
  | goesOn {path : List Edge} {edge : Edge} (h : ¬ l.Stays path tag)
      (hpath : l.HasPath (path ++ [edge])) (haccepts : edge.accepts tag = true) :
      Goes l tag path (path ++ [edge])

/-- A tag leads to a path that has an edge. -/
lemma Goes.exists_concat (h : l.Goes tag start path) :
    ∃ q edge, path = q ++ [edge] ∧ l.HasPath (q ++ [edge]) := by
  cases h with
  | stays h =>
    obtain ⟨i, stop, hvisits, hpath, _⟩ := h.1
    have hpasses : l.Passes i path := ⟨stop, hvisits, hpath⟩
    obtain ⟨q, edge, rfl⟩ := (List.eq_nil_or_concat' path).resolve_left hpasses.ne_nil
    exact ⟨q, edge, rfl, i, hpasses⟩
  | goesOn _ hpath _ => exact ⟨start, _, rfl, hpath⟩

/-- No two ways to go on from a path let the same tag pass. -/
def ForkFree (l : Lexicon) : Prop :=
  ∀ {path : List Edge} {e f : Edge} {tag : Tag}, l.HasPath (path ++ [e]) →
    l.HasPath (path ++ [f]) → e.accepts tag = true → f.accepts tag = true → e = f

/-- The lexicon is such that the order of its lexemes cannot matter. -/
structure OrderFree (l : Lexicon) : Prop where
  usesFunction_eq_false : ∀ lexeme ∈ l.lexemes, lexeme.usesFunction = false
  partialMatch?_eq_none : ∀ lexeme ∈ l.patternLexemes, lexeme.partialMatch? = none
  /-- No two lexemes end at the same place. -/
  eq_of_completes : ∀ i j path, l.Completes i path → l.Completes j path → i = j
  /-- No two children of a node let the same tag pass. -/
  siblings : ∀ id < (Trie.ofLexicon l).size, ((Trie.ofLexicon l).children id).Pairwise fun a b =>
    ∀ e ∈ (Trie.ofLexicon l).edge? a, ∀ f ∈ (Trie.ofLexicon l).edge? b, e.Disjoint f

/-- The lexicons have the same lexemes with patterns, perhaps in another order. -/
structure Reordered (l l' : Lexicon) : Prop where
  defaultLexeme_eq : l'.defaultLexeme = l.defaultLexeme
  perm : l.patternLexemes.Perm l'.patternLexemes

end Lexicon

/-! ## Nodes by path -/

namespace Trie

lemma eq_rootId_iff_of_find? (h : (ofLexicon l).find? path = some id) :
    id = rootId ↔ path = [] := by
  have hpath := (follows_ofLexicon l).find?_eq_some_iff.1 h
  constructor
  · rintro rfl
    exact Option.some.inj (hpath.symm.trans l.log.getElem?_paths_zero)
  · rintro rfl
    exact Log.eq_of_getElem?_paths hpath l.log.getElem?_paths_zero

lemma exists_find?_concat_iff {edge : Edge} :
    (∃ id, (ofLexicon l).find? (path ++ [edge]) = some id) ↔ l.HasPath (path ++ [edge]) := by
  rw [Lexicon.HasPath, ← exists_find?_ofLexicon_iff]
  refine ⟨fun ⟨id, hid⟩ => ⟨id, ?_, hid⟩, fun ⟨id, _, hid⟩ => ⟨id, hid⟩⟩
  rw [Ne, eq_rootId_iff_of_find? hid]
  simp

/-- The step to a node may be taken once more on a tag if its path says so. -/
lemma stays_iff_of_find? (h : (ofLexicon l).find? path = some id) (tag : Tag) :
    ((ofLexicon l).repeatsAt id && (ofLexicon l).admits id tag) = true ↔ l.Stays path tag := by
  rw [Bool.and_eq_true, Lexicon.Stays]
  rcases List.eq_nil_or_concat' path with rfl | ⟨path, edge, rfl⟩
  · cases h
    simp [repeatsAt_rootId]
  · rw [repeatsAt_iff_of_find? h, admits_of_find? h]
    simp

/-- Without forks the tag leads from node to node as it leads from path to path. -/
lemma successor?_eq_some_iff (hfree : l.ForkFree) (hid : (ofLexicon l).find? start = some id) :
    (ofLexicon l).successor? id tag = some next ↔
      ∃ path, l.Goes tag start path ∧ (ofLexicon l).find? path = some next := by
  have hstays := stays_iff_of_find? hid tag
  have hchildren : ∀ {k}, k ∈ (ofLexicon l).children id ↔
      ∃ edge, (ofLexicon l).find? (start ++ [edge]) = some k := mem_children_iff_of_find? hid
  by_cases h : l.Stays start tag
  · rw [successor?, if_pos (hstays.2 h)]
    constructor
    · intro hnext
      exact ⟨start, .stays h, hid.trans hnext⟩
    · rintro ⟨path, hgoes, hnext⟩
      cases hgoes with
      | stays => exact hid.symm.trans hnext
      | goesOn hnot => exact absurd h hnot
  · rw [successor?, if_neg (hstays.not.2 h)]
    constructor
    · intro hfind
      obtain ⟨edge, hnext⟩ := hchildren.1 (List.mem_of_find?_eq_some hfind)
      have hadmits : (ofLexicon l).admits next tag = true := by simpa using List.find?_some hfind
      rw [admits_of_find? hnext] at hadmits
      exact ⟨_, .goesOn h (exists_find?_concat_iff.1 ⟨next, hnext⟩) hadmits, hnext⟩
    · rintro ⟨path, hgoes, hnext⟩
      cases hgoes with
      | stays hyes => exact absurd hyes h
      | @goesOn edge _ hpath haccepts =>
        -- the child of the edge is found, since no other child admits the tag
        have hadmits : (ofLexicon l).admits next tag = true := by
          rwa [admits_of_find? hnext]
        cases hfind : ((ofLexicon l).children id).find? ((ofLexicon l).admits · tag) with
        | none => exact absurd hadmits (List.find?_eq_none.1 hfind next (hchildren.2 ⟨edge, hnext⟩))
        | some other =>
          obtain ⟨edge', hother⟩ := hchildren.1 (List.mem_of_find?_eq_some hfind)
          have hadmits' : (ofLexicon l).admits other tag = true := by
            simpa using List.find?_some hfind
          rw [admits_of_find? hother] at hadmits'
          obtain rfl := hfree (exists_find?_concat_iff.1 ⟨other, hother⟩) hpath hadmits' haccepts
          exact hother.symm.trans hnext

/-- No match goes on from a path that is not repeated and has no continuation. -/
lemma isLeaf_iff_of_find? {edge : Edge} (h : (ofLexicon l).find? (path ++ [edge]) = some id) :
    (ofLexicon l).isLeaf id = true ↔
      ¬ l.RepeatsAt (path ++ [edge]) ∧ ∀ e, ¬ l.HasPath (path ++ [edge] ++ [e]) := by
  have hrepeats : (ofLexicon l).nodes[id]?.any (·.repeats) = (ofLexicon l).repeatsAt id := rfl
  have hchildren : (ofLexicon l).children id = [] ↔ ∀ e, ¬ l.HasPath (path ++ [edge] ++ [e]) := by
    simp only [List.eq_nil_iff_forall_not_mem, mem_children_iff_of_find? h,
      ← exists_find?_concat_iff]
    exact ⟨fun hnone e ⟨next, hnext⟩ => hnone next ⟨e, hnext⟩,
      fun hnone next ⟨e, hnext⟩ => hnone e ⟨next, hnext⟩⟩
  rw [isLeaf, hrepeats, Bool.and_eq_true, List.isEmpty_iff, hchildren, Bool.not_eq_true',
    Bool.eq_false_iff, Ne, repeatsAt_iff_of_find? h, and_comm]

/-- What a match becomes at a node: the full match of a lexeme that ends there, or if there is none,
the partial match of the default lexeme, unless the owner of the node has its own. -/
lemma verdictAt_cases {edge : Edge} (h : (ofLexicon l).find? (path ++ [edge]) = some id)
    (hpartial : ∀ lexeme ∈ l.patternLexemes, lexeme.partialMatch? = none) :
    (∃ lexeme ∈ l.patternLexemes, Item.Ends lexeme.items (path ++ [edge]) ∧
        (ofLexicon l).verdictAt l id = lexeme.fullVerdict) ∨
      (∀ lexeme ∈ l.patternLexemes, ¬ Item.Ends lexeme.items (path ++ [edge])) ∧
        (ofLexicon l).verdictAt l id = l.defaultLexeme.partialVerdict := by
  obtain ⟨node, _, hnode, _, _, hkeeps⟩ := exists_node_of_find? h
  cases hfull : node.fullMatch? with
  | some i =>
    obtain ⟨items, hitems, hends⟩ := (hkeeps.fullMatch i hfull).1
    obtain ⟨lexeme, hmem, hlexeme, rfl⟩ := Lexicon.exists_lexeme_of_pattern? hitems
    exact .inl ⟨lexeme, hmem, hends, by simp [verdictAt, hnode, hfull, hlexeme]⟩
  | none =>
    obtain ⟨_, ⟨items, hitems, _⟩, _⟩ := hkeeps.owner.1
    obtain ⟨lexeme, hmem, hlexeme, _⟩ := Lexicon.exists_lexeme_of_pattern? hitems
    refine .inr ⟨fun other hother hends => ?_, ?_⟩
    · obtain ⟨i, hi, _⟩ := Lexicon.exists_pattern?_of_mem hother
      exact hkeeps.fullMatch?_eq_none_iff.1 hfull i ⟨_, hi, hends⟩
    · simp [verdictAt, hnode, hfull, hlexeme, Lexeme.ownPartialVerdict?, hpartial lexeme hmem]

end Trie

/-! ## What does not depend on the order -/

namespace Lexicon

/-- Siblings without common tags make no forks. -/
lemma OrderFree.forkFree (h : l.OrderFree) : l.ForkFree := by
  intro path e f tag he hf hetag hftag
  obtain ⟨a, ha⟩ := Trie.exists_find?_concat_iff.2 he
  obtain ⟨b, hb⟩ := Trie.exists_find?_concat_iff.2 hf
  obtain ⟨id, hid⟩ := Trie.exists_find?_of_append ha
  by_contra hne
  have hab : a ≠ b := by
    rintro rfl
    have hfollows := Trie.follows_ofLexicon l
    have hsame := (hfollows.find?_eq_some_iff.1 ha).symm.trans (hfollows.find?_eq_some_iff.1 hb)
    exact hne (by simpa using hsame)
  have hsymm : Std.Symm fun a b => ∀ e ∈ (Trie.ofLexicon l).edge? a,
      ∀ f ∈ (Trie.ofLexicon l).edge? b, e.Disjoint f :=
    ⟨fun a b hab f hf e he tag htag => hab e he f hf tag htag.symm⟩
  have hdisjoint := (h.siblings id (Trie.lt_size_of_find? hid)).forall
    ((Trie.mem_children_iff_of_find? hid).2 ⟨e, ha⟩)
    ((Trie.mem_children_iff_of_find? hid).2 ⟨f, hb⟩) hab
  obtain ⟨_, _, hnode, hlink, _⟩ := Trie.exists_node_of_find? ha
  obtain ⟨_, _, hnode', hlink', _⟩ := Trie.exists_node_of_find? hb
  exact hdisjoint e (by simp [Trie.edge?, hnode, hlink]) f (by simp [Trie.edge?, hnode', hlink'])
    tag ⟨hetag, hftag⟩

lemma OrderFree.eq_of_ends (h : l.OrderFree) {a b : Lexeme} (ha : a ∈ l.patternLexemes)
    (hb : b ∈ l.patternLexemes) (haends : Item.Ends a.items path)
    (hbends : Item.Ends b.items path) : a = b := by
  obtain ⟨i, hi, hia⟩ := exists_pattern?_of_mem ha
  obtain ⟨j, hj, hjb⟩ := exists_pattern?_of_mem hb
  obtain rfl := h.eq_of_completes i j path ⟨_, hi, haends⟩ ⟨_, hj, hbends⟩
  exact Option.some.inj (hia.symm.trans hjb)

namespace Reordered

lemma tour_perm (h : l.Reordered l') : l.tour.Perm l'.tour :=
  h.perm.flatMap_right _

lemma hasPath_iff (h : l.Reordered l') : l'.HasPath path ↔ l.HasPath path := by
  simp only [Lexicon.hasPath_iff, h.tour_perm.mem_iff]

lemma repeatsAt_iff (h : l.Reordered l') : l'.RepeatsAt path ↔ l.RepeatsAt path := by
  simp only [Lexicon.repeatsAt_iff, h.tour_perm.mem_iff]

lemma goes_iff (h : l.Reordered l') : l'.Goes tag start path ↔ l.Goes tag start path := by
  have hstays : ∀ p, l'.Stays p tag ↔ l.Stays p tag := fun p => by
    rw [Stays, Stays, h.repeatsAt_iff]
  constructor
  · rintro (hyes | ⟨hnot, hpath, haccepts⟩)
    · exact .stays ((hstays _).1 hyes)
    · exact .goesOn ((hstays _).not.1 hnot) (h.hasPath_iff.1 hpath) haccepts
  · rintro (hyes | ⟨hnot, hpath, haccepts⟩)
    · exact .stays ((hstays _).2 hyes)
    · exact .goesOn ((hstays _).not.2 hnot) (h.hasPath_iff.2 hpath) haccepts

lemma forkFree (h : l.Reordered l') (hfree : l.ForkFree) : l'.ForkFree := by
  intro path e f tag he hf
  exact hfree (h.hasPath_iff.1 he) (h.hasPath_iff.1 hf)

/-! ## Nodes of the same path -/

section SamePath

variable {id' : NodeId} {edge : Edge}

lemma isLeaf_eq (h : l.Reordered l') (hid : (Trie.ofLexicon l).find? (path ++ [edge]) = some id)
    (hid' : (Trie.ofLexicon l').find? (path ++ [edge]) = some id') :
    (Trie.ofLexicon l').isLeaf id' = (Trie.ofLexicon l).isLeaf id := by
  rw [Bool.eq_iff_iff, Trie.isLeaf_iff_of_find? hid, Trie.isLeaf_iff_of_find? hid',
    h.repeatsAt_iff]
  simp only [h.hasPath_iff]

lemma verdictAt_eq (h : l.Reordered l') (hfree : l.OrderFree)
    (hid : (Trie.ofLexicon l).find? (path ++ [edge]) = some id)
    (hid' : (Trie.ofLexicon l').find? (path ++ [edge]) = some id') :
    (Trie.ofLexicon l').verdictAt l' id' = (Trie.ofLexicon l).verdictAt l id := by
  have hpartial' : ∀ lexeme ∈ l'.patternLexemes, lexeme.partialMatch? = none :=
    fun lexeme hmem => hfree.partialMatch?_eq_none lexeme (h.perm.mem_iff.2 hmem)
  rcases Trie.verdictAt_cases hid hfree.partialMatch?_eq_none with
    ⟨a, ha, haends, hverdict⟩ | ⟨hnone, hverdict⟩ <;>
  rcases Trie.verdictAt_cases hid' hpartial' with
    ⟨b, hb, hbends, hverdict'⟩ | ⟨hnone', hverdict'⟩
  · rw [hverdict, hverdict', hfree.eq_of_ends ha (h.perm.mem_iff.2 hb) haends hbends]
  · exact absurd haends (hnone' a (h.perm.mem_iff.1 ha))
  · exact absurd hbends (hnone b (h.perm.mem_iff.2 hb))
  · rw [hverdict, hverdict', h.defaultLexeme_eq]

/-- Matches of the same symbols that end at nodes of the same path become the same token. -/
lemma token?_verdictAt_eq (h : l.Reordered l') (hfree : l.OrderFree)
    (hid : (Trie.ofLexicon l).find? (path ++ [edge]) = some id)
    (hid' : (Trie.ofLexicon l').find? (path ++ [edge]) = some id') {history history' : History}
    (hsymbols : history.symbols = history'.symbols) :
    ((Trie.ofLexicon l).verdictAt l id).token? history =
      ((Trie.ofLexicon l').verdictAt l' id').token? history' := by
  rw [h.verdictAt_eq hfree hid hid']
  refine Verdict.token?_congr ?_ hsymbols
  rcases Trie.verdictAt_cases hid hfree.partialMatch?_eq_none with
    ⟨lexeme, hmem, _, hverdict⟩ | ⟨_, hverdict⟩
  · rw [hverdict]
    exact Lexeme.isFunction_fullVerdict
      (hfree.usesFunction_eq_false lexeme (List.mem_cons_of_mem _ hmem))
  · rw [hverdict]
    exact Lexeme.isFunction_partialVerdict
      (hfree.usesFunction_eq_false _ List.mem_cons_self)

/-- From nodes of the same path a tag leads to nodes of the same path, or nowhere. -/
lemma successor?_cases (h : l.Reordered l') (hfree : l.OrderFree)
    (hid : (Trie.ofLexicon l).find? path = some id)
    (hid' : (Trie.ofLexicon l').find? path = some id') (tag : Tag) :
    ((Trie.ofLexicon l).successor? id tag = none ∧ (Trie.ofLexicon l').successor? id' tag = none) ∨
      ∃ q e next next', (Trie.ofLexicon l).successor? id tag = some next ∧
        (Trie.ofLexicon l').successor? id' tag = some next' ∧
        (Trie.ofLexicon l).find? (q ++ [e]) = some next ∧
        (Trie.ofLexicon l').find? (q ++ [e]) = some next' := by
  have hnext : ∀ {k}, (Trie.ofLexicon l).successor? id tag = some k ↔
      ∃ q, l.Goes tag path q ∧ (Trie.ofLexicon l).find? q = some k :=
    Trie.successor?_eq_some_iff hfree.forkFree hid
  have hnext' : ∀ {k}, (Trie.ofLexicon l').successor? id' tag = some k ↔
      ∃ q, l'.Goes tag path q ∧ (Trie.ofLexicon l').find? q = some k :=
    Trie.successor?_eq_some_iff (h.forkFree hfree.forkFree) hid'
  by_cases hgo : ∃ q, l.Goes tag path q
  · obtain ⟨q, hgoes⟩ := hgo
    obtain ⟨q, e, rfl, hpath⟩ := hgoes.exists_concat
    obtain ⟨next, hfind⟩ := Trie.exists_find?_concat_iff.2 hpath
    obtain ⟨next', hfind'⟩ := Trie.exists_find?_concat_iff.2 (h.hasPath_iff.2 hpath)
    exact .inr ⟨q, e, next, next', hnext.2 ⟨_, hgoes, hfind⟩,
      hnext'.2 ⟨_, h.goes_iff.2 hgoes, hfind'⟩, hfind, hfind'⟩
  · refine .inl ⟨Option.eq_none_iff_forall_ne_some.2 fun k hk => ?_,
      Option.eq_none_iff_forall_ne_some.2 fun k hk => ?_⟩
    · obtain ⟨q, hgoes, _⟩ := hnext.1 hk
      exact hgo ⟨q, hgoes⟩
    · obtain ⟨q, hgoes, _⟩ := hnext'.1 hk
      exact hgo ⟨q, h.goes_iff.1 hgoes⟩

end SamePath

end Reordered

end Lexicon

/-! ## Runs -/

/-- The walkers stand at nodes of the same path, with the same symbols behind them. -/
def Walker.Alongside (l l' : Lexicon) (w w' : Walker) : Prop :=
  ∃ path, (Trie.ofLexicon l).find? path = some w.node ∧
    (Trie.ofLexicon l').find? path = some w'.node ∧ w.history.symbols = w'.history.symbols

lemma Walker.alongside_start (l l' : Lexicon) : Walker.start.Alongside l l' .start :=
  ⟨[], rfl, rfl, rfl⟩

lemma Walker.Alongside.node_eq_rootId_iff {w w' : Walker} (h : w.Alongside l l' w') :
    w.node = Trie.rootId ↔ w'.node = Trie.rootId := by
  obtain ⟨path, hnode, hnode', _⟩ := h
  rw [Trie.eq_rootId_iff_of_find? hnode, Trie.eq_rootId_iff_of_find? hnode']

namespace Lexicon.Reordered

variable {w w' : Walker} {s : Symbol}

/-- A match in progress becomes the same token on both sides. -/
lemma token?_pending_eq (h : l.Reordered l') (hfree : l.OrderFree) (hw : w.Alongside l l' w')
    (hroot : w.node ≠ Trie.rootId) :
    ((Trie.ofLexicon l).verdictAt l w.node).token? w.history =
      ((Trie.ofLexicon l').verdictAt l' w'.node).token? w'.history := by
  obtain ⟨path, hnode, hnode', hsymbols⟩ := hw
  rw [Ne, Trie.eq_rootId_iff_of_find? hnode] at hroot
  obtain ⟨q, e, rfl⟩ := (List.eq_nil_or_concat' path).resolve_left hroot
  exact h.token?_verdictAt_eq hfree hnode hnode' hsymbols

/-- A symbol that no pattern starts with becomes the same token on both sides. -/
lemma token?_default_eq (h : l.Reordered l') (hfree : l.OrderFree) (s : Symbol)
    (name name' : String) :
    l.defaultLexeme.fullVerdict.token? (History.empty.push name s) =
      l'.defaultLexeme.fullVerdict.token? (History.empty.push name' s) := by
  have hdefault := Lexeme.isFunction_fullVerdict
    (hfree.usesFunction_eq_false _ List.mem_cons_self)
  rw [h.defaultLexeme_eq]
  refine Verdict.token?_congr hdefault ?_
  rw [History.symbols_push, History.symbols_push]

/-- **One step.**  Walkers alongside each other see the same, and stay alongside each other. -/
lemma step (h : l.Reordered l') (hfree : l.OrderFree) (hw : w.Alongside l l' w') (s : Symbol) :
    (w.step (.ofLexicon l) l s).1 = (w'.step (.ofLexicon l') l' s).1 ∧
      (w.step (.ofLexicon l) l s).2.Alongside l l' (w'.step (.ofLexicon l') l' s).2 := by
  have hstart := Walker.alongside_start l l'
  have hroot_iff := hw.node_eq_rootId_iff
  obtain ⟨path, hnode, hnode', hsymbols⟩ := id hw
  cases hend : s.isEndOfStream with
  | true =>
    by_cases hroot : w.node = Trie.rootId
    · simp only [Walker.step, hend, hroot, hroot_iff.1 hroot, if_true, true_and]
      exact hw
    · simp only [Walker.step, hend, hroot, hroot_iff.not.1 hroot, if_true, if_false,
        h.token?_pending_eq hfree hw hroot, true_and]
      exact hstart
  | false =>
    rcases h.successor?_cases hfree hnode hnode' s.tag with
      ⟨hnone, hnone'⟩ | ⟨q, e, next, next', hnext, hnext', hfind, hfind'⟩
    · by_cases hroot : w.node = Trie.rootId
      · rw [hroot] at hnone
        rw [hroot_iff.1 hroot] at hnone'
        have hdefault := h.token?_default_eq hfree s ((Trie.ofLexicon l).nameAt Trie.rootId)
          ((Trie.ofLexicon l').nameAt Trie.rootId)
        simp only [Walker.step, hend, hnone, hnone', hroot, hroot_iff.1 hroot, if_true, hdefault]
        exact ⟨rfl, hstart⟩
      · simp only [Walker.step, hend, hnone, hnone', hroot, hroot_iff.not.1 hroot, if_false,
          h.token?_pending_eq hfree hw hroot, true_and]
        exact hstart
    · have hpush : (w.history.push ((Trie.ofLexicon l).nameAt w.node) s).symbols =
          (w'.history.push ((Trie.ofLexicon l').nameAt w'.node) s).symbols := by
        rw [History.symbols_push, History.symbols_push, hsymbols]
      have hleaf' := h.isLeaf_eq hfind hfind'
      cases hleaf : (Trie.ofLexicon l).isLeaf next with
      | true =>
        rw [hleaf] at hleaf'
        simp only [Walker.step, hend, hnext, hnext', hleaf, hleaf',
          h.token?_verdictAt_eq hfree hfind hfind' hpush]
        exact ⟨rfl, hstart⟩
      | false =>
        rw [hleaf] at hleaf'
        simp only [Walker.step, hend, hnext, hnext', hleaf, hleaf']
        exact ⟨rfl, _, hfind, hfind', hpush⟩

/-- Walkers on the two tries go in lockstep. -/
lemma lockstep (h : l.Reordered l') (hfree : l.OrderFree) :
    Walker.Lockstep (.ofLexicon l) l (.ofLexicon l') l' (fun _ => True)
      (Walker.Alongside l l') where
  start := ⟨[], rfl, rfl, rfl⟩
  step := fun hw _ _ _ => h.step hfree hw _

end Lexicon.Reordered

/-- **The order of registration.**  If nothing in a lexicon depends on the order of its lexemes, the
same lexemes in another order run alike on all symbols. -/
theorem Automaton.agreeOn_of_reordered (h : l.Reordered l') (hfree : l.OrderFree)
    (ss : List Symbol) : (Automaton.new l.compile).AgreeOn (.new l'.compile) ss :=
  (h.lockstep hfree).agreeOn (Trie.fits_ofLexicon l) (Trie.fits_ofLexicon l') fun _ _ => trivial

lemma Lexicon.orderFree_marks : Automaton.marks.OrderFree where
  usesFunction_eq_false := by decide
  partialMatch?_eq_none := by decide
  eq_of_completes i j path hi hj := by
    have hends : ∀ e ∈ Automaton.marks.log.ends, ∀ e' ∈ Automaton.marks.log.ends,
        e.2 = e'.2 → e.1 = e'.1 := by decide +kernel
    exact hends (i, path) (mem_ends_log.2 hi) (j, path) (mem_ends_log.2 hj) rfl
  siblings := Automaton.overlapFree_marks.siblings

/-- Remarks, arrows and rules, registered from the last to the first. -/
theorem Automaton.agreeOn_of_reordered_marks :
    (Automaton.new marks.compile).AgreeOn
      (.new { marks with patternLexemes := marks.patternLexemes.reverse }.compile)
      [.special '-', .special '-', .special '>', .special '#', .text "so", .special '\n'] := by
  have hreordered : marks.Reordered { marks with patternLexemes := marks.patternLexemes.reverse } :=
    ⟨rfl, (List.reverse_perm _).symm⟩
  exact agreeOn_of_reordered hreordered Lexicon.orderFree_marks _

end Lexing
