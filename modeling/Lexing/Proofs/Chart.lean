import Lexing.Proofs.Insertion

/-!
# The trie of a lexicon

What the trie of a lexicon looks like is said here without tries: its nodes are the paths along
which the tours of the patterns pass (`Lexicon.Passes`), and a node keeps the first lexeme that
passes, the last lexeme that ends there (`Lexicon.Completes`), and whether some lexeme comes for a
repeated element (`Lexicon.RepeatsAt`).  `Trie.IsTrieOf` puts this together.

The trie follows its log (`Lexing.Proofs.Insertion`), so all that is left is to read the log of a
lexicon, which is written branch by branch, as tours (`mem_visits_log`, `mem_marks_log`,
`mem_ends_log`, `paths_log`).  The main result is `Trie.ofLexicon_isTrieOf`.
-/

namespace Lexing

open Pattern (Item)

/-! ## Visits -/

namespace Lexicon

/-- The pattern of a lexeme other than the default one. -/
def pattern? (l : Lexicon) (i : LexemeId) : Option (List Item) :=
  if i = defaultId then none else (l.lexeme? i).map (·.items)

/-- A tour of the pattern of lexeme `i` comes to the stop. -/
def Visits (l : Lexicon) (i : LexemeId) (stop : Stop) : Prop :=
  ∃ items, l.pattern? i = some items ∧ stop ∈ Item.tour items

/-- A line through the pattern of lexeme `i` ends with the last edge of `path`. -/
def Completes (l : Lexicon) (i : LexemeId) (path : List Edge) : Prop :=
  ∃ items, l.pattern? i = some items ∧ Item.Ends items path

/-- Lexeme `i` comes along `path`. -/
def Passes (l : Lexicon) (i : LexemeId) (path : List Edge) : Prop :=
  ∃ stop, l.Visits i stop ∧ stop.path = path

/-- Some lexeme comes along `path` and takes its last edge for a repeated element. -/
def RepeatsAt (l : Lexicon) (path : List Edge) : Prop :=
  ∃ i stop, l.Visits i stop ∧ stop.path = path ∧ stop.repeats = true

/-- The stops of all tours, in the order of registration. -/
def tour (l : Lexicon) : List Stop :=
  l.patternLexemes.flatMap fun lexeme => Item.tour lexeme.items

/-- The paths with one edge more than `path`, in the order in which tours first come there. -/
def continuations (l : Lexicon) (path : List Edge) : List (List Edge) :=
  ((l.tour.map (·.path)).filter (·.dropLast = path)).eraseDups

/-- Whatever a lexeme comes along has an edge. -/
lemma Passes.ne_nil {l : Lexicon} {i : LexemeId} {path : List Edge} (h : l.Passes i path) :
    path ≠ [] := by
  obtain ⟨stop, ⟨items, _, hstop⟩, rfl⟩ := h
  exact Item.path_ne_nil_of_mem_tour hstop

/-- What has a pattern is one of the lexemes with patterns. -/
lemma exists_lexeme_of_pattern? {l : Lexicon} {i : LexemeId} {items : List Item}
    (h : l.pattern? i = some items) :
    ∃ lexeme ∈ l.patternLexemes, l.lexeme? i = some lexeme ∧ lexeme.items = items := by
  unfold pattern? at h
  split at h
  · cases h
  · rename_i hi
    obtain ⟨lexeme, hlexeme, hitems⟩ := Option.map_eq_some_iff.1 h
    obtain ⟨k, rfl⟩ := Nat.exists_eq_succ_of_ne_zero hi
    have hmem : l.patternLexemes[k]? = some lexeme := hlexeme
    exact ⟨lexeme, List.mem_of_getElem? hmem, hlexeme, hitems⟩

/-- A lexeme that ends somewhere is registered, and not the default one. -/
lemma exists_lexeme?_of_completes {l : Lexicon} {i : LexemeId} {path : List Edge}
    (h : l.Completes i path) : i ≠ defaultId ∧ ∃ lexeme, l.lexeme? i = some lexeme := by
  obtain ⟨items, hitems, _⟩ := h
  unfold pattern? at hitems
  split at hitems
  · cases hitems
  · rename_i hi
    obtain ⟨lexeme, hlexeme, _⟩ := Option.map_eq_some_iff.1 hitems
    exact ⟨hi, lexeme, hlexeme⟩

end Lexicon

/-! ## The log of a lexicon -/

namespace Lexicon

variable {l : Lexicon} {i : LexemeId} {path : List Edge}

/-- The log of the insertion of all patterns. -/
def log (l : Lexicon) : Log :=
  .join (Log.ofEach (defaultId + 1) l.patternLexemes)

lemma pattern?_eq_some_iff {items : List Item} :
    l.pattern? i = some items ↔
      ∃ lexeme, (lexeme, i) ∈ l.patternLexemes.zipIdx (defaultId + 1) ∧ lexeme.items = items := by
  rw [pattern?]
  cases i with
  | zero => simp [defaultId, List.mk_mem_zipIdx_iff_le_and_getElem?_sub]
  | succ k => simp [defaultId, List.mk_mem_zipIdx_iff_le_and_getElem?_sub, lexeme?, lexemes]

lemma mem_ofEach {log : Log} : log ∈ Log.ofEach (defaultId + 1) l.patternLexemes ↔
    ∃ j items, l.pattern? j = some items ∧ log = .ofBranches j (Item.branchesOf items) := by
  simp only [pattern?_eq_some_iff]
  constructor
  · intro hlog
    obtain ⟨⟨lexeme, j⟩, hmem, rfl⟩ := List.mem_map.1 hlog
    exact ⟨j, _, ⟨lexeme, hmem, rfl⟩, rfl⟩
  · rintro ⟨j, _, ⟨lexeme, hmem, rfl⟩, rfl⟩
    exact List.mem_map.2 ⟨(lexeme, j), hmem, rfl⟩

lemma mem_visits_log : (i, path) ∈ l.log.visits ↔ l.Passes i path := by
  simp only [log, Log.join, List.mem_flatMap, mem_ofEach]
  constructor
  · rintro ⟨_, ⟨j, items, hitems, rfl⟩, hmem⟩
    obtain ⟨rfl, stop, hstop, hpath⟩ := Log.mem_visits_ofBranches.1 hmem
    exact ⟨stop, ⟨items, hitems, hstop⟩, hpath⟩
  · rintro ⟨stop, ⟨items, hitems, hstop⟩, hpath⟩
    exact ⟨_, ⟨i, items, hitems, rfl⟩, Log.mem_visits_ofBranches.2 ⟨rfl, stop, hstop, hpath⟩⟩

lemma mem_marks_log : path ∈ l.log.marks ↔ l.RepeatsAt path := by
  simp only [log, Log.join, List.mem_flatMap, mem_ofEach]
  constructor
  · rintro ⟨_, ⟨j, items, hitems, rfl⟩, hmem⟩
    obtain ⟨stop, hstop, hpath, hrepeats⟩ := Log.mem_marks_ofBranches.1 hmem
    exact ⟨j, stop, ⟨items, hitems, hstop⟩, hpath, hrepeats⟩
  · rintro ⟨j, stop, ⟨items, hitems, hstop⟩, hpath, hrepeats⟩
    exact ⟨_, ⟨j, items, hitems, rfl⟩,
      Log.mem_marks_ofBranches.2 ⟨stop, hstop, hpath, hrepeats⟩⟩

lemma mem_ends_log : (i, path) ∈ l.log.ends ↔ l.Completes i path := by
  simp only [log, Log.join, List.mem_flatMap, mem_ofEach]
  constructor
  · rintro ⟨_, ⟨j, items, hitems, rfl⟩, hmem⟩
    obtain ⟨rfl, hends⟩ := Log.mem_ends_ofBranches.1 hmem
    exact ⟨items, hitems, hends⟩
  · rintro ⟨items, hitems, hends⟩
    exact ⟨_, ⟨i, items, hitems, rfl⟩, Log.mem_ends_ofBranches.2 ⟨rfl, hends⟩⟩

lemma paths_visits_log (l : Lexicon) : l.log.visits.map Prod.snd =
    l.patternLexemes.flatMap fun lexeme =>
      ((Item.branchesOf lexeme.items).flatMap (stopsAlong ·.steps)).map Stop.path := by
  have hbranches : ∀ j items, (Log.ofBranches j (Item.branchesOf items)).visits.map Prod.snd =
      ((Item.branchesOf items).flatMap (stopsAlong ·.steps)).map Stop.path := by
    intro j items
    simp [Log.ofBranches, Log.ofStops, Function.comp_def]
  rw [log, Log.join, Log.ofEach, List.flatMap_map, List.map_flatMap]
  simp only [hbranches]
  conv_rhs => rw [← List.zipIdx_map_fst (defaultId + 1) l.patternLexemes, List.flatMap_map]

lemma ne_nil_of_mem_tour {stop : Stop} (h : stop ∈ l.tour) : stop.path ≠ [] := by
  obtain ⟨lexeme, _, hstop⟩ := List.mem_flatMap.1 h
  exact Item.path_ne_nil_of_mem_tour hstop

/-- The paths of nodes are those of the stops of all tours, in the order of the first visits. -/
lemma paths_log (l : Lexicon) : l.log.paths = [] :: (l.tour.map Stop.path).eraseDups := by
  have hvisits : (l.log.visits.map Prod.snd).eraseDups = (l.tour.map Stop.path).eraseDups := by
    rw [paths_visits_log, tour, List.map_flatMap]
    exact eraseDups_flatMap_congr fun lexeme _ =>
      eraseDups_map_congr _ (Item.eraseDups_stops_branchesOf lexeme.items)
  have hne : ∀ p ∈ (l.tour.map Stop.path).eraseDups, (! [[]].contains p) = true := by
    intro p hp
    obtain ⟨stop, hstop, rfl⟩ := List.mem_map.1 (List.mem_eraseDups.1 hp)
    simpa using ne_nil_of_mem_tour hstop
  calc l.log.paths = ([[]] ++ l.log.visits.map Prod.snd).eraseDups := rfl
    _ = ([[]] ++ l.tour.map Stop.path).eraseDups := eraseDups_append_congr rfl hvisits
    _ = [] :: (l.tour.map Stop.path).eraseDups := by
      rw [eraseDups_append_eq, List.filter_eq_self.2 hne]
      simp [List.eraseDups_cons]

lemma filter_paths_log (l : Lexicon) (path : List Edge) :
    (l.log.paths.filter fun q => q ≠ [] ∧ q.dropLast = path) = l.continuations path := by
  have hne : ∀ q ∈ (l.tour.map Stop.path).eraseDups,
      decide (q ≠ [] ∧ q.dropLast = path) = decide (q.dropLast = path) := by
    intro q hq
    obtain ⟨stop, hstop, rfl⟩ := List.mem_map.1 (List.mem_eraseDups.1 hq)
    simp [ne_nil_of_mem_tour hstop]
  rw [paths_log, List.filter_cons_of_neg (by simp), continuations, eraseDups_filter,
    List.filter_congr hne]

end Lexicon

/-! ## The trie of a lexicon -/

namespace Trie

variable {l : Lexicon} {t : Trie} {log : Log} {id : NodeId} {path : List Edge}

lemma follows_ofLexicon (l : Lexicon) : (ofLexicon l).Follows l.log := by
  have hempty : ({} : Log).UpTo (defaultId + 1) := ⟨by simp, by simp⟩
  exact (follows_new defaultId).insertAll hempty l.patternLexemes

/-- The node to which a path leads from the root. -/
def find? (t : Trie) (path : List Edge) : Option NodeId :=
  path.foldlM t.child? rootId

lemma find?_concat (t : Trie) (path : List Edge) (edge : Edge) :
    t.find? (path ++ [edge]) = (t.find? path).bind (t.child? · edge) := by
  simp [find?, List.foldlM_append]

/-- Where a path leads, each part of it leads. -/
lemma exists_find?_of_append {path more : List Edge} (h : t.find? (path ++ more) = some id) :
    ∃ parent, t.find? path = some parent := by
  rw [find?, List.foldlM_append] at h
  obtain ⟨parent, hparent, _⟩ := Option.bind_eq_some_iff.1 h
  exact ⟨parent, hparent⟩

lemma Follows.find?_eq_some_iff (h : t.Follows log) :
    t.find? path = some id ↔ log.paths[id]? = some path := by
  induction path using List.reverseRecOn generalizing id with
  | nil =>
    constructor
    · intro hid
      cases hid
      exact log.getElem?_paths_zero
    · intro hid
      rw [Log.eq_of_getElem?_paths hid log.getElem?_paths_zero]
      rfl
  | append_singleton path edge ih =>
    rw [find?_concat, Option.bind_eq_some_iff]
    constructor
    · rintro ⟨parent, hparent, hchild⟩
      exact (h.child?_eq_some_iff (ih.1 hparent)).1 hchild
    · intro hid
      obtain ⟨_, parent, _, _, hparent, _⟩ := h.node hid
      exact ⟨parent, ih.2 hparent, (h.child?_eq_some_iff hparent).2 hid⟩

/-- The node is a child of another if its path is longer by one edge. -/
lemma Follows.parent_eq (h : t.Follows log) (hid : log.paths[id]? = some path) {k : NodeId}
    (hk : k < t.size) : (t.nodes[k]?.bind (·.link?)).any (·.parent == id) =
      log.paths[k]?.any fun q => decide (q ≠ [] ∧ q.dropLast = path) := by
  have hlt : k < log.paths.length := h.size_eq ▸ hk
  have hpath : log.paths[k]? = some log.paths[k] := List.getElem?_eq_getElem hlt
  rcases List.eq_nil_or_concat' log.paths[k] with hnil | ⟨q, edge, hq⟩
  · rw [hnil] at hpath
    obtain ⟨root, hroot, hnone, _⟩ := h.root
    have hroot' : t.nodes[k]? = some root :=
      Log.eq_of_getElem?_paths hpath log.getElem?_paths_zero ▸ hroot
    simp [hpath, hroot', hnone]
  · rw [hq] at hpath
    obtain ⟨node, parent, hnode, hlink, hparent, _⟩ := h.node hpath
    have hnode' : t.nodes[k]? = some node := hnode
    have hsame : parent = id ↔ q = path := by
      constructor
      · rintro rfl
        exact Option.some.inj (hparent.symm.trans hid)
      · rintro rfl
        exact Log.eq_of_getElem?_paths hparent hid
    simp [hpath, hnode', hlink, beq_eq_decide, hsame]

/-- The children of a node come in the order in which the paths that are longer than its own by one
edge were first visited. -/
lemma Follows.children_eq (h : t.Follows log) (hid : log.paths[id]? = some path) :
    (t.children id).map some =
      (log.paths.filter fun q => q ≠ [] ∧ q.dropLast = path).map t.find? := by
  have hfind : ∀ k ∈ t.children id, some k = log.paths[k]?.bind t.find? := by
    intro k hk
    have hlt : k < log.paths.length := by
      rw [← h.size_eq]
      exact List.mem_range.1 (List.mem_of_mem_filter hk)
    rw [List.getElem?_eq_getElem hlt, Option.bind_some]
    exact (h.find?_eq_some_iff.2 (List.getElem?_eq_getElem hlt)).symm
  have hpaths : (List.range t.size).map (log.paths[·]?) = log.paths.map some := by
    apply List.ext_getElem?
    intro k
    by_cases hk : k < t.size
    · simp [hk, h.size_eq ▸ hk]
    · simp [hk, h.size_eq ▸ hk]
  have hchildren : t.children id = (List.range t.size).filter
      ((Option.any fun q => decide (q ≠ [] ∧ q.dropLast = path)) ∘ (log.paths[·]?)) :=
    List.filter_congr fun k hk => h.parent_eq hid (List.mem_range.1 hk)
  calc (t.children id).map some
      = (t.children id).map fun k => log.paths[k]?.bind t.find? := List.map_congr_left hfind
    _ = (((List.range t.size).map (log.paths[·]?)).filter
          (Option.any fun q => decide (q ≠ [] ∧ q.dropLast = path))).map (·.bind t.find?) := by
        rw [List.filter_map, List.map_map, hchildren]
        rfl
    _ = _ := by
        rw [hpaths, List.filter_map, List.map_map]
        rfl

lemma Follows.exists_path (h : t.Follows log) (hid : id < t.size) :
    ∃ path, log.paths[id]? = some path :=
  ⟨_, List.getElem?_eq_getElem (h.size_eq ▸ hid)⟩

/-- A node other than the root has a path with a last edge. -/
lemma Follows.exists_path_of_ne_rootId (h : t.Follows log) (hid : id < t.size)
    (hroot : id ≠ rootId) : ∃ path edge, log.paths[id]? = some (path ++ [edge]) := by
  obtain ⟨path, hpath⟩ := h.exists_path hid
  rcases List.eq_nil_or_concat' path with rfl | ⟨path, edge, rfl⟩
  · exact absurd (Log.eq_of_getElem?_paths hpath log.getElem?_paths_zero) hroot
  · exact ⟨path, edge, hpath⟩

lemma mem_children_iff {node : Node} (hnode : t.node? id = some node) {parent : NodeId} :
    id ∈ t.children parent ↔ ∃ edge, node.link? = some { parent, edge } := by
  have hnode' : t.nodes[id]? = some node := hnode
  have hlt : id < t.size := (Array.getElem?_eq_some_iff.1 hnode).1
  rw [children, List.mem_filter, List.mem_range, hnode', Option.bind_some]
  cases hlink : node.link? with
  | none => simp
  | some link => cases link; simp [hlt]

/-- Only one node has a given link, and only the root has none. -/
lemma Follows.eq_of_link?_eq (h : t.Follows log) {id' : NodeId} {node node' : Node}
    (hnode : t.node? id = some node) (hnode' : t.node? id' = some node')
    (hlink : node.link? = node'.link?) : id = id' := by
  have hlt : id < t.size := (Array.getElem?_eq_some_iff.1 hnode).1
  have hlt' : id' < t.size := (Array.getElem?_eq_some_iff.1 hnode').1
  by_cases hroot : id = rootId
  · by_contra hne
    have hroot' : id' ≠ rootId := fun heq => hne (hroot.trans heq.symm)
    obtain ⟨path, edge, hpath⟩ := h.exists_path_of_ne_rootId hlt' hroot'
    obtain ⟨_, _, hsome, hlink', _⟩ := h.node hpath
    obtain ⟨_, hnone, hlink'', _⟩ := h.root
    cases hnode'.symm.trans hsome
    cases (hroot ▸ hnode).symm.trans hnone
    rw [hlink', hlink''] at hlink
    cases hlink
  · obtain ⟨path, edge, hpath⟩ := h.exists_path_of_ne_rootId hlt hroot
    obtain ⟨_, parent, hsome, hlink', hparent, _⟩ := h.node hpath
    cases hnode.symm.trans hsome
    have hpath' : log.paths[id']? = some (path ++ [edge]) := by
      rw [← h.link?_eq_some_iff hparent, hnode', Option.bind_some, ← hlink, hlink']
    exact Log.eq_of_getElem?_paths hpath hpath'

lemma Follows.existsUnique_parent (h : t.Follows log) (hid : id < t.size)
    (hroot : id ≠ rootId) : ∃! parent, id ∈ t.children parent := by
  obtain ⟨path, edge, hpath⟩ := h.exists_path_of_ne_rootId hid hroot
  obtain ⟨node, parent, hnode, hlink, _⟩ := h.node hpath
  refine ⟨parent, (mem_children_iff hnode).2 ⟨edge, hlink⟩, ?_⟩
  intro other hother
  obtain ⟨edge', hlink'⟩ := (mem_children_iff hnode).1 hother
  cases hlink.symm.trans hlink'
  rfl

/-! ## Nodes by path -/

/-- The paths of nodes other than the root are those that some pattern passes along. -/
lemma exists_find?_ofLexicon_iff :
    (∃ id, id ≠ rootId ∧ (ofLexicon l).find? path = some id) ↔ ∃ i, l.Passes i path := by
  simp only [(follows_ofLexicon l).find?_eq_some_iff, ← Lexicon.mem_visits_log]
  constructor
  · rintro ⟨id, hroot, hid⟩
    rcases Log.mem_paths.1 (List.mem_of_getElem? hid) with rfl | hvisit
    · exact absurd (Log.eq_of_getElem?_paths hid l.log.getElem?_paths_zero) hroot
    · exact hvisit
  · rintro ⟨i, hvisit⟩
    obtain ⟨id, hid⟩ := List.getElem?_of_mem (Log.mem_paths.2 (.inr ⟨i, hvisit⟩))
    refine ⟨id, ?_, hid⟩
    rintro rfl
    cases hid.symm.trans l.log.getElem?_paths_zero
    exact (Lexicon.mem_visits_log.1 hvisit).ne_nil rfl

lemma lt_size_of_find? (h : (ofLexicon l).find? path = some id) : id < (ofLexicon l).size := by
  have hfollows := follows_ofLexicon l
  rw [hfollows.size_eq]
  exact (List.getElem?_eq_some_iff.1 (hfollows.find?_eq_some_iff.1 h)).1

/-- The node of a path, its link and what it keeps. -/
lemma exists_node_of_find? {edge : Edge} (h : (ofLexicon l).find? (path ++ [edge]) = some id) :
    ∃ node parent, (ofLexicon l).node? id = some node ∧ node.link? = some { parent, edge } ∧
      (ofLexicon l).find? path = some parent ∧
      node.Keeps {i | l.Passes i (path ++ [edge])} (l.RepeatsAt (path ++ [edge]))
        {i | l.Completes i (path ++ [edge])} := by
  have hfollows := follows_ofLexicon l
  obtain ⟨node, parent, hnode, hlink, hparent, hlogged⟩ :=
    hfollows.node (hfollows.find?_eq_some_iff.1 h)
  refine ⟨node, parent, hnode, hlink, hfollows.find?_eq_some_iff.2 hparent, ?_⟩
  simpa only [Log.Says, Lexicon.mem_visits_log, Lexicon.mem_marks_log, Lexicon.mem_ends_log]
    using hlogged

/-- The lexeme that ends at a node completes the path of the node. -/
lemma completes_of_fullMatch? {node : Node} {i : LexemeId}
    (h : (ofLexicon l).find? path = some id) (hnode : (ofLexicon l).node? id = some node)
    (hfull : node.fullMatch? = some i) : l.Completes i path := by
  rcases List.eq_nil_or_concat' path with rfl | ⟨path, edge, rfl⟩
  · obtain ⟨root, hroot, _, hnone, _⟩ := (follows_ofLexicon l).root
    cases h
    cases hnode.symm.trans hroot
    cases hfull.symm.trans hnone
  · obtain ⟨_, _, hnode', _, _, hkeeps⟩ := exists_node_of_find? h
    cases hnode.symm.trans hnode'
    exact (hkeeps.fullMatch i hfull).1

lemma exists_completes_of_fullMatch? {node : Node} {i : LexemeId}
    (hnode : (ofLexicon l).node? id = some node) (hfull : node.fullMatch? = some i) :
    ∃ path, l.Completes i path := by
  have hfollows := follows_ofLexicon l
  obtain ⟨path, hpath⟩ := hfollows.exists_path (Array.getElem?_eq_some_iff.1 hnode).1
  exact ⟨path, completes_of_fullMatch? (hfollows.find?_eq_some_iff.2 hpath) hnode hfull⟩

/-! ## The trie as a whole -/

/-- The trie is built from the patterns of the lexicon: its nodes are the paths along which some
pattern passes, and each keeps of the patterns what it should. -/
structure IsTrieOf (t : Trie) (l : Lexicon) : Prop where
  /-- The root is as it was made. -/
  root : ∃ node, t.node? rootId = some node ∧ node.link? = none ∧ node.fullMatch? = none ∧
    node.repeats = false
  /-- The paths of nodes other than the root are those that some pattern visits. -/
  exists_find?_iff : ∀ path,
    (∃ id, id ≠ rootId ∧ t.find? path = some id) ↔ ∃ i, l.Passes i path
  /-- Each node has exactly one path. -/
  existsUnique_path : ∀ id < t.size, ∃! path, t.find? path = some id
  /-- Siblings have different edges. -/
  eq_of_link?_eq : ∀ id id' node node', t.node? id = some node → t.node? id' = some node' →
    node.link? = node'.link? → id = id'
  /-- Each node other than the root is the child of exactly one node. -/
  existsUnique_parent : ∀ id < t.size, id ≠ rootId → ∃! parent, id ∈ t.children parent
  /-- The children of a node come in the order in which they were first visited. -/
  children_eq : ∀ path id, t.find? path = some id →
    (t.children id).map some = (l.continuations path).map t.find?
  /-- What a node keeps of the patterns. -/
  node : ∀ path id edge, t.find? (path ++ [edge]) = some id →
    ∃ node parent, t.node? id = some node ∧ node.link? = some { parent, edge } ∧
      t.find? path = some parent ∧
      node.Keeps {i | l.Passes i (path ++ [edge])} (l.RepeatsAt (path ++ [edge]))
        {i | l.Completes i (path ++ [edge])}

/-- The trie of a lexicon holds what the tours of its patterns come by, and nothing else. -/
theorem ofLexicon_isTrieOf (l : Lexicon) : (ofLexicon l).IsTrieOf l where
  root := (follows_ofLexicon l).root
  exists_find?_iff _ := exists_find?_ofLexicon_iff
  existsUnique_path id hid := by
    have h := follows_ofLexicon l
    obtain ⟨path, hpath⟩ := h.exists_path hid
    refine ⟨path, h.find?_eq_some_iff.2 hpath, ?_⟩
    intro other hother
    exact Option.some.inj ((h.find?_eq_some_iff.1 hother).symm.trans hpath)
  eq_of_link?_eq _ _ _ _ := (follows_ofLexicon l).eq_of_link?_eq
  existsUnique_parent _ := (follows_ofLexicon l).existsUnique_parent
  children_eq path id hid := by
    have h := follows_ofLexicon l
    rw [h.children_eq (h.find?_eq_some_iff.1 hid), Lexicon.filter_paths_log]
  node _ _ _ := exists_node_of_find?

end Trie

end Lexing
