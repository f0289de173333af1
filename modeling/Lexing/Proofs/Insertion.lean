import Lexing.Proofs.Log

/-!
# Tries follow their logs

Whatever is done to a trie can be read off its log.  `Trie.Follows` says how: the nodes are the
paths of the log, in the order of the first visits, each linked to the node of the path without its
last edge, and each keeps what the log says.

A step to a child, a mark and an end are one entry of the log each (`findOrAddChild`, `markRepeat`,
`complete`), so a branch, a pattern and a list of lexemes are what their parts are, by induction.
-/

namespace Lexing

open Pattern (Item)

namespace Trie

variable {t : Trie} {log : Log} {id parent : NodeId} {path : List Edge} {i : LexemeId}

/-! ## Tries that follow a log -/

/-- The trie is what the log makes of the empty trie. -/
structure Follows (t : Trie) (log : Log) : Prop where
  size_eq : t.size = log.paths.length
  root : ∃ node, t.node? rootId = some node ∧ node.link? = none ∧ node.fullMatch? = none ∧
    node.repeats = false
  /-- The node of a path is linked to that of the path without its last edge. -/
  node : ∀ {id : NodeId} {path : List Edge} {edge : Edge},
    log.paths[id]? = some (path ++ [edge]) →
      ∃ node parent, t.node? id = some node ∧ node.link? = some { parent, edge } ∧
        log.paths[parent]? = some path ∧ log.Says (path ++ [edge]) node
  mem_paths_of_mem_marks : ∀ path ∈ log.marks, path ∈ log.paths
  mem_paths_of_mem_ends : ∀ e ∈ log.ends, e.2 ∈ log.paths

lemma follows_new (owner : LexemeId) : (new owner).Follows {} where
  size_eq := by simp [new, size]
  root := ⟨_, rfl, rfl, rfl, rfl⟩
  node h := by simp [List.getElem?_singleton] at h
  mem_paths_of_mem_marks := by simp
  mem_paths_of_mem_ends := by simp

/-- The node of a path has a link with its last edge to the node of the path without it. -/
lemma Follows.link?_eq_some_iff (h : t.Follows log) {edge : Edge}
    (hparent : log.paths[parent]? = some path) :
    (t.node? id).bind (·.link?) = some { parent, edge } ↔
      log.paths[id]? = some (path ++ [edge]) := by
  constructor
  · intro hlink
    obtain ⟨node, hnode, hlink⟩ := Option.bind_eq_some_iff.1 hlink
    have hlt : id < log.paths.length := h.size_eq ▸ (Array.getElem?_eq_some_iff.1 hnode).1
    rcases List.eq_nil_or_concat' log.paths[id] with hnil | ⟨q, e, hq⟩
    · have hid : id = rootId := Log.eq_of_getElem?_paths
        (List.getElem?_eq_some_iff.2 ⟨hlt, hnil⟩) log.getElem?_paths_zero
      obtain ⟨root, hroot, hnone, _⟩ := h.root
      rw [hid, hroot] at hnode
      cases hnode
      rw [hnone] at hlink
      cases hlink
    · have hpath := List.getElem?_eq_some_iff.2 ⟨hlt, hq⟩
      obtain ⟨node', parent', hnode', hlink', hparent', _⟩ := h.node hpath
      cases hnode.symm.trans hnode'
      cases hlink.symm.trans hlink'
      rw [hpath, Option.some.inj (hparent'.symm.trans hparent)]
  · intro hpath
    obtain ⟨node, parent', hnode, hlink, hparent', _⟩ := h.node hpath
    rw [hnode, Option.bind_some, hlink, Log.eq_of_getElem?_paths hparent' hparent]

/-- The child of a node along an edge has the path that is longer by the edge. -/
lemma Follows.child?_eq_some_iff (h : t.Follows log) {edge : Edge}
    (hparent : log.paths[parent]? = some path) :
    t.child? parent edge = some id ↔ log.paths[id]? = some (path ++ [edge]) := by
  have hlink : ∀ {id : NodeId} {node : Node}, t.nodes[id]? = some node →
      (node.link? = some { parent, edge } ↔ log.paths[id]? = some (path ++ [edge])) := by
    intro id node hnode
    rw [← h.link?_eq_some_iff hparent, node?, hnode, Option.bind_some]
  rw [child?, Array.findIdx?_eq_some_iff_getElem]
  constructor
  · rintro ⟨hlt, hhere, _⟩
    exact (hlink (Array.getElem?_eq_getElem hlt)).1 (of_decide_eq_true hhere)
  · intro hpath
    obtain ⟨node, _, hnode, _⟩ := h.node hpath
    obtain ⟨hlt, hnode⟩ := Array.getElem?_eq_some_iff.1 hnode
    refine ⟨hlt, ?_, ?_⟩
    · exact decide_eq_true ((hlink (Array.getElem?_eq_getElem hlt)).2 hpath)
    · intro j hj hthere
      have hpath' := (hlink (Array.getElem?_eq_getElem (hj.trans hlt))).1 (of_decide_eq_true hthere)
      exact absurd (Log.eq_of_getElem?_paths hpath' hpath) (Nat.ne_of_lt hj)

/-! ## The three changes -/

/-- More is in the log, but nothing that the trie does not say already. -/
lemma Follows.append (h : t.Follows log) {more : Log} (hpaths : (log ++ more).paths = log.paths)
    (hmarks : ∀ p ∈ more.marks, p ∈ log.paths) (hends : ∀ e ∈ more.ends, e.2 ∈ log.paths)
    (hlogged : ∀ {q node}, log.Says q node → q ≠ [] → (log ++ more).Says q node) :
    t.Follows (log ++ more) where
  size_eq := by rw [hpaths, h.size_eq]
  root := h.root
  node hq := by
    rw [hpaths] at hq ⊢
    obtain ⟨node, parent, hnode, hlink, hparent, hnow⟩ := h.node hq
    exact ⟨node, parent, hnode, hlink, hparent, hlogged hnow (by simp)⟩
  mem_paths_of_mem_marks p hp := by
    rw [hpaths]
    exact (List.mem_append.1 hp).elim (h.mem_paths_of_mem_marks p) (hmarks p)
  mem_paths_of_mem_ends e he := by
    rw [hpaths]
    exact (List.mem_append.1 he).elim (h.mem_paths_of_mem_ends e) (hends e)

/-- A step to a child that is there leaves the trie as it is. -/
lemma Follows.visit_of_mem (h : t.Follows log) (hi : log.UpTo i) (hpath : path ∈ log.paths) :
    t.Follows (log ++ { visits := [(i, path)] }) := by
  refine h.append ?_ (by simp) (by simp) ?_
  · rw [Log.paths_append_visit, if_pos hpath, List.append_nil]
  · intro q node hlogged _
    by_cases hsame : q = path
    · exact hsame ▸ hlogged.visit hi
    · exact hlogged.visit_of_ne hsame

/-- A step to a child that is not there makes a node with the next number. -/
lemma Follows.visit_of_not_mem (h : t.Follows log) {edge : Edge}
    (hparent : log.paths[parent]? = some path) (hpath : path ++ [edge] ∉ log.paths)
    (name : String) :
    Follows { nodes := t.nodes.push { link? := some { parent, edge }, name, owner := i } }
      (log ++ { visits := [(i, path ++ [edge])] }) where
  size_eq := by
    rw [Log.paths_append_visit, if_neg hpath, List.length_append, ← h.size_eq, size, size,
      Array.size_push]
    rfl
  root := by
    obtain ⟨node, hnode, hroot⟩ := h.root
    have hlt : rootId < t.nodes.size := (Array.getElem?_eq_some_iff.1 hnode).1
    refine ⟨node, ?_, hroot⟩
    rw [node?, Array.getElem?_push, if_neg (Nat.ne_of_lt hlt)]
    exact hnode
  node {id q e} hq := by
    have hlength : t.nodes.size = log.paths.length := h.size_eq
    rw [Log.paths_append_visit, if_neg hpath] at hq ⊢
    rw [node?, Array.getElem?_push]
    rcases Nat.lt_trichotomy id log.paths.length with hid | hid | hid
    · -- an older node
      rw [List.getElem?_append_left hid] at hq
      obtain ⟨node, parent', hnode, hlink, hparent', hlogged⟩ := h.node hq
      have hne : q ++ [e] ≠ path ++ [edge] := fun hsame =>
        hpath (hsame ▸ List.mem_of_getElem? hq)
      refine ⟨node, parent', ?_, hlink, ?_, hlogged.visit_of_ne hne⟩
      · rw [if_neg (by omega)]
        exact hnode
      · exact (List.getElem?_append_left (List.getElem?_eq_some_iff.1 hparent').1).trans hparent'
    · -- the new node
      rw [hid, List.getElem?_concat_length] at hq
      obtain ⟨rfl, hedge⟩ := List.append_inj' (Option.some.inj hq) rfl
      cases hedge
      refine ⟨_, parent, if_pos (by omega), rfl, ?_, ?_⟩
      · exact (List.getElem?_append_left (List.getElem?_eq_some_iff.1 hparent).1).trans hparent
      · exact Log.says_visit (fun j hj => hpath (Log.mem_paths.2 (.inr ⟨j, hj⟩)))
          (fun hmem => hpath (h.mem_paths_of_mem_marks _ hmem))
          (fun j hj => hpath (h.mem_paths_of_mem_ends _ hj))
    · have hle : (log.paths ++ [path ++ [edge]]).length ≤ id := by
        rw [List.length_append, List.length_singleton]
        omega
      rw [List.getElem?_eq_none hle] at hq
      cases hq
  mem_paths_of_mem_marks p hp := by
    rw [Log.paths_append_visit]
    exact List.mem_append_left _ (h.mem_paths_of_mem_marks p (by simpa using hp))
  mem_paths_of_mem_ends e he := by
    rw [Log.paths_append_visit]
    exact List.mem_append_left _ (h.mem_paths_of_mem_ends e (by simpa using he))

/-- A step to a child is a visit to its path. -/
lemma Follows.findOrAddChild (h : t.Follows log) (hi : log.UpTo i)
    (hparent : log.paths[parent]? = some path) (edge : Edge) :
    (t.findOrAddChild i parent edge).2.Follows (log ++ { visits := [(i, path ++ [edge])] }) ∧
      (log ++ { visits := [(i, path ++ [edge])] } : Log).paths[
        (t.findOrAddChild i parent edge).1]? = some (path ++ [edge]) := by
  have hpaths := log.paths_append_visit i (path ++ [edge])
  unfold Trie.findOrAddChild
  cases hchild : t.child? parent edge with
  | some id =>
    have hid := (h.child?_eq_some_iff hparent).1 hchild
    have hmem : path ++ [edge] ∈ log.paths := List.mem_of_getElem? hid
    rw [if_pos hmem, List.append_nil] at hpaths
    exact ⟨h.visit_of_mem hi hmem, hpaths ▸ hid⟩
  | none =>
    have hmem : path ++ [edge] ∉ log.paths := by
      intro hmem
      obtain ⟨id, hid⟩ := List.getElem?_of_mem hmem
      rw [(h.child?_eq_some_iff hparent).2 hid] at hchild
      cases hchild
    rw [if_neg hmem] at hpaths
    refine ⟨h.visit_of_not_mem hparent hmem _, ?_⟩
    rw [hpaths, h.size_eq]
    simp

/-- A change of the node of one path, of which the log says that it changes only there. -/
lemma Follows.modify (h : t.Follows log) {f : Node → Node} {more : Log}
    (hid : log.paths[id]? = some path) (hpath : path ≠ []) (hvisits : more.visits = [])
    (hmarks : ∀ p ∈ more.marks, p = path) (hends : ∀ e ∈ more.ends, e.2 = path)
    (hlink : ∀ node, (f node).link? = node.link?)
    (hat : ∀ {node}, log.Says path node → (log ++ more).Says path (f node))
    (helse : ∀ {other node}, log.Says other node → other ≠ path → (log ++ more).Says other node) :
    Follows { nodes := t.nodes.modify id f } (log ++ more) where
  size_eq := by
    rw [log.paths_append_of_visits_eq_nil hvisits, ← h.size_eq, size, size, Array.size_modify]
  root := by
    have hne : ¬ id = rootId := by
      rintro rfl
      exact hpath (Option.some.inj (hid.symm.trans log.getElem?_paths_zero))
    obtain ⟨node, hnode, hroot⟩ := h.root
    refine ⟨node, ?_, hroot⟩
    rw [node?, Array.getElem?_modify, if_neg hne]
    exact hnode
  node {id' q edge} hq := by
    rw [log.paths_append_of_visits_eq_nil hvisits] at hq ⊢
    obtain ⟨node, parent, hnode, hlinked, hparent, hlogged⟩ := h.node hq
    rw [node?, Array.getElem?_modify]
    by_cases hsame : id = id'
    · have hq' : q ++ [edge] = path := Option.some.inj (hq.symm.trans (hsame ▸ hid))
      refine ⟨f node, parent, ?_, (hlink node).trans hlinked, hparent, ?_⟩
      · rw [if_pos hsame]
        exact congrArg (Option.map f) hnode
      · rw [hq'] at hlogged ⊢
        exact hat hlogged
    · have hne : q ++ [edge] ≠ path := fun hq' =>
        hsame (Log.eq_of_getElem?_paths hid (hq' ▸ hq))
      refine ⟨node, parent, ?_, hlinked, hparent, helse hlogged hne⟩
      rw [if_neg hsame]
      exact hnode
  mem_paths_of_mem_marks p hp := by
    rw [log.paths_append_of_visits_eq_nil hvisits]
    rcases List.mem_append.1 hp with hp | hp
    · exact h.mem_paths_of_mem_marks p hp
    · exact hmarks p hp ▸ List.mem_of_getElem? hid
  mem_paths_of_mem_ends e he := by
    rw [log.paths_append_of_visits_eq_nil hvisits]
    rcases List.mem_append.1 he with he | he
    · exact h.mem_paths_of_mem_ends e he
    · exact hends e he ▸ List.mem_of_getElem? hid

lemma Follows.markRepeat (h : t.Follows log) (hid : log.paths[id]? = some path)
    (hpath : path ≠ []) : (t.markRepeat id).Follows (log ++ { marks := [path] }) :=
  h.modify hid hpath rfl (by simp) (by simp) (fun _ => rfl) Log.Says.mark Log.Says.mark_of_ne

/-- Nothing ends at the root, of which the log has no more to say. -/
lemma Follows.complete (h : t.Follows log) (hi : log.UpTo i) (hid : log.paths[id]? = some path) :
    (t.complete i id).Follows (log ++ { ends := [(i, path)] }) := by
  unfold Trie.complete
  by_cases hroot : id = rootId
  · have hpath : path = [] := by
      rw [hroot] at hid
      exact Option.some.inj (hid.symm.trans log.getElem?_paths_zero)
    rw [if_pos hroot]
    refine h.append (log.paths_append_of_visits_eq_nil rfl) (by simp) ?_ ?_
    · intro e he
      rw [List.mem_singleton.1 he]
      exact List.mem_of_getElem? hid
    · intro q node hlogged hq
      exact hlogged.end_of_ne (hpath ▸ hq)
  · have hpath : path ≠ [] := by
      rintro rfl
      exact hroot (Log.eq_of_getElem?_paths hid log.getElem?_paths_zero)
    rw [if_neg hroot]
    exact h.modify hid hpath rfl (by simp) (by simp) (fun _ => rfl) (fun hlogged => hlogged.end hi)
      Log.Says.end_of_ne

/-! ## Insertions -/

lemma Follows.takeStep (h : t.Follows log) (hi : log.UpTo i)
    (hparent : log.paths[parent]? = some path) (step : BranchStep) :
    let stop : Stop := { path := path ++ [step.edge], repeats := step.repeats }
    (t.takeStep i parent step).2.Follows (log ++ .ofStops i [stop]) ∧
      (log ++ .ofStops i [stop]).paths[(t.takeStep i parent step).1]? = some stop.path := by
  intro stop
  obtain ⟨hfollows, hid⟩ := h.findOrAddChild hi hparent step.edge
  unfold Trie.takeStep
  by_cases hrepeats : step.repeats = true
  · have hlog : log ++ Log.ofStops i [stop] =
        log ++ { visits := [(i, stop.path)] } ++ { marks := [stop.path] } := by
      rw [Log.append_assoc]
      simp [Log.ofStops, stop, hrepeats]
      rfl
    simp only [hrepeats, if_true]
    rw [hlog, Log.paths_append_of_visits_eq_nil _ rfl]
    exact ⟨hfollows.markRepeat hid (by simp [stop]), hid⟩
  · have hlog : Log.ofStops i [stop] = { visits := [(i, stop.path)] } := by
      simp [Log.ofStops, stop, hrepeats]
    simp only [hrepeats]
    rw [hlog]
    exact ⟨hfollows, hid⟩

lemma Follows.walk (h : t.Follows log) (hi : log.UpTo i) (hid : log.paths[id]? = some path)
    (steps : List BranchStep) :
    let log' := log ++ .ofStops i ((stopsAlong steps).map (·.under path))
    (t.walk i id steps).2.Follows log' ∧
      log'.paths[(t.walk i id steps).1]? = some (path ++ steps.map (·.edge)) := by
  intro log'
  induction steps generalizing t log id path with
  | nil =>
    have hlog' : log' = log := log.append_empty
    rw [hlog', List.map_nil, List.append_nil]
    exact ⟨h, hid⟩
  | cons step steps ih =>
    obtain ⟨hfollows, hchild⟩ := h.takeStep hi hid step
    have hrest := ih hfollows (hi.append (Log.upTo_ofStops i _)) hchild
    have hlog' : log' =
        log ++ .ofStops i [{ path := path ++ [step.edge], repeats := step.repeats }] ++
          .ofStops i ((stopsAlong steps).map (·.under (path ++ [step.edge]))) := by
      rw [Log.append_assoc, ← Log.ofStops_cons]
      simp [log', stopsAlong, Stop.under, Function.comp_def]
    have hend : path ++ (step :: steps).map (·.edge) =
        path ++ [step.edge] ++ steps.map (·.edge) := by simp
    rw [hlog', hend]
    exact hrest

lemma Follows.insertBranch (h : t.Follows log) (hi : log.UpTo i) (b : Branch) :
    (t.insertBranch i b).Follows (log ++ .ofBranches i [b]) := by
  obtain ⟨hfollows, hid⟩ := h.walk hi log.getElem?_paths_zero b.steps
  have hstops : (stopsAlong b.steps).map (·.under []) = stopsAlong b.steps :=
    List.map_id' _
  rw [hstops] at hfollows hid
  rw [Log.ofBranches, List.flatMap_singleton, ← Log.append_assoc]
  unfold Trie.insertBranch
  by_cases hcompletes : b.completes = true
  · simp only [hcompletes, if_true]
    rw [List.filter_cons_of_pos hcompletes]
    exact hfollows.complete (hi.append (Log.upTo_ofStops i _)) hid
  · simp only [hcompletes]
    rw [List.filter_cons_of_neg hcompletes, List.filter_nil, List.map_nil, Log.append_empty,
      if_neg (by simp)]
    exact hfollows

lemma Follows.insert (h : t.Follows log) (hi : log.UpTo i) (items : List Item) :
    (t.insert i items).Follows (log ++ .ofBranches i (Item.branchesOf items)) := by
  unfold Trie.insert
  generalize Item.branchesOf items = bs
  induction bs generalizing t log with
  | nil =>
    rw [Log.ofBranches_nil, Log.append_empty]
    exact h
  | cons b bs ih =>
    rw [Log.ofBranches_cons, ← Log.append_assoc, List.foldl_cons]
    exact ih (h.insertBranch hi b) (hi.append (Log.upTo_ofBranches i [b]))

lemma Follows.insertAll (h : t.Follows log) (hi : log.UpTo i) (lexemes : List Lexeme) :
    (t.insertAll i lexemes).Follows (log ++ .join (Log.ofEach i lexemes)) := by
  induction lexemes generalizing t log i with
  | nil => exact (Log.append_empty log).symm ▸ h
  | cons lexeme lexemes ih =>
    have hi' := hi.append (Log.upTo_ofBranches i (Item.branchesOf lexeme.items))
    rw [Log.ofEach, List.zipIdx_cons, List.map_cons, Log.join_cons, ← Log.append_assoc]
    exact ih (h.insert hi lexeme.items) (hi'.mono (Nat.le_succ i))

end Trie

end Lexing
