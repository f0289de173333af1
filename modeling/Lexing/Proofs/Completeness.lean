import Lexing.Proofs.Conservation
import Lexing.Proofs.Descent
import Lexing.Proofs.TagSet
import Mathlib.Data.List.Pairwise

/-!
# Words are recognized

A trie may lead a word of a pattern astray: where several edges accept a symbol the first is taken,
and where the last step may be repeated it is.  If no two ways out of a node accept the same tag
(`Trie.OverlapFree`), a symbol has one way to go, so a word goes down along the path that it spells
(`OverlapFree.descend?_of_spells`) and ends at a node at which its pattern ends.

On the way down nothing is handed out (`exists_driveAll_of_descend?`).  At the end there are two
cases: a leaf makes the token with the last symbol, and any other node at the end of the stream
(`exists_token_of_successor?`).  Both make the same token, by the verdict of the node.
-/

namespace Lexing

open StateTable

variable {t : Trie} {l : Lexicon} {id next last : NodeId} {above path : List Edge}
  {s : Symbol} {ss w : List Symbol}

/-! ## Tries without overlap -/

/-- No tag may pass along both edges. -/
def Edge.Disjoint (e f : Edge) : Prop :=
  ∀ tag, ¬ (e.accepts tag = true ∧ f.accepts tag = true)

/-- The tags that may pass along both edges. -/
def Edge.common (e f : Edge) : TagSet :=
  e.tagSet.minus f.tagSet.complement

lemma Edge.contains_common (e f : Edge) (tag : Tag) :
    (e.common f).contains tag = (e.accepts tag && f.accepts tag) := by
  simp [common]

lemma Edge.disjoint_iff {e f : Edge} : e.Disjoint f ↔ (e.common f).isEmpty = true := by
  constructor
  · intro h
    by_contra hne
    obtain ⟨fresh, hfresh⟩ := exists_tag_notMem (e.common f).tags
    obtain ⟨tag, _, htag⟩ := TagSet.exists_contains_ne (by simpa using hne) hfresh
    rw [contains_common, Bool.and_eq_true] at htag
    exact h tag htag
  · intro h tag hboth
    have hnone := TagSet.contains_eq_false_of_isEmpty _ tag h
    rw [contains_common, hboth.1, hboth.2] at hnone
    cases hnone

instance (e f : Edge) : Decidable (e.Disjoint f) :=
  decidable_of_iff _ Edge.disjoint_iff.symm

namespace Trie

/-- The edge that leads to a node. No edge leads to the root. -/
def edge? (t : Trie) (id : NodeId) : Option Edge :=
  ((t.node? id).bind (·.link?)).map (·.edge)

/-- No two edges out of a node let the same tag pass, and none lets a tag pass that may be taken
once more at the node. -/
structure OverlapFree (t : Trie) : Prop where
  siblings : ∀ id < t.size, (t.children id).Pairwise fun a b =>
    ∀ e ∈ t.edge? a, ∀ f ∈ t.edge? b, e.Disjoint f
  loop : ∀ id < t.size, t.repeatsAt id = true → ∀ child ∈ t.children id,
    ∀ e ∈ t.edge? id, ∀ f ∈ t.edge? child, e.Disjoint f

instance (t : Trie) : Decidable t.OverlapFree :=
  decidable_of_iff
    ((∀ id < t.size, (t.children id).Pairwise fun a b =>
        ∀ e ∈ t.edge? a, ∀ f ∈ t.edge? b, e.Disjoint f) ∧
      ∀ id < t.size, t.repeatsAt id = true → ∀ child ∈ t.children id,
        ∀ e ∈ t.edge? id, ∀ f ∈ t.edge? child, e.Disjoint f)
    ⟨fun h => ⟨h.1, h.2⟩, fun h => ⟨h.siblings, h.loop⟩⟩

lemma exists_edge?_of_admits {tag : Tag} (h : t.admits id tag = true) :
    ∃ e ∈ t.edge? id, e.accepts tag = true := by
  rw [admits, Option.any_eq_true] at h
  obtain ⟨link, hlink, haccepts⟩ := h
  exact ⟨link.edge, by simp [edge?, hlink], haccepts⟩

lemma OverlapFree.eq_of_admits (h : t.OverlapFree) {a b : NodeId} {tag : Tag}
    (hid : id < t.size) (ha : a ∈ t.children id) (hb : b ∈ t.children id)
    (hatag : t.admits a tag = true) (hbtag : t.admits b tag = true) : a = b := by
  by_contra hne
  obtain ⟨e, he, hetag⟩ := exists_edge?_of_admits hatag
  obtain ⟨f, hf, hftag⟩ := exists_edge?_of_admits hbtag
  have hsymm : Std.Symm fun a b => ∀ e ∈ t.edge? a, ∀ f ∈ t.edge? b, e.Disjoint f :=
    ⟨fun a b hab f hf e he tag htag => hab e he f hf tag htag.symm⟩
  exact (h.siblings id hid).forall ha hb hne e he f hf tag ⟨hetag, hftag⟩

/-- Without overlap a child is reached on every tag that its edge accepts. -/
lemma OverlapFree.successor?_eq (h : t.OverlapFree) {tag : Tag} (hid : id < t.size)
    (hnext : next ∈ t.children id) (haccepts : t.admits next tag = true) :
    t.successor? id tag = some next := by
  have hstay : (t.repeatsAt id && t.admits id tag) = false := by
    rw [Bool.eq_false_iff, Ne, Bool.and_eq_true]
    rintro ⟨hrepeats, hadmits⟩
    obtain ⟨e, he, hetag⟩ := exists_edge?_of_admits hadmits
    obtain ⟨f, hf, hftag⟩ := exists_edge?_of_admits haccepts
    exact h.loop id hid hrepeats next hnext e he f hf tag ⟨hetag, hftag⟩
  rw [successor?, hstay, if_neg (by simp)]
  cases hfind : (t.children id).find? (t.admits · tag) with
  | none => exact absurd haccepts (List.find?_eq_none.1 hfind next hnext)
  | some other =>
    have hother : t.admits other tag = true := by simpa using List.find?_some hfind
    rw [h.eq_of_admits hid (List.mem_of_find?_eq_some hfind) hnext hother haccepts]

/-- At a repeat point the same node is reached once more, however often. -/
lemma descend?_of_stays (hrepeats : ss ≠ [] → t.repeatsAt id = true)
    (hadmits : ∀ s ∈ ss, t.admits id s.tag = true) : t.descend? id ss = some id := by
  induction ss with
  | nil => rfl
  | cons s ss ih =>
    rw [List.forall_mem_cons] at hadmits
    have hstay : t.successor? id s.tag = some id := by
      rw [successor?, hrepeats (by simp), hadmits.1]
      rfl
    calc t.descend? id (s :: ss) = (t.successor? id s.tag).bind (t.descend? · ss) := rfl
      _ = t.descend? id ss := by rw [hstay, Option.bind_some]
      _ = some id := ih (fun _ => hrepeats (by simp)) hadmits.2

/-- Without overlap what spells a path is a way down along it. -/
lemma OverlapFree.descend?_of_spells (hfree : (ofLexicon l).OverlapFree)
    (h : l.Spells above path w) (hid : (ofLexicon l).find? above = some id)
    (hlast : (ofLexicon l).find? (above ++ path) = some last) :
    (ofLexicon l).descend? id w = some last := by
  induction h generalizing id with
  | nil =>
    rw [List.append_nil] at hlast
    cases hid.symm.trans hlast
    rfl
  | @cons above path edge run w hne hrun haccepts _ ih =>
    rw [List.append_cons] at hlast
    obtain ⟨next, hnext⟩ := exists_find?_of_append hlast
    have hadmits : ∀ s ∈ run, (ofLexicon l).admits next s.tag = true := by
      intro s hs
      rw [admits_of_find? hnext]
      exact haccepts s hs
    obtain ⟨first, stays, rfl⟩ := List.exists_cons_of_ne_nil hne
    rw [List.forall_mem_cons] at hadmits
    have hfirst : (ofLexicon l).successor? id first.tag = some next :=
      hfree.successor?_eq (lt_size_of_find? hid)
        ((mem_children_iff_of_find? hid).2 ⟨edge, hnext⟩) hadmits.1
    have hstays : (ofLexicon l).descend? next stays = some next := by
      refine descend?_of_stays (fun hmore => ?_) hadmits.2
      rw [repeatsAt_iff_of_find? hnext]
      exact hrun.resolve_left fun hone => hmore (by simpa using hone)
    calc (ofLexicon l).descend? id (first :: stays ++ w)
        = ((ofLexicon l).successor? id first.tag).bind
            ((ofLexicon l).descend? · (stays ++ w)) := rfl
      _ = (ofLexicon l).descend? next w := by
        rw [hfirst, Option.bind_some, descend?_append, hstays, Option.bind_some]
      _ = some last := ih hnext hlast

end Trie

/-! ## Silence on the way down -/

namespace Automaton

lemma driveAll_append {a b c : Automaton} {tokens more : List Token} {ss us : List Symbol}
    (h : a.driveAll ss = .ok (tokens, b)) (h' : b.driveAll us = .ok (more, c)) :
    a.driveAll (ss ++ us) = .ok (tokens ++ more, c) := by
  induction ss generalizing a tokens with
  | nil =>
    cases h
    exact h'
  | cons s ss ih =>
    simp only [driveAll] at h
    split at h
    · cases h
    · rename_i first a' hdrive
      split at h
      · cases h
      · rename_i rest b' hrest
        cases h
        simp only [List.cons_append, driveAll, hdrive, ih hrest, List.append_assoc]

lemma actAll_append {a b : Automaton} {actions more : List Action}
    (h : a.actAll actions = .ok b) : a.actAll (actions ++ more) = b.actAll more := by
  induction actions generalizing a with
  | nil =>
    cases h
    rfl
  | cons action actions ih =>
    simp only [actAll] at h
    split at h
    · cases h
    · rename_i a' hact
      simp only [List.cons_append, actAll, hact, ih h]

lemma driveAll_singleton {a b : Automaton} {tokens : List Token}
    (h : a.drive s = .ok (tokens, b)) : a.driveAll [s] = .ok (tokens, b) := by
  simp [driveAll, h]

end Automaton

namespace Walker

/-- A walker that goes down the trie to a place where the match can go on has nothing to hand out
on its way, be the symbols driven or presented. -/
lemma exists_driveAll_of_descend? (ht : t.Fits l) (hss : ∀ s ∈ ss, s.isEndOfStream = false)
    (h : t.descend? Trie.rootId ss = some id) (hleaf : t.isLeaf id = false ∨ id = Trie.rootId) :
    ∃ w : Walker, (start.automaton t l).driveAll ss = .ok ([], w.automaton t l) ∧
      (start.automaton t l).actAll (ss.map .present) = .ok (w.automaton t l) ∧ w.Traced t l ∧
      w.node = id ∧ w.history.symbols = ss := by
  induction ss using List.reverseRecOn generalizing id with
  | nil =>
    cases h
    exact ⟨start, rfl, rfl, traced_start ht, rfl, rfl⟩
  | append_singleton ss s ih =>
    rw [Trie.descend?_concat] at h
    obtain ⟨before, hbefore, hnext⟩ := Option.bind_eq_some_iff.1 h
    rw [List.forall_mem_append, List.forall_mem_singleton] at hss
    obtain ⟨w, hrun, hact, hw, rfl, rfl⟩ :=
      ih hss.1 hbefore (.inl (Trie.isLeaf_eq_false_of_successor? hnext))
    have hleaf : t.isLeaf id = false :=
      hleaf.resolve_right (Trie.ne_rootId_of_admits ht (Trie.admits_of_successor? hnext))
    have hstep := step_automaton ht hw.toSound s
    have hgo : w.step t l s =
        ({ token? := none, signal := .goOn },
          { node := id, history := w.history.push (t.nameAt w.node) s }) := by
      simp [Walker.step, hss.2, hnext, hleaf]
    have hdrive := Automaton.drive_of_ne_replay hstep (by simp [image, hgo])
    refine ⟨(w.step t l s).2, ?_, ?_, hw.step ht s, by rw [hgo], by rw [hgo, History.symbols_push]⟩
    · have hall := Automaton.driveAll_append hrun (Automaton.driveAll_singleton hdrive)
      simpa [image, hgo] using hall
    · rw [List.map_append, Automaton.actAll_append hact, List.map_singleton, Automaton.actAll,
        Automaton.act, hstep]
      rfl

/-- A walker on its way down has nothing to hand out as long as there is a symbol left. -/
lemma exists_driveAll_of_descend?_cons (ht : t.Fits l) {rest : List Symbol}
    (hss : ∀ s ∈ ss, s.isEndOfStream = false)
    (h : t.descend? Trie.rootId (ss ++ s :: rest) = some id) :
    ∃ (w : Walker) (next : NodeId), (start.automaton t l).driveAll ss = .ok ([], w.automaton t l) ∧
      w.Traced t l ∧ w.history.symbols = ss ∧ t.successor? w.node s.tag = some next ∧
      t.descend? next rest = some id := by
  rw [Trie.descend?_append] at h
  obtain ⟨node, hnode, h⟩ := Option.bind_eq_some_iff.1 h
  obtain ⟨next, hnext, hrest⟩ := Option.bind_eq_some_iff.1 h
  obtain ⟨w, hrun, _, hw, rfl, hsymbols⟩ := exists_driveAll_of_descend? (l := l) ht hss hnode
    (.inl (Trie.isLeaf_eq_false_of_successor? hnext))
  exact ⟨w, next, hrun, hw, hsymbols, hnext, hrest⟩

/-- The last symbol of a way down and the end of the stream make one token of the whole way: at a
leaf the symbol does, and elsewhere the end. -/
lemma Traced.exists_token_of_successor? (ht : t.Fits l) {w : Walker} (hw : w.Traced t l)
    (hs : s.isEndOfStream = false) (hnext : t.successor? w.node s.tag = some id) :
    ∃ history token, history.symbols = w.history.symbols ++ [s] ∧
      (t.verdictAt l id).token? history = some token ∧
      (w.automaton t l).driveAll [s, .endOfStream] = .ok ([token], start.automaton t l) := by
  have hhistory := History.symbols_push w.history (t.nameAt w.node) s
  obtain ⟨token, htoken⟩ :=
    (t.verdictAt l id).exists_token? (History.isEmpty_push w.history (t.nameAt w.node) s)
  refine ⟨_, token, hhistory, htoken, ?_⟩
  have hstep := step_automaton ht hw.toSound s
  have hafter := (hw.step ht s).toSound
  cases hleaf : t.isLeaf id with
  | true =>
    have hgo : w.step t l s = ({ token? := some token, signal := .reset }, start) := by
      simp [Walker.step, hs, hnext, hleaf, htoken]
    have hrest : start.step t l .endOfStream = ({ token? := none, signal := .goOn }, start) := by
      simp [Walker.step, start]
    have hdrive := Automaton.drive_of_ne_replay hstep (by simp [image, hgo])
    have hflush := Automaton.drive_of_ne_replay
      (step_automaton ht (sound_start (t := t) ht) (l := l) .endOfStream) (by simp [image, hrest])
    simp [Automaton.driveAll, hdrive, hflush, image, hgo, hrest]
  | false =>
    have hgo : w.step t l s =
        ({ token? := none, signal := .goOn },
          { node := id, history := w.history.push (t.nameAt w.node) s }) := by
      simp [Walker.step, hs, hnext, hleaf]
    have hroot := Trie.ne_rootId_of_admits ht (Trie.admits_of_successor? hnext)
    rw [hgo] at hafter
    have hend : Walker.step t l { node := id, history := w.history.push (t.nameAt w.node) s }
        .endOfStream = ({ token? := some token, signal := .reset }, start) := by
      simp [Walker.step, hroot, htoken]
    have hdrive := Automaton.drive_of_ne_replay hstep (by simp [image, hgo])
    have hflush := Automaton.drive_of_ne_replay (step_automaton ht hafter (l := l) .endOfStream)
      (by simp [image, hend])
    simp [Automaton.driveAll, hdrive, hflush, image, hgo, hend]

end Walker

/-! ## Words -/

/-- No pattern of an accepted lexicon can be matched by nothing. -/
lemma Lexicon.Accepted.allNullable_eq_false (h : l.Accepted) {i : LexemeId}
    {items : List Pattern.Item} (hi : l.pattern? i = some items) :
    Pattern.Item.allNullable items = false := by
  obtain ⟨lexeme, hlexeme, rfl⟩ := pattern?_eq_some_iff.1 hi
  exact (h.checked (List.fst_mem_of_mem_zipIdx hlexeme)).allNullable_eq_false

namespace Automaton

/-- Driven over the symbols and flushed, the automaton hands out nothing before the last symbol, and
in all one token: the full match of the lexeme with just these symbols. -/
structure Recognizes (a : Automaton) (w : List Symbol) (lexeme : Lexeme) : Prop where
  silent : ∀ v, v <+: w → v ≠ w → ∃ b, a.driveAll v = .ok ([], b)
  exists_token : ∃ history token, history.symbols = w ∧
    lexeme.fullVerdict.token? history = some token ∧
    a.driveAll (w ++ [.endOfStream]) = .ok ([token], a)

/-- On its way down to a node at which lexemes end, the automaton recognizes what it reads for the
last of them. -/
lemma recognizes_of_descend? (ht : t.Fits l) {node : Node} {i : LexemeId} {lexeme : Lexeme}
    (hw : ∀ s ∈ w, s.isEndOfStream = false) (hne : w ≠ [])
    (hdescend : t.descend? Trie.rootId w = some id) (hnode : t.node? id = some node)
    (hfull : node.fullMatch? = some i) (hlexeme : l.lexeme? i = some lexeme) :
    (Walker.start.automaton t l).Recognizes w lexeme := by
  have hverdict : t.verdictAt l id = lexeme.fullVerdict := by
    simp [Trie.verdictAt, hnode, hfull, hlexeme]
  constructor
  · rintro v ⟨_ | ⟨s, rest⟩, rfl⟩ hproper
    · exact absurd (List.append_nil v).symm hproper
    · rw [List.forall_mem_append] at hw
      obtain ⟨_, _, hrun, _⟩ := Walker.exists_driveAll_of_descend?_cons (l := l) ht hw.1 hdescend
      exact ⟨_, hrun⟩
  · obtain ⟨v, s, rfl⟩ := (List.eq_nil_or_concat' w).resolve_left hne
    rw [List.forall_mem_append, List.forall_mem_singleton] at hw
    obtain ⟨walker, next, hrun, hwalker, hsymbols, hnext, hlast⟩ :=
      Walker.exists_driveAll_of_descend?_cons (l := l) ht hw.1 hdescend
    cases hlast
    obtain ⟨history, token, hhistory, htoken, hend⟩ :=
      hwalker.exists_token_of_successor? ht hw.2 hnext
    refine ⟨history, token, hsymbols ▸ hhistory, hverdict ▸ htoken, ?_⟩
    rw [List.append_assoc]
    exact driveAll_append hrun hend

/-- **Completeness.**  If the trie of a lexicon has no overlap, the automaton recognizes every word
of every pattern.  It does so for the last of the lexemes whose patterns can end where the word
leads. -/
theorem exists_recognizes {a : Automaton} {i : LexemeId} {items : List Pattern.Item}
    (hl : l.Accepted) (hfree : (Trie.ofLexicon l).OverlapFree) (hi : l.pattern? i = some items)
    (hw : ∀ s ∈ w, s.isEndOfStream = false) (hmatches : Pattern.Item.Matches items w)
    (htable : a.table = l.compile) (hidle : a.isIdle = true) :
    ∃ path node winner lexeme, (Trie.ofLexicon l).find? path = some node ∧
      (Trie.ofLexicon l).descend? Trie.rootId w = some node ∧
      IsGreatest {j | l.Completes j path} winner ∧ l.lexeme? winner = some lexeme ∧
      a.Recognizes w lexeme := by
  have ht := Trie.fits_ofLexicon l
  have ha : a = Walker.start.automaton (.ofLexicon l) l := by
    rw [eq_new_of_isIdle hidle, htable, Walker.automaton_start ht]
    rfl
  have hstops : ∀ stop ∈ Pattern.Item.tour items, l.Visits i (stop.under []) :=
    fun stop hstop => ⟨items, hi, hstop⟩
  obtain ⟨path, hends, hspells⟩ := Pattern.Item.exists_spells_of_matches hstops hmatches
  have hpath : path ≠ [] := fun hnil => by
    have hnullable := Pattern.Item.allNullable_of_ends hends hnil
    rw [hl.allNullable_eq_false hi] at hnullable
    cases hnullable
  have hne : w ≠ [] := hspells.ne_nil hpath
  have hcompletes : l.Completes i path := ⟨items, hi, hends⟩
  obtain ⟨stop, hstop, rfl⟩ := Pattern.Item.exists_mem_tour_of_ends hends hpath
  obtain ⟨id, _, hid⟩ :=
    Trie.exists_find?_ofLexicon_iff.2 ⟨i, stop, hstops stop hstop, rfl⟩
  have hdescend := hfree.descend?_of_spells hspells rfl hid
  obtain ⟨q, edge, hq⟩ := (List.eq_nil_or_concat' stop.path).resolve_left hpath
  obtain ⟨node, _, hnode, _, _, hkeeps⟩ := Trie.exists_node_of_find? (hq ▸ hid)
  rw [← hq] at hkeeps
  cases hfull : node.fullMatch? with
  | none => exact absurd hcompletes (hkeeps.fullMatch?_eq_none_iff.1 hfull i)
  | some winner =>
    have hwinner := hkeeps.fullMatch winner hfull
    obtain ⟨_, lexeme, hlexeme⟩ := Lexicon.exists_lexeme?_of_completes hwinner.1
    exact ⟨stop.path, id, winner, lexeme, hid, hdescend, hwinner, hlexeme,
      ha ▸ recognizes_of_descend? ht hw hne hdescend hnode hfull hlexeme⟩

/-- A lexicon of rules, arrows and remarks, whose patterns share starts but never compete. -/
def marks : Lexicon :=
  { mode := .character
    defaultLexeme := { kind := "text", items := [], fullMatch := .input, partialMatch? := none }
    patternLexemes :=
      [{ kind := "rule"
         items := [.element { symbol := "-", repeats := true }]
         fullMatch := .concat
         partialMatch? := none },
       { kind := "arrow"
         items := [.element { symbol := "-", repeats := true }, .element { symbol := ">" }]
         fullMatch := .concat
         partialMatch? := none },
       { kind := "remark"
         items := [.element { symbol := "#" },
           .element { symbol := "\n", optional := true, repeats := true, inverted := true },
           .element { symbol := "\n" }]
         fullMatch := .collect
         partialMatch? := none }] }

lemma accepted_marks : marks.Accepted :=
  ⟨(((((Draft.new .character).withDefault { kind := "text" }).withLexeme
      { kind := "rule"
        pattern? := some (.sequence [.element { symbol := "-", repeats := true }])
        fullMatch := .concat }).withLexeme
      { kind := "arrow"
        pattern? := some (.sequence
          [.element { symbol := "-", repeats := true }, .element { symbol := ">" }])
        fullMatch := .concat })).withLexeme
      { kind := "remark"
        pattern? := some (.sequence [.element { symbol := "#" },
          .element { symbol := "\n", optional := true, repeats := true, inverted := true },
          .element { symbol := "\n" }])
        fullMatch := .collect },
    .withLexeme _ (.withLexeme _ (.withLexeme _ (.withDefault _ (.new _)))), by rfl⟩

lemma overlapFree_marks : (Trie.ofLexicon marks).OverlapFree := by
  decide +kernel

/-- A remark of two symbols, of which neither ends the line. -/
lemma matches_remark : Pattern.Item.Matches
    [.element { symbol := "#" },
      .element { symbol := "\n", optional := true, repeats := true, inverted := true },
      .element { symbol := "\n" }]
    ([.special '#'] ++ ([.text "so", .special ','] ++ ([.special '\n'] ++ []))) := by
  refine .take (by simp) (.inl rfl) ?_ (.take (by simp) (.inr rfl) ?_ ?_)
  · decide
  · decide
  · exact .take (by simp) (.inl rfl) (by decide) .nil

theorem exists_recognizes_marks :
    ∃ path node winner lexeme, (Trie.ofLexicon marks).find? path = some node ∧
      (Trie.ofLexicon marks).descend? Trie.rootId
        [.special '#', .text "so", .special ',', .special '\n'] = some node ∧
      IsGreatest {j | marks.Completes j path} winner ∧ marks.lexeme? winner = some lexeme ∧
      (new marks.compile).Recognizes
        [.special '#', .text "so", .special ',', .special '\n'] lexeme :=
  exists_recognizes accepted_marks overlapFree_marks (by rfl : marks.pattern? 3 = some _)
    (by decide) matches_remark rfl rfl

end Automaton

end Lexing
