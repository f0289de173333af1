import Lexing.Proofs.Registration
import Lexing.Proofs.Regrowth
import Lexing.Proofs.Soundness

/-!
# What no pattern begins with

A match begins with a symbol that one of the first elements of some pattern asks for
(`Pattern.Item.firsts`).  The way of an element that may be left out is open to what comes after it,
and a group begins as its alternatives do, each followed by what comes after the group.  These
elements are the edges out of the root (`Lexicon.hasPath_singleton_iff`): each of them is the path
of a child, and a longer path has its first edge from one of them.

A symbol that none of them asks for has no way out of the root, and the default lexeme takes it by
itself.  Any other symbol has one.  It may even be handed out by itself too, and by a lexeme of the
same kind with the same value, but not as a full match of the default lexeme, since no node
completes that.  So the two cases can be told apart (`Automaton.fallsBack_iff`).
-/

namespace Lexing

open StateTable

open Pattern (Element Item)

variable {l : Lexicon} {s : Symbol} {edge : Edge}

/-! ## First elements -/

namespace Pattern.Item

/-- The elements with which the sequence can begin. -/
def firsts : List Item → List Element
  | [] => []
  | element e :: rest => e :: if e.optional then firsts rest else []
  | group alternatives :: rest =>
    alternatives.attach.flatMap fun ⟨alternative, _⟩ => firsts (alternative ++ rest)
termination_by items => sizeOf items
decreasing_by
  · decreasing_tactic
  · rename_i h
    exact sizeOf_append_lt h

lemma mem_firsts_element {e first : Element} {rest : List Item} :
    first ∈ firsts (element e :: rest) ↔ first = e ∨ e.optional = true ∧ first ∈ firsts rest := by
  rw [firsts]
  by_cases ho : e.optional = true <;> simp [ho]

lemma mem_firsts_group {alternatives : List (List Item)} {rest : List Item} {first : Element} :
    first ∈ firsts (group alternatives :: rest) ↔
      ∃ alternative ∈ alternatives, first ∈ firsts (alternative ++ rest) := by
  rw [firsts]
  simp

/-- The stops after one edge are those of the first elements. -/
lemma exists_stop_singleton_iff {items : List Item} :
    (∃ stop ∈ tour items, stop.path = [edge]) ↔ ∃ e ∈ firsts items, .ofElement e = edge := by
  induction items using tour.induct with
  | case1 => simp [tour, firsts]
  | case2 e rest ih =>
    constructor
    · rintro ⟨stop, hstop, hpath⟩
      rcases mem_tour_element.1 hstop with rfl | ⟨later, hlater, rfl⟩ | ⟨ho, hstop⟩
      · exact ⟨e, mem_firsts_element.2 (.inl rfl), by simpa using hpath⟩
      · -- a stop of the rest is more than one edge away
        have hnil : later.path = [] := by
          rw [Stop.path_under, List.singleton_append, List.cons_eq_cons] at hpath
          exact hpath.2
        exact absurd hnil (path_ne_nil_of_mem_tour hlater)
      · obtain ⟨first, hfirst, hedge⟩ := ih.1 ⟨stop, hstop, hpath⟩
        exact ⟨first, mem_firsts_element.2 (.inr ⟨ho, hfirst⟩), hedge⟩
    · rintro ⟨first, hfirst, hedge⟩
      rcases mem_firsts_element.1 hfirst with rfl | ⟨ho, hfirst⟩
      · exact ⟨_, mem_tour_element.2 (.inl rfl), by rw [hedge]⟩
      · obtain ⟨stop, hstop, hpath⟩ := ih.2 ⟨first, hfirst, hedge⟩
        exact ⟨stop, mem_tour_element.2 (.inr (.inr ⟨ho, hstop⟩)), hpath⟩
  | case3 alternatives rest ih =>
    constructor
    · rintro ⟨stop, hstop, hpath⟩
      obtain ⟨alternative, ha, hstop⟩ := mem_tour_group.1 hstop
      obtain ⟨first, hfirst, hedge⟩ := (ih alternative ha).1 ⟨stop, hstop, hpath⟩
      exact ⟨first, mem_firsts_group.2 ⟨alternative, ha, hfirst⟩, hedge⟩
    · rintro ⟨first, hfirst, hedge⟩
      obtain ⟨alternative, ha, hfirst⟩ := mem_firsts_group.1 hfirst
      obtain ⟨stop, hstop, hpath⟩ := (ih alternative ha).2 ⟨first, hfirst, hedge⟩
      exact ⟨stop, mem_tour_group.2 ⟨alternative, ha, hstop⟩, hpath⟩

end Pattern.Item

/-! ## Ways out of the root -/

namespace Lexicon

/-- Some pattern can begin with the symbol. -/
def Starts (l : Lexicon) (s : Symbol) : Prop :=
  ∃ lexeme ∈ l.patternLexemes, ∃ e ∈ Item.firsts lexeme.items, e.Meets s

lemma hasPath_singleton_iff :
    l.HasPath [edge] ↔
      ∃ lexeme ∈ l.patternLexemes, ∃ e ∈ Item.firsts lexeme.items, .ofElement e = edge := by
  simp only [hasPath_iff, tour, List.mem_flatMap, ← Item.exists_stop_singleton_iff]
  constructor
  · rintro ⟨stop, ⟨lexeme, hlexeme, hstop⟩, hpath⟩
    exact ⟨lexeme, hlexeme, stop, hstop, hpath⟩
  · rintro ⟨lexeme, hlexeme, stop, hstop, hpath⟩
    exact ⟨stop, ⟨lexeme, hlexeme, hstop⟩, hpath⟩

lemma starts_iff : l.Starts s ↔ ∃ edge, l.HasPath [edge] ∧ edge.accepts s.tag = true := by
  simp only [hasPath_singleton_iff]
  constructor
  · rintro ⟨lexeme, hlexeme, e, he, hmeets⟩
    exact ⟨_, ⟨lexeme, hlexeme, e, he, rfl⟩, Element.meets_iff.1 hmeets⟩
  · rintro ⟨_, ⟨lexeme, hlexeme, e, he, rfl⟩, haccepts⟩
    exact ⟨lexeme, hlexeme, e, he, Element.meets_iff.2 haccepts⟩

end Lexicon

namespace Trie

/-- A symbol has a way out of the root if and only if some pattern can begin with it. -/
lemma successor?_rootId_eq_none_iff :
    (ofLexicon l).successor? rootId s.tag = none ↔ ¬ l.Starts s := by
  have hroot : (ofLexicon l).find? [] = some rootId := rfl
  rw [successor?, repeatsAt_rootId, Bool.false_and, if_neg Bool.false_ne_true,
    List.find?_eq_none, Lexicon.starts_iff]
  constructor
  · rintro hnone ⟨edge, hpath, haccepts⟩
    rw [← List.nil_append [edge]] at hpath
    obtain ⟨child, hchild⟩ := exists_find?_concat_iff.2 hpath
    refine hnone child ((mem_children_iff_of_find? hroot).2 ⟨edge, hchild⟩) ?_
    rwa [admits_of_find? hchild]
  · intro hnone child hmem hadmits
    obtain ⟨edge, hchild⟩ := (mem_children_iff_of_find? hroot).1 hmem
    rw [admits_of_find? hchild] at hadmits
    exact hnone ⟨edge, exists_find?_concat_iff.1 ⟨child, hchild⟩, hadmits⟩

/-- No node completes the default lexeme. -/
lemma acceptAt_ne_fullMatch_defaultId {id : NodeId} {node : Node}
    (hnode : (ofLexicon l).node? id = some node) : acceptAt l node ≠ .fullMatch defaultId := by
  intro haccept
  obtain ⟨path, hcompletes⟩ :=
    exists_completes_of_fullMatch? hnode (acceptAt_eq_fullMatch_iff.1 haccept)
  exact (Lexicon.exists_lexeme?_of_completes hcompletes).1 rfl

lemma nameAt_modify (t : Trie) {f : Node → Node} (hf : ∀ node, (f node).name = node.name)
    (id other : NodeId) : nameAt { nodes := t.nodes.modify id f } other = t.nameAt other :=
  t.read_node?_modify (·.elim "" (·.name)) hf id other

lemma nameAt_push_of_lt {t : Trie} (node : Node) {id : NodeId} (hid : id < t.size) :
    nameAt { nodes := t.nodes.push node } id = t.nameAt id := by
  rw [nameAt, node?_push_of_lt node hid, nameAt]

/-- The root keeps its name. -/
lemma Grown.nameAt_rootId {t : Trie} (h : t.Grown l) : t.nameAt rootId = rootName := by
  induction h with
  | new => rfl
  | findOrAddChild h _ _ ih =>
    unfold Trie.findOrAddChild
    split
    · exact ih
    · exact (nameAt_push_of_lt _ h.fits.size_pos).trans ih
  | markRepeat _ ih =>
    rw [Trie.markRepeat, nameAt_modify, ih]
    exact fun _ => rfl
  | complete _ _ ih =>
    unfold Trie.complete
    split
    · exact ih
    · rw [nameAt_modify, ih]
      exact fun _ => rfl

end Trie

/-! ## Symbols that fall back -/

/-- The token that the default lexeme makes of a symbol by itself, read from the start. -/
def Lexicon.defaultToken (l : Lexicon) (s : Symbol) : Token :=
  { kind := l.defaultLexeme.kind
    value := l.defaultLexeme.fullMatch.evaluate (History.empty.push Trie.rootName s) s
    position := s.position }

lemma token?_default (l : Lexicon) (s : Symbol) :
    l.defaultLexeme.fullVerdict.token?
      (History.empty.push ((Trie.ofLexicon l).nameAt Trie.rootId) s) =
        some (l.defaultToken s) := by
  rw [(Trie.grown_ofLexicon l).nameAt_rootId]
  rfl

namespace Automaton

variable {a : Automaton}

/-- Presenting the symbol hands out the token at once, as a full match of the default lexeme with
just this symbol, and the automaton is as before. -/
def FallsBack (a : Automaton) (s : Symbol) (token : Token) : Prop :=
  a.step s = .ok { token? := some token, signal := .reset, automaton := a } ∧
    a.Emits s token (.fullMatch defaultId) [s]

/-- At its start an automaton reads as a walker does at the root. -/
lemma new_compile_eq (l : Lexicon) :
    new l.compile = Walker.start.automaton (.ofLexicon l) l :=
  (Walker.automaton_start (Trie.fits_ofLexicon l)).symm

lemma fallsBack_of_not_starts (hs : s.isEndOfStream = false) (h : ¬ l.Starts s) :
    (new l.compile).FallsBack s (l.defaultToken s) := by
  have ht := Trie.fits_ofLexicon l
  have hnext := Trie.successor?_rootId_eq_none_iff.2 h
  have hstep : (new l.compile).step s =
      .ok { token? := some (l.defaultToken s), signal := .reset, automaton := new l.compile } := by
    rw [new_compile_eq, Walker.step_automaton ht (Walker.sound_start ht) s, Walker.step]
    simp only [Walker.start, hs, hnext, token?_default]
    rfl
  refine ⟨hstep, ?_⟩
  obtain ⟨state, tr, hstate, htr, hfollow⟩ := exists_follow_of_step hstep rfl
  obtain ⟨accept, history, haccept, hemit, hsymbols⟩ := exists_emit_of_follow hfollow rfl
  -- the transition is the last one at the root
  obtain ⟨root, hroot⟩ := exists_node?_of_mem_liveNodes (Walker.sound_start ht).live
  rw [new_compile_eq] at hstate
  cases (Walker.state?_automaton (Walker.sound_start ht) hroot).symm.trans hstate
  cases (transition?_of_successor?_eq_none hs hroot hnext).symm.trans htr
  cases accept?_catchAllAt_rootId.symm.trans haccept
  exact ⟨_, _, history, new_compile_eq l ▸ hstate, htr, haccept, hemit, hsymbols, rfl⟩

lemma not_fallsBack_of_starts {token : Token} (hs : s.isEndOfStream = false) (h : l.Starts s) :
    ¬ (new l.compile).FallsBack s token := by
  rintro ⟨-, state, tr, _, hstate, htr, haccept, -⟩
  have hsound := Walker.sound_start (Trie.fits_ofLexicon l)
  obtain ⟨root, hroot⟩ := exists_node?_of_mem_liveNodes hsound.live
  rw [new_compile_eq] at hstate
  cases (Walker.state?_automaton hsound hroot).symm.trans hstate
  cases hnext : (Trie.ofLexicon l).successor? Trie.rootId s.tag with
  | none => exact Trie.successor?_rootId_eq_none_iff.1 hnext h
  | some next =>
    obtain ⟨tr', child, htr', hchild, -, -, haccept'⟩ :=
      exists_transition?_of_successor? (l := l) hs hsound.live hroot hnext
    cases htr'.symm.trans htr
    rw [haccept] at haccept'
    split at haccept'
    · cases haccept'
    · exact Trie.acceptAt_ne_fullMatch_defaultId hchild (Option.some.inj haccept').symm

/-- Symbols that fall back leave no trace. -/
lemma driveAll_of_fallsBack {token : Symbol → Token} {ss : List Symbol}
    (h : ∀ s ∈ ss, a.FallsBack s (token s)) : a.driveAll ss = .ok (ss.map token, a) := by
  induction ss with
  | nil => rfl
  | cons s ss ih =>
    rw [List.forall_mem_cons] at h
    have hdrive : a.drive s = .ok ([token s], a) := drive_of_ne_replay h.1.1 (by simp)
    simp only [driveAll, hdrive, ih h.2]
    rfl

lemma drive_endOfStream_new (l : Lexicon) :
    (new l.compile).drive .endOfStream = .ok ([], new l.compile) := by
  have ht := Trie.fits_ofLexicon l
  have hstep := Walker.step_automaton ht (Walker.sound_start ht) .endOfStream
  rw [← new_compile_eq] at hstep
  rw [drive_of_ne_replay hstep Signal.noConfusion, new_compile_eq]
  rfl

/-- **The default lexeme.**  At its start an automaton on the table of a lexicon makes a token of
the default lexeme of a symbol by itself if and only if no pattern can begin with the symbol.  So a
stream of such symbols comes out as one token of the default lexeme for each, and leaves nothing to
flush. -/
theorem fallsBack_iff (l : Lexicon) (htable : a.table = l.compile) (hidle : a.isIdle = true) :
    (∀ s token, s.isEndOfStream = false →
      (a.FallsBack s token ↔ ¬ l.Starts s ∧ token = l.defaultToken s)) ∧
      ∀ ss, (∀ s ∈ ss, s.isEndOfStream = false ∧ ¬ l.Starts s) →
        a.driveAll ss = .ok (ss.map l.defaultToken, a) ∧ a.drive .endOfStream = .ok ([], a) := by
  obtain rfl : a = new l.compile := by rw [eq_new_of_isIdle hidle, htable]
  refine ⟨fun s token hs => ⟨fun h => ?_, ?_⟩, fun ss hss => ⟨?_, drive_endOfStream_new l⟩⟩
  · have hnot : ¬ l.Starts s := fun hstarts => not_fallsBack_of_starts hs hstarts h
    have hstep := h.1.symm.trans (fallsBack_of_not_starts hs hnot).1
    simp only [Except.ok.injEq, Step.mk.injEq, Option.some.injEq] at hstep
    exact ⟨hnot, hstep.1⟩
  · rintro ⟨hnot, rfl⟩
    exact fallsBack_of_not_starts hs hnot
  · exact driveAll_of_fallsBack fun s hs => fallsBack_of_not_starts (hss s hs).1 (hss s hs).2

/-- A mark begins with a dash or a sharp. -/
lemma starts_marks_iff :
    marks.Starts s ↔ s.tag = "-" ∨ s.tag = "#" := by
  simp [Lexicon.Starts, marks, Item.firsts, Element.Meets]

theorem fallsBack_iff_marks :
    (∀ token, (new marks.compile).FallsBack (.text "so") token ↔
      token = marks.defaultToken (.text "so")) ∧
      (∀ token, ¬ (new marks.compile).FallsBack (.special '-') token) ∧
      (new marks.compile).driveAll [.text "so", .special ','] =
        .ok ([marks.defaultToken (.text "so"), marks.defaultToken (.special ',')],
          new marks.compile) := by
  obtain ⟨hone, hall⟩ := fallsBack_iff (a := new marks.compile) marks rfl rfl
  have htext : ¬ marks.Starts (.text "so") := by
    rw [starts_marks_iff]
    decide
  have hcomma : ¬ marks.Starts (.special ',') := by
    rw [starts_marks_iff]
    decide
  refine ⟨fun token => ?_, fun token hback => ?_, (hall [.text "so", .special ','] ?_).1⟩
  · rw [hone _ _ rfl, and_iff_right htext]
  · exact ((hone _ _ rfl).1 hback).1 (starts_marks_iff.2 (.inl rfl))
  · rw [List.forall_mem_cons, List.forall_mem_singleton]
    exact ⟨⟨rfl, htext⟩, rfl, hcomma⟩

end Automaton

end Lexing
