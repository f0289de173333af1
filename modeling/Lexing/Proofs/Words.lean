import Lexing.Proofs.Chart
import Lexing.Symbol

/-!
# Words of patterns

A word of a pattern is a sequence of symbols that the pattern matches.
-/

namespace Lexing

/-! ## Matching -/

namespace Pattern

/-- The symbol is one of those that the element asks for. -/
def Element.Meets (e : Element) (s : Symbol) : Prop :=
  if e.inverted then s.tag ≠ e.symbol else s.tag = e.symbol

instance (e : Element) (s : Symbol) : Decidable (e.Meets s) :=
  inferInstanceAs (Decidable (if e.inverted then s.tag ≠ e.symbol else s.tag = e.symbol))

lemma Element.meets_iff {e : Element} {s : Symbol} :
    e.Meets s ↔ (Edge.ofElement e).accepts s.tag = true := by
  unfold Meets Edge.ofElement
  by_cases h : e.inverted = true
  · simp [h, Edge.accepts, ne_comm]
  · simp [h, Edge.accepts, eq_comm (a := s.tag)]

namespace Item

/-- The symbols are a word of the sequence: one symbol for each element, or several if it repeats,
or none if it is optional, and a word of one alternative for each group. -/
inductive Matches : List Item → List Symbol → Prop
  | nil : Matches [] []
  | take {e : Element} {rest : List Item} {run w : List Symbol} (hne : run ≠ [])
      (hrun : run.length = 1 ∨ e.repeats = true) (hmeets : ∀ s ∈ run, e.Meets s)
      (h : Matches rest w) : Matches (element e :: rest) (run ++ w)
  | skip {e : Element} {rest : List Item} {w : List Symbol} (ho : e.optional = true)
      (h : Matches rest w) : Matches (element e :: rest) w
  | choose {alternatives : List (List Item)} {alternative rest : List Item} {v w : List Symbol}
      (ha : alternative ∈ alternatives) (hv : Matches alternative v) (h : Matches rest w) :
      Matches (group alternatives :: rest) (v ++ w)

/-- A word of one sequence followed by another is a word of the one and then a word of the other. -/
lemma matches_append_iff {xs ys : List Item} {u : List Symbol} :
    Matches (xs ++ ys) u ↔ ∃ v w, u = v ++ w ∧ Matches xs v ∧ Matches ys w := by
  constructor
  · intro h
    induction xs generalizing u with
    | nil => exact ⟨[], u, rfl, .nil, h⟩
    | cons x xs ih =>
      cases h with
      | @take _ _ run _ hne hrun hmeets h =>
        obtain ⟨v, w, rfl, hv, hw⟩ := ih h
        exact ⟨run ++ v, w, by simp, .take hne hrun hmeets hv, hw⟩
      | skip ho h =>
        obtain ⟨v, w, rfl, hv, hw⟩ := ih h
        exact ⟨v, w, rfl, .skip ho hv, hw⟩
      | @choose _ _ _ first _ ha hfirst h =>
        obtain ⟨v, w, rfl, hv, hw⟩ := ih h
        exact ⟨first ++ v, w, by simp, .choose ha hfirst hv, hw⟩
  · rintro ⟨v, w, rfl, hv, hw⟩
    induction hv with
    | nil => exact hw
    | take hne hrun hmeets _ ih =>
      rw [List.append_assoc]
      exact .take hne hrun hmeets ih
    | skip ho _ ih => exact .skip ho ih
    | choose ha hfirst _ _ ih =>
      rw [List.append_assoc]
      exact .choose ha hfirst ih

/-- A group matches as its alternatives do, each followed by what comes after the group. -/
lemma matches_group_iff {alternatives : List (List Item)} {rest : List Item} {w : List Symbol} :
    Matches (group alternatives :: rest) w ↔
      ∃ alternative ∈ alternatives, Matches (alternative ++ rest) w := by
  constructor
  · intro h
    cases h with
    | choose ha hv h => exact ⟨_, ha, matches_append_iff.2 ⟨_, _, rfl, hv, h⟩⟩
  · rintro ⟨alternative, ha, h⟩
    obtain ⟨v, w, rfl, hv, hw⟩ := matches_append_iff.1 h
    exact .choose ha hv hw

end Item

end Pattern

/-! ## Spelling -/

open Pattern (Item)

/-- Seen from the end of `start`, the symbols spell the path: each edge takes one symbol, or several
if some lexeme comes along for a repeated element. -/
inductive Lexicon.Spells (l : Lexicon) : List Edge → List Edge → List Symbol → Prop
  | nil {start : List Edge} : Spells l start [] []
  | cons {start path : List Edge} {edge : Edge} {run w : List Symbol} (hne : run ≠ [])
      (hrun : run.length = 1 ∨ l.RepeatsAt (start ++ [edge]))
      (haccepts : ∀ s ∈ run, edge.accepts s.tag = true) (h : Spells l (start ++ [edge]) path w) :
      Spells l start (edge :: path) (run ++ w)

lemma Lexicon.Spells.ne_nil {l : Lexicon} {start path : List Edge} {w : List Symbol}
    (h : l.Spells start path w) (hpath : path ≠ []) : w ≠ [] := by
  cases h with
  | nil => exact absurd rfl hpath
  | cons hne => exact List.append_ne_nil_of_left_ne_nil hne _

namespace Pattern.Item

variable {l : Lexicon} {i : LexemeId} {start : List Edge}

/-- A line to the end of a pattern comes by a stop there, if it has any edge. -/
lemma exists_mem_tour_of_ends {items : List Item} {path : List Edge} (h : Ends items path)
    (hpath : path ≠ []) : ∃ stop ∈ tour items, stop.path = path := by
  induction h with
  | nil => exact absurd rfl hpath
  | @take e rest path _ ih =>
    by_cases hnil : path = []
    · exact ⟨_, mem_tour_element.2 (.inl rfl), by rw [hnil]⟩
    · obtain ⟨stop, hstop, rfl⟩ := ih hnil
      exact ⟨_, mem_tour_element.2 (.inr (.inl ⟨stop, hstop, rfl⟩)), rfl⟩
  | @skip e rest path ho _ ih =>
    obtain ⟨stop, hstop, rfl⟩ := ih hpath
    exact ⟨stop, mem_tour_element.2 (.inr (.inr ⟨ho, hstop⟩)), rfl⟩
  | choose ha _ ih =>
    obtain ⟨stop, hstop, rfl⟩ := ih hpath
    exact ⟨stop, mem_tour_group.2 ⟨_, ha, hstop⟩, rfl⟩

lemma anyNullable_iff {alternatives : List (List Item)} :
    anyNullable alternatives = true ↔
      ∃ alternative ∈ alternatives, allNullable alternative = true := by
  induction alternatives with
  | nil => simp [anyNullable]
  | cons alternative alternatives ih => simp [anyNullable, ih]

/-- A pattern with a line of no edges to its end can be matched by nothing at all. -/
lemma allNullable_of_ends {items : List Item} {path : List Edge} (h : Ends items path)
    (hpath : path = []) : allNullable items = true := by
  induction h with
  | nil => rfl
  | take => cases hpath
  | skip ho _ ih => simp [allNullable, isNullable, ho, ih hpath]
  | @choose alternatives alternative rest _ ha _ ih =>
    have hboth := ih hpath
    rw [allNullable_append, Bool.and_eq_true] at hboth
    have hany : anyNullable alternatives = true := anyNullable_iff.2 ⟨alternative, ha, hboth.1⟩
    simp [allNullable, isNullable, hany, hboth.2]

/-- A word of a pattern spells a line to its end. -/
lemma exists_spells_of_matches {items : List Item} {w : List Symbol}
    (hstops : ∀ stop ∈ tour items, l.Visits i (stop.under start)) (h : Matches items w) :
    ∃ path, Ends items path ∧ l.Spells start path w := by
  induction items using tour.induct generalizing start w with
  | case1 =>
    cases h
    exact ⟨[], .nil, .nil⟩
  | case2 e rest ih =>
    cases h with
    | @take _ _ run w hne hrun hmeets h =>
      have hhere : l.Visits i { path := start ++ [.ofElement e], repeats := e.repeats } :=
        hstops _ (mem_tour_element.2 (.inl rfl))
      have hrest : ∀ stop ∈ tour rest, l.Visits i (stop.under (start ++ [.ofElement e])) := by
        intro stop hstop
        rw [← Stop.under_under]
        exact hstops _ (mem_tour_element.2 (.inr (.inl ⟨stop, hstop, rfl⟩)))
      obtain ⟨path, hends, hspells⟩ := ih hrest h
      refine ⟨.ofElement e :: path, .take hends, .cons hne ?_ ?_ hspells⟩
      · exact hrun.imp_right fun hrepeats => ⟨i, _, hhere, rfl, hrepeats⟩
      · exact fun s hs => Element.meets_iff.1 (hmeets s hs)
    | skip ho h =>
      have hrest : ∀ stop ∈ tour rest, l.Visits i (stop.under start) := fun stop hstop =>
        hstops stop (mem_tour_element.2 (.inr (.inr ⟨ho, hstop⟩)))
      obtain ⟨path, hends, hspells⟩ := ih hrest h
      exact ⟨path, .skip ho hends, hspells⟩
  | case3 alternatives rest ih =>
    obtain ⟨alternative, ha, h⟩ := matches_group_iff.1 h
    have hrest : ∀ stop ∈ tour (alternative ++ rest), l.Visits i (stop.under start) :=
      fun stop hstop => hstops stop (mem_tour_group.2 ⟨alternative, ha, hstop⟩)
    obtain ⟨path, hends, hspells⟩ := ih alternative ha hrest h
    exact ⟨path, .choose ha hends, hspells⟩

/-- What spells a line to the end of a pattern is a word of the pattern, if no other lexeme repeats
where the pattern itself does not. -/
lemma matches_of_spells {items : List Item} {path : List Edge} {w : List Symbol}
    (hends : Ends items path)
    (hstops : ∀ stop ∈ tour items, l.RepeatsAt (start ++ stop.path) → stop.repeats = true)
    (h : l.Spells start path w) : Matches items w := by
  induction hends generalizing start w with
  | nil =>
    cases h
    exact .nil
  | @take e rest path _ ih =>
    cases h with
    | @cons _ _ _ run w hne hrun haccepts h =>
      refine .take hne ?_ ?_ (ih ?_ h)
      · exact hrun.imp_right (hstops _ (mem_tour_element.2 (.inl rfl)))
      · exact fun s hs => Element.meets_iff.2 (haccepts s hs)
      · intro stop hstop hrepeats
        refine hstops (stop.under [.ofElement e]) ?_ ?_
        · exact mem_tour_element.2 (.inr (.inl ⟨stop, hstop, rfl⟩))
        · rwa [Stop.path_under, ← List.append_assoc]
  | @skip e rest path ho _ ih =>
    refine .skip ho (ih ?_ h)
    exact fun stop hstop => hstops stop (mem_tour_element.2 (.inr (.inr ⟨ho, hstop⟩)))
  | @choose alternatives alternative rest path ha _ ih =>
    refine matches_group_iff.2 ⟨alternative, ha, ih ?_ h⟩
    exact fun stop hstop => hstops stop (mem_tour_group.2 ⟨alternative, ha, hstop⟩)

end Pattern.Item

end Lexing
