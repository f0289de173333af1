import Lexing.Proofs.Regrowth
import Mathlib.Logic.Relation

/-!
# Patterns written in other ways

An optional element is a group of the element and nothing, a group with one alternative is this
alternative, an alternative that starts with a group is as many alternatives as the group has, and
an alternative need not be given twice (`Pattern.Item.Rewrites`).  A trie does not depend on how a
pattern is written.

The branches of a pattern do depend on it, in part.  Its *itinerary* does not, if only the first
visit to each station counts.  It can be put together from the itineraries of the parts: that of a
group is made of those of its alternatives (`itinerary_group`), and that of a sequence goes on with
the second part wherever the first is completed (`eraseDups_itinerary_append`).  So a pattern can be
rewritten at any depth, by induction on the depth (`Rewrites.sameItinerary`), and the trie is the
same down to the last name (`Trie.insert_rewritten`).
-/

namespace Lexing

open Pattern (Item Element)

/-! ## Going on after a branch -/

namespace Branch

/-- What goes on after the end of the pattern is reached, goes on below. -/
lemma followedBy_below (edge : Edge) (b : Branch) (rest : List Branch) :
    (b.below edge).followedBy rest = (b.followedBy rest).map (below edge) := by
  by_cases hb : b.completes = true
  · simp [followedBy, below, hb]
  · simp [followedBy, below, hb]

/-- A branch that does not reach the end has no station from which anything goes on. -/
lemma flatMap_followedBy_stations {b : Branch} (hb : b.completes = false) (rest : List Branch) :
    b.stations.flatMap (·.followedBy rest) = b.stations := by
  obtain ⟨steps, completes⟩ := b
  obtain rfl : completes = false := hb
  rw [stations]
  induction steps with
  | nil => rfl
  | cons step steps ih =>
    have hhop : (hop step).followedBy rest = [hop step] := rfl
    rw [stationsAlong, List.flatMap_cons, List.flatMap_map, hhop]
    simp only [followedBy_below, ← List.map_flatMap, ih]
    rfl

/-- The stations of a branch that goes on are those of the branch, with those of the rest where the
end is reached. -/
lemma eraseDups_stations_followedBy (b : Branch) {rest : List Branch} (hrest : rest ≠ []) :
    ((b.followedBy rest).flatMap stations).eraseDups =
      (b.stations.flatMap (·.followedBy (rest.flatMap stations))).eraseDups := by
  cases hb : b.completes with
  | false =>
    rw [flatMap_followedBy_stations hb]
    simp [followedBy, hb]
  | true =>
    obtain ⟨steps, completes⟩ := b
    obtain rfl : completes = true := hb
    induction steps with
    | nil =>
      have hdone : (⟨[], true⟩ : Branch) = done := rfl
      have hstations : done.stations = [done] := rfl
      rw [hdone, hstations, List.flatMap_singleton, followedBy_done, followedBy_done]
    | cons step steps ih =>
      -- every branch begins with the step, so the step counts once
      have hleft : ((⟨step :: steps, true⟩ : Branch).followedBy rest).flatMap stations =
          rest.flatMap fun r =>
            hop step :: (stations ⟨steps ++ r.steps, r.completes⟩).map (below step.edge) := by
        simp [followedBy, List.flatMap_map, stations, stationsAlong]
      have hlater : (rest.flatMap fun r =>
            (stations ⟨steps ++ r.steps, r.completes⟩).map (below step.edge)) =
          (((⟨steps, true⟩ : Branch).followedBy rest).flatMap stations).map (below step.edge) := by
        simp [followedBy, List.flatMap_map, List.map_flatMap]
      have hright : (stations ⟨step :: steps, true⟩).flatMap
            (·.followedBy (rest.flatMap stations)) =
          hop step :: ((stations ⟨steps, true⟩).flatMap
            (·.followedBy (rest.flatMap stations))).map (below step.edge) := by
        have hstations : stations ⟨step :: steps, true⟩ =
            hop step :: (stations ⟨steps, true⟩).map (below step.edge) := rfl
        rw [hstations, List.flatMap_cons, List.flatMap_map, List.map_flatMap]
        simp only [followedBy_below]
        rfl
      rw [hleft, hright, eraseDups_flatMap_cons hrest, hlater]
      exact @eraseDups_append_congr _ _ _ [_] [_] _ _ rfl (eraseDups_map_congr _ ih)

end Branch

/-! ## Itineraries -/

namespace Pattern.Item

/-- The stations of all branches of a sequence, one after the other. -/
def itinerary (items : List Item) : List Branch :=
  (branchesOf items).flatMap Branch.stations

/-- The sequences have the same itinerary, if only the first visit to each station counts. -/
def SameItinerary (xs ys : List Item) : Prop :=
  (itinerary xs).eraseDups = (itinerary ys).eraseDups

/-- The itinerary of one sequence and then another goes on with that of the second wherever the
first is completed. -/
lemma eraseDups_itinerary_append (xs ys : List Item) :
    (itinerary (xs ++ ys)).eraseDups =
      ((itinerary xs).flatMap (·.followedBy (itinerary ys))).eraseDups := by
  simp only [itinerary, branchesOf_append, List.flatMap_assoc]
  exact eraseDups_flatMap_congr fun b _ =>
    b.eraseDups_stations_followedBy (branchesOf_ne_nil ys)

lemma itinerary_group (alternatives : List (List Item)) :
    itinerary [group alternatives] = alternatives.flatMap itinerary := by
  by_cases h : alternatives = []
  · subst h
    rw [itinerary, branchesOf_group_nil]
    rfl
  · rw [itinerary, branchesOf_group h, List.flatMap_assoc]
    simp only [List.append_nil]
    rfl

/-- A group is as many sequences as it has alternatives. -/
lemma eraseDups_itinerary_group_cons (alternatives : List (List Item)) (rest : List Item) :
    (itinerary (group alternatives :: rest)).eraseDups =
      (alternatives.flatMap fun alternative => itinerary (alternative ++ rest)).eraseDups := by
  have hsplit := eraseDups_itinerary_append [group alternatives] rest
  rw [itinerary_group, List.flatMap_assoc] at hsplit
  refine hsplit.trans (eraseDups_flatMap_congr fun alternative _ => ?_)
  exact (eraseDups_itinerary_append alternative rest).symm

/-! ## Other parts -/

namespace SameItinerary

variable {xs ys : List Item}

lemma append_left (h : SameItinerary xs ys) (before : List Item) :
    SameItinerary (before ++ xs) (before ++ ys) := by
  rw [SameItinerary, eraseDups_itinerary_append, eraseDups_itinerary_append]
  refine eraseDups_flatMap_congr fun b _ => ?_
  unfold Branch.followedBy
  split
  · exact eraseDups_map_congr _ h
  · rfl

lemma append_right (h : SameItinerary xs ys) (after : List Item) :
    SameItinerary (xs ++ after) (ys ++ after) := by
  rw [SameItinerary, eraseDups_itinerary_append, eraseDups_itinerary_append,
    ← eraseDups_flatMap_eraseDups, h, eraseDups_flatMap_eraseDups]

lemma alternative (h : SameItinerary xs ys) (as bs : List (List Item)) :
    SameItinerary [group (as ++ xs :: bs)] [group (as ++ ys :: bs)] := by
  simp only [SameItinerary, itinerary_group, List.flatMap_append, List.flatMap_cons]
  exact eraseDups_append_congr rfl (eraseDups_append_congr h rfl)

end SameItinerary

/-! ## Rewriting -/

/-- One part of a sequence is written in another way, at any depth. -/
inductive Rewrites : List Item → List Item → Prop
  /-- An optional element is the element or nothing. -/
  | optional {e : Element} (h : e.optional = true) :
      Rewrites [element e] [group [[element { e with optional := false }], []]]
  /-- A group with one alternative is this alternative. -/
  | splice (alternative : List Item) : Rewrites [group [alternative]] alternative
  /-- An alternative that starts with a group is one alternative for each of the group's own. -/
  | lift (as inner bs : List (List Item)) (rest : List Item) :
      Rewrites [group (as ++ (group inner :: rest) :: bs)]
        [group (as ++ inner.map (· ++ rest) ++ bs)]
  /-- An alternative need not be given again. -/
  | duplicate (as bs cs : List (List Item)) (alternative : List Item) :
      Rewrites [group (as ++ alternative :: bs ++ alternative :: cs)]
        [group (as ++ alternative :: bs ++ cs)]
  /-- In the middle of a sequence. -/
  | around {xs ys : List Item} (before after : List Item) (h : Rewrites xs ys) :
      Rewrites (before ++ xs ++ after) (before ++ ys ++ after)
  /-- In an alternative of a group. -/
  | within {xs ys : List Item} (as bs : List (List Item)) (h : Rewrites xs ys) :
      Rewrites [group (as ++ xs :: bs)] [group (as ++ ys :: bs)]

/-- **Rewriting.**  Induction on the depth of the part that is rewritten. -/
lemma Rewrites.sameItinerary {xs ys : List Item} (h : Rewrites xs ys) : SameItinerary xs ys := by
  induction h with
  | @optional e h =>
    have hbranches : branchesOf [element e] =
        branchesOf [group [[element { e with optional := false }], []]] := by
      simp [branchesOf, branches, branchesOfEach, h, Branch.followedBy, Branch.ofElement,
        Branch.done, Edge.ofElement]
    rw [SameItinerary, itinerary, itinerary, hbranches]
  | splice alternative =>
    rw [SameItinerary, itinerary_group, List.flatMap_singleton]
  | lift as inner bs rest =>
    have hinner := eraseDups_itinerary_group_cons inner rest
    simp only [SameItinerary, itinerary_group, List.flatMap_append, List.flatMap_cons,
      List.flatMap_map, List.append_assoc]
    exact eraseDups_append_congr rfl (eraseDups_append_congr hinner rfl)
  | duplicate as bs cs alternative =>
    have hagain : itinerary alternative ⊆ (as ++ alternative :: bs).flatMap itinerary :=
      fun station hstation => List.mem_flatMap.2 ⟨alternative, by simp, hstation⟩
    have hleft : (as ++ alternative :: bs ++ alternative :: cs).flatMap itinerary =
        ((as ++ alternative :: bs).flatMap itinerary ++ itinerary alternative) ++
          cs.flatMap itinerary := by
      rw [List.flatMap_append, List.flatMap_cons, List.append_assoc]
    have hright : (as ++ alternative :: bs ++ cs).flatMap itinerary =
        (as ++ alternative :: bs).flatMap itinerary ++ cs.flatMap itinerary :=
      List.flatMap_append
    rw [SameItinerary, itinerary_group, itinerary_group, hleft, hright]
    exact eraseDups_append_congr (eraseDups_append_of_subset hagain) rfl
  | around before after _ ih => exact (ih.append_left before).append_right after
  | within as bs _ ih => exact ih.alternative as bs

end Pattern.Item

/-! ## Tries -/

namespace Trie

open Pattern.Item

/-- A trie depends on the itinerary of a pattern alone. -/
lemma insert_eq_of_sameItinerary (t : Trie) (owner : LexemeId) {xs ys : List Item}
    (h : SameItinerary xs ys) : t.insert owner xs = t.insert owner ys := by
  have hitinerary : ∀ items, t.insert owner items =
      t.insertBranches owner rootId (itinerary items).eraseDups := fun items => by
    rw [insertBranches_eraseDups, itinerary, insertBranches_stations, insert_eq]
  rw [hitinerary, hitinerary, h]

/-- **Patterns written in other ways.**  Whatever is in the trie already, patterns of which one is
rewritten as the other make it the same, and a pattern that has been inserted for a lexeme changes
nothing when it is inserted again. -/
theorem insert_rewritten (t : Trie) (owner : LexemeId) :
    (∀ xs ys, Relation.EqvGen Rewrites xs ys → t.insert owner xs = t.insert owner ys) ∧
      ∀ items, (t.insert owner items).insert owner items = t.insert owner items := by
  constructor
  · intro xs ys h
    induction h with
    | rel xs ys h => exact t.insert_eq_of_sameItinerary owner h.sameItinerary
    | refl => rfl
    | symm _ _ _ ih => exact ih.symm
    | trans _ _ _ _ _ ih₁ ih₂ => exact ih₁.trans ih₂
  · intro items
    rw [insert_eq, insert_eq, ← insertBranches_append, ← insertBranches_eraseDups,
      eraseDups_append_of_subset (List.Subset.refl _), insertBranches_eraseDups]

/-- A dash and a bang, with a head between them or not: written as an option, and as two
alternatives. -/
theorem insert_rewritten_arrow :
    let dash : Item := .element { symbol := "-" }
    let bang : Item := .element { symbol := "!" }
    let t := (new defaultId).insert 1 [dash]
    let short : List Item :=
      [dash, .group [[.element { symbol := ">", optional := true }, bang]]]
    let long : List Item := [dash, .group [[.element { symbol := ">" }, bang], [bang]]]
    t.insert 2 short = t.insert 2 long ∧ (t.insert 2 short).insert 2 short = t.insert 2 short := by
  intro dash bang t short long
  have hoption : Rewrites short
      [dash, .group [[.group [[.element { symbol := ">" }], []], bang]]] :=
    .around [dash] [] (.within [] [] (.around [] [bang] (.optional rfl)))
  have hlift : Rewrites [dash, .group [[.group [[.element { symbol := ">" }], []], bang]]] long :=
    .around [dash] [] (.lift [] [[.element { symbol := ">" }], []] [] [bang])
  have h := t.insert_rewritten 2
  exact ⟨h.1 short long (.trans _ _ _ (.rel _ _ hoption) (.rel _ _ hlift)), h.2 short⟩

end Trie

end Lexing
