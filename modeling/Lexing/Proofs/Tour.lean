import Lexing.Trie.Branch
import Mathlib.Data.List.Induction
import Mathlib.Data.List.Nodup
import Mathlib.Tactic.Lemma

/-!
# Tours of patterns

A trie is built from the branches of a pattern, one straight line after the other.  A pattern can
also be toured in one go: an element is taken before it is left out, and a group is replaced by each
of its alternatives in turn, followed by what comes after the group.  A tour comes to the stops of
all branches, and if only the first visit to a stop counts, in the same order
(`eraseDups_stops_branchesOf`).  The lines of a tour that reach the end of the pattern are those of
the branches that complete (`ends_iff`).

Both facts are inductions along the recursion of the tour, which is not structural: what a group
leaves behind is no part of the sequence, only smaller than it.
-/

namespace Lexing

/-! ## First occurrences -/

section FirstOccurrences

variable {α β : Type*} [BEq α] [LawfulBEq α] [BEq β] [LawfulBEq β]

lemma eraseDups_concat (xs : List α) (x : α) :
    (xs ++ [x]).eraseDups = xs.eraseDups ++ if x ∈ xs then [] else [x] := by
  rw [List.eraseDups_append]
  by_cases h : x ∈ xs
  · simp [h, List.removeAll]
  · simp [h, List.removeAll, List.eraseDups_cons]

lemma nodup_eraseDups (xs : List α) : xs.eraseDups.Nodup := by
  induction xs using List.reverseRecOn with
  | nil => simp
  | append_singleton xs x ih =>
    rw [eraseDups_concat]
    by_cases h : x ∈ xs
    · simpa [h] using ih
    · rw [if_neg h, List.nodup_append]
      refine ⟨ih, List.nodup_singleton x, ?_⟩
      intro y hy z hz hyz
      rw [List.mem_singleton.1 hz] at hyz
      exact h (hyz ▸ List.mem_eraseDups.1 hy)

lemma eraseDups_filter (p : α → Bool) (xs : List α) :
    (xs.filter p).eraseDups = xs.eraseDups.filter p := by
  induction xs using List.reverseRecOn with
  | nil => simp
  | append_singleton xs x ih =>
    rw [eraseDups_concat, List.filter_append, List.filter_append, ← ih]
    by_cases hp : p x = true
    · rw [List.filter_cons_of_pos hp, List.filter_nil, eraseDups_concat]
      by_cases h : x ∈ xs <;> simp [h, hp]
    · rw [List.filter_cons_of_neg hp, List.filter_nil, List.append_nil]
      by_cases h : x ∈ xs <;> simp [h, hp]

lemma eraseDups_map_eraseDups (f : α → β) (xs : List α) :
    (xs.eraseDups.map f).eraseDups = (xs.map f).eraseDups := by
  induction xs using List.reverseRecOn with
  | nil => simp
  | append_singleton xs x ih =>
    rw [eraseDups_concat, List.map_append, List.map_append, List.map_singleton, eraseDups_concat,
      ← ih]
    have hmem : f x ∈ xs.eraseDups.map f ↔ f x ∈ xs.map f := by simp
    by_cases h : x ∈ xs
    · simp [h, List.mem_map_of_mem h]
    · rw [if_neg h, List.map_singleton, eraseDups_concat, if_congr hmem rfl rfl]

lemma eraseDups_map_congr (f : α → β) {xs ys : List α} (h : xs.eraseDups = ys.eraseDups) :
    (xs.map f).eraseDups = (ys.map f).eraseDups := by
  rw [← eraseDups_map_eraseDups, h, eraseDups_map_eraseDups]

/-- Of what comes second, only that counts which did not come first. -/
lemma eraseDups_append_eq (xs ys : List α) :
    (xs ++ ys).eraseDups = xs.eraseDups ++ ys.eraseDups.filter (!xs.contains ·) := by
  rw [List.eraseDups_append, List.removeAll, eraseDups_filter]

lemma eraseDups_append_congr {xs xs' ys ys' : List α} (hx : xs.eraseDups = xs'.eraseDups)
    (hy : ys.eraseDups = ys'.eraseDups) : (xs ++ ys).eraseDups = (xs' ++ ys').eraseDups := by
  have hmem : ∀ x, x ∈ xs ↔ x ∈ xs' := by
    intro x
    rw [← List.mem_eraseDups, hx, List.mem_eraseDups]
  have hcontains : xs.contains = xs'.contains := by
    funext x
    simp [hmem x]
  rw [eraseDups_append_eq, eraseDups_append_eq, hx, hy, hcontains]

lemma eraseDups_flatMap_congr {γ : Type*} {xs : List γ} {f g : γ → List α}
    (h : ∀ x ∈ xs, (f x).eraseDups = (g x).eraseDups) :
    (xs.flatMap f).eraseDups = (xs.flatMap g).eraseDups := by
  induction xs with
  | nil => rfl
  | cons x xs ih =>
    rw [List.forall_mem_cons] at h
    exact eraseDups_append_congr h.1 (ih h.2)

/-- What comes second does not count if it all came first. -/
lemma eraseDups_append_of_subset {xs ys : List α} (h : ys ⊆ xs) :
    (xs ++ ys).eraseDups = xs.eraseDups := by
  have hnone : ys.eraseDups.filter (!xs.contains ·) = [] :=
    List.filter_eq_nil_iff.2 fun y hy => by simpa using h (List.mem_eraseDups.1 hy)
  rw [eraseDups_append_eq, hnone, List.append_nil]

lemma eraseDups_flatMap_eraseDups (f : α → List β) (xs : List α) :
    (xs.eraseDups.flatMap f).eraseDups = (xs.flatMap f).eraseDups := by
  induction xs using List.reverseRecOn with
  | nil => simp
  | append_singleton xs x ih =>
    rw [eraseDups_concat, List.flatMap_append, List.flatMap_append, List.flatMap_singleton]
    by_cases h : x ∈ xs
    · have hsubset : f x ⊆ xs.flatMap f := fun y hy => List.mem_flatMap.2 ⟨x, h, hy⟩
      rw [if_pos h, List.flatMap_nil, List.append_nil, ih, eraseDups_append_of_subset hsubset]
    · rw [if_neg h, List.flatMap_singleton]
      exact eraseDups_append_congr ih rfl

/-- What begins every one of several lists counts once. -/
lemma eraseDups_flatMap_cons {γ : Type*} {bs : List γ} (hbs : bs ≠ []) (x : α) (f : γ → List α) :
    (bs.flatMap fun b => x :: f b).eraseDups = (x :: bs.flatMap f).eraseDups := by
  induction bs with
  | nil => exact absurd rfl hbs
  | cons b bs ih =>
    rw [List.flatMap_cons, List.flatMap_cons]
    by_cases h : bs = []
    · simp [h]
    · calc ((x :: f b) ++ bs.flatMap fun b => x :: f b).eraseDups
          = ((x :: f b) ++ (x :: bs.flatMap f)).eraseDups := eraseDups_append_congr rfl (ih h)
        _ = ((x :: f b) ++ bs.flatMap f).eraseDups := by
          rw [eraseDups_append_eq, ← eraseDups_filter, List.filter_cons_of_neg (by simp),
            eraseDups_filter, ← eraseDups_append_eq]

end FirstOccurrences

/-! ## Tours -/

/-- A stop on the way through a pattern. -/
structure Stop where
  /-- The edges taken to come here. -/
  path : List Edge
  /-- The last of them was taken for a repeated element. -/
  repeats : Bool
  deriving DecidableEq, Inhabited, Repr

/-- The stop, seen from a place from which its start is reached by `path`. -/
def Stop.under (path : List Edge) (stop : Stop) : Stop :=
  { stop with path := path ++ stop.path }

@[simp] lemma Stop.path_under (path : List Edge) (stop : Stop) :
    (stop.under path).path = path ++ stop.path :=
  rfl

lemma Stop.under_under (p q : List Edge) (stop : Stop) :
    (stop.under q).under p = stop.under (p ++ q) := by
  simp [Stop.under]

namespace Pattern.Item

lemma sizeOf_append (xs ys : List Item) : sizeOf (xs ++ ys) + 1 = sizeOf xs + sizeOf ys := by
  induction xs with
  | nil => simp [Nat.add_comm]
  | cons x xs ih =>
    simp only [List.cons_append, List.cons.sizeOf_spec]
    omega

/-- A group is larger than what it leaves when one alternative is put in its place. -/
lemma sizeOf_append_lt {alternative rest : List Item} {alternatives : List (List Item)}
    (h : alternative ∈ alternatives) :
    sizeOf (alternative ++ rest) < sizeOf (group alternatives :: rest) := by
  have hsplice := sizeOf_append alternative rest
  have hmem : sizeOf alternative < sizeOf alternatives := List.sizeOf_lt_of_mem h
  simp only [List.cons.sizeOf_spec, group.sizeOf_spec]
  omega

/-- The stops of a sequence in the order in which they are come to. -/
def tour : List Item → List Stop
  | [] => []
  | element e :: rest =>
    { path := [.ofElement e], repeats := e.repeats } ::
      (tour rest).map (·.under [.ofElement e]) ++ if e.optional then tour rest else []
  | group alternatives :: rest =>
    alternatives.attach.flatMap fun ⟨alternative, _⟩ => tour (alternative ++ rest)
termination_by items => sizeOf items
decreasing_by
  · decreasing_tactic
  · rename_i h
    exact sizeOf_append_lt h

lemma tour_group (alternatives : List (List Item)) (rest : List Item) :
    tour (group alternatives :: rest) =
      alternatives.flatMap fun alternative => tour (alternative ++ rest) := by
  rw [tour]
  simp only [List.flatMap_subtype, List.unattach_attach]

lemma mem_tour_element {e : Element} {rest : List Item} {stop : Stop} :
    stop ∈ tour (element e :: rest) ↔
      stop = { path := [.ofElement e], repeats := e.repeats } ∨
        (∃ later ∈ tour rest, later.under [.ofElement e] = stop) ∨
        e.optional = true ∧ stop ∈ tour rest := by
  rw [tour]
  by_cases ho : e.optional = true <;> simp [ho]

lemma mem_tour_group {alternatives : List (List Item)} {rest : List Item} {stop : Stop} :
    stop ∈ tour (group alternatives :: rest) ↔
      ∃ alternative ∈ alternatives, stop ∈ tour (alternative ++ rest) := by
  rw [tour_group, List.mem_flatMap]

/-- The sequence has a line from its start to its end that takes these edges. -/
inductive Ends : List Item → List Edge → Prop
  | nil : Ends [] []
  | take {e : Element} {rest : List Item} {path : List Edge} (h : Ends rest path) :
      Ends (element e :: rest) (.ofElement e :: path)
  | skip {e : Element} {rest : List Item} {path : List Edge} (ho : e.optional = true)
      (h : Ends rest path) : Ends (element e :: rest) path
  | choose {alternatives : List (List Item)} {alternative rest : List Item} {path : List Edge}
      (ha : alternative ∈ alternatives) (h : Ends (alternative ++ rest) path) :
      Ends (group alternatives :: rest) path

end Pattern.Item

/-! ## Tours and branches -/

/-- The stops along steps that are taken one after the other. -/
def stopsAlong : List BranchStep → List Stop
  | [] => []
  | step :: steps =>
    { path := [step.edge], repeats := step.repeats } ::
      (stopsAlong steps).map (·.under [step.edge])

namespace Branch

/-- The branch that goes on with `b` after an element. -/
def afterElement (e : Pattern.Element) (b : Branch) : Branch :=
  { b with steps := { edge := .ofElement e, repeats := e.repeats } :: b.steps }

/-- The edges of a branch. -/
def path (b : Branch) : List Edge :=
  b.steps.map (·.edge)

lemma followedBy_ofElement (e : Pattern.Element) (rest : List Branch) :
    (ofElement e).followedBy rest = rest.map (afterElement e) := by
  have hcompletes : (ofElement e).completes = true := rfl
  rw [followedBy, if_pos hcompletes]
  rfl

lemma followedBy_done (rest : List Branch) : done.followedBy rest = rest := by
  simp [followedBy, done]

/-- It does not matter whether the rest of a branch is put together first. -/
lemma followedBy_flatMap (b : Branch) (middle rest : List Branch) :
    b.followedBy (middle.flatMap (·.followedBy rest)) =
      (b.followedBy middle).flatMap (·.followedBy rest) := by
  unfold followedBy
  by_cases hb : b.completes = true
  · rw [if_pos hb, if_pos hb, List.map_flatMap, List.flatMap_map]
    congr 1
    funext m
    by_cases hm : m.completes = true
    · simp [hm]
    · simp [hm]
  · simp [hb]

end Branch

namespace Pattern.Item

open Branch (followedBy)

lemma branchesOf_element (e : Element) (rest : List Item) :
    branchesOf (element e :: rest) =
      (branchesOf rest).map (Branch.afterElement e) ++
        if e.optional then branchesOf rest else [] := by
  rw [branchesOf, branches]
  by_cases ho : e.optional = true
  · simp [ho, Branch.followedBy_ofElement, Branch.followedBy_done]
  · simp [ho, Branch.followedBy_ofElement]

lemma branchesOf_append (xs ys : List Item) :
    branchesOf (xs ++ ys) = (branchesOf xs).flatMap (followedBy · (branchesOf ys)) := by
  induction xs with
  | nil => simp [branchesOf, Branch.followedBy_done]
  | cons x xs ih =>
    rw [List.cons_append, branchesOf, branchesOf, ih, List.flatMap_assoc]
    congr 1
    funext b
    exact b.followedBy_flatMap _ _

lemma branchesOfEach_eq (alternatives : List (List Item)) :
    branchesOfEach alternatives = alternatives.flatMap branchesOf := by
  induction alternatives with
  | nil => rfl
  | cons alternative alternatives ih => rw [branchesOfEach, ih, List.flatMap_cons]

lemma branchesOf_group {alternatives : List (List Item)} (h : alternatives ≠ [])
    (rest : List Item) :
    branchesOf (group alternatives :: rest) =
      alternatives.flatMap fun alternative => branchesOf (alternative ++ rest) := by
  obtain ⟨first, others, rfl⟩ := List.exists_cons_of_ne_nil h
  rw [branchesOf, branches, branchesOfEach_eq, List.flatMap_assoc]
  congr 1
  funext alternative
  exact (branchesOf_append alternative rest).symm

lemma branchesOf_group_nil (rest : List Item) : branchesOf (group [] :: rest) = [.dead] := by
  simp [branchesOf, branches, followedBy, Branch.dead]

lemma branchesOf_ne_nil (items : List Item) : branchesOf items ≠ [] := by
  induction items using tour.induct with
  | case1 => simp [branchesOf]
  | case2 e rest ih => simp [branchesOf_element, ih]
  | case3 alternatives rest ih =>
    by_cases h : alternatives = []
    · simp [h, branchesOf_group_nil]
    · obtain ⟨first, others, rfl⟩ := List.exists_cons_of_ne_nil h
      rw [branchesOf_group h, List.flatMap_cons]
      exact List.append_ne_nil_of_left_ne_nil (ih first List.mem_cons_self) _

/-- Going through all branches, one after the other, comes to the same stops in the same order as
the tour, if only the first time counts. -/
theorem eraseDups_stops_branchesOf (items : List Item) :
    ((branchesOf items).flatMap (stopsAlong ·.steps)).eraseDups = (tour items).eraseDups := by
  induction items using tour.induct with
  | case1 => simp [branchesOf, tour, Branch.done, stopsAlong]
  | case2 e rest ih =>
    have htaken : (((branchesOf rest).map (Branch.afterElement e)).flatMap
        (stopsAlong ·.steps)).eraseDups =
        (({ path := [.ofElement e], repeats := e.repeats } : Stop) ::
          (tour rest).map (·.under [.ofElement e])).eraseDups := by
      rw [List.flatMap_map]
      calc ((branchesOf rest).flatMap fun b => stopsAlong (b.afterElement e).steps).eraseDups
          = ((({ path := [.ofElement e], repeats := e.repeats } : Stop) ::
              (branchesOf rest).flatMap fun b =>
                (stopsAlong b.steps).map (·.under [.ofElement e]))).eraseDups :=
            eraseDups_flatMap_cons (branchesOf_ne_nil rest) _ _
        _ = _ := by
          rw [← List.map_flatMap]
          exact @eraseDups_append_congr _ _ _ [_] [_] _ _ rfl (eraseDups_map_congr _ ih)
    rw [branchesOf_element, tour, List.flatMap_append]
    refine eraseDups_append_congr htaken ?_
    by_cases ho : e.optional = true
    · simpa [ho] using ih
    · simp [ho]
  | case3 alternatives rest ih =>
    rw [tour_group]
    by_cases h : alternatives = []
    · simp [h, branchesOf_group_nil, Branch.dead, stopsAlong]
    · rw [branchesOf_group h, List.flatMap_assoc]
      exact eraseDups_flatMap_congr ih

lemma mem_tour_iff {items : List Item} {stop : Stop} :
    stop ∈ tour items ↔ ∃ b ∈ branchesOf items, stop ∈ stopsAlong b.steps := by
  rw [← List.mem_eraseDups, ← eraseDups_stops_branchesOf, List.mem_eraseDups, List.mem_flatMap]

/-- Every stop is reached by some edge. -/
lemma path_ne_nil_of_mem_tour {items : List Item} {stop : Stop} (h : stop ∈ tour items) :
    stop.path ≠ [] := by
  obtain ⟨b, _, hstop⟩ := mem_tour_iff.1 h
  cases hsteps : b.steps with
  | nil => simp [hsteps, stopsAlong] at hstop
  | cons step steps =>
    rw [hsteps, stopsAlong, List.mem_cons, List.mem_map] at hstop
    rcases hstop with rfl | ⟨_, _, rfl⟩ <;> simp

/-- The lines to the end of a sequence are those of the branches that reach it. -/
theorem ends_iff {items : List Item} {path : List Edge} :
    Ends items path ↔ ∃ b ∈ branchesOf items, b.completes = true ∧ b.path = path := by
  constructor
  · intro h
    induction h with
    | nil => exact ⟨.done, by simp [branchesOf], rfl, rfl⟩
    | @take e rest path _ ih =>
      obtain ⟨b, hb, hcompletes, rfl⟩ := ih
      refine ⟨b.afterElement e, ?_, hcompletes, rfl⟩
      rw [branchesOf_element]
      exact List.mem_append_left _ (List.mem_map_of_mem hb)
    | @skip e rest path ho _ ih =>
      obtain ⟨b, hb, hcompletes, hpath⟩ := ih
      refine ⟨b, ?_, hcompletes, hpath⟩
      rw [branchesOf_element, if_pos ho]
      exact List.mem_append_right _ hb
    | choose ha _ ih =>
      obtain ⟨b, hb, hcompletes, hpath⟩ := ih
      refine ⟨b, ?_, hcompletes, hpath⟩
      rw [branchesOf_group (List.ne_nil_of_mem ha)]
      exact List.mem_flatMap.2 ⟨_, ha, hb⟩
  · rintro ⟨b, hb, hcompletes, rfl⟩
    induction items using tour.induct generalizing b with
    | case1 =>
      rw [branchesOf, List.mem_singleton] at hb
      rw [hb]
      exact .nil
    | case2 e rest ih =>
      rw [branchesOf_element] at hb
      rcases List.mem_append.1 hb with hb | hb
      · obtain ⟨r, hr, rfl⟩ := List.mem_map.1 hb
        exact .take (ih r hr hcompletes)
      · by_cases ho : e.optional = true
        · rw [if_pos ho] at hb
          exact .skip ho (ih b hb hcompletes)
        · simp [ho] at hb
    | case3 alternatives rest ih =>
      by_cases h : alternatives = []
      · rw [h, branchesOf_group_nil, List.mem_singleton] at hb
        rw [hb] at hcompletes
        cases hcompletes
      · rw [branchesOf_group h] at hb
        obtain ⟨alternative, ha, hb⟩ := List.mem_flatMap.1 hb
        exact .choose ha (ih alternative ha b hb hcompletes)

end Pattern.Item

end Lexing
