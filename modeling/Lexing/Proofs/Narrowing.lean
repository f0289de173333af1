import Lexing.Proofs.TagSet
import Lexing.StateTable.Compile

/-!
# Narrowing keeps the first match

The ways out of a node are tried in order, and the first whose edge accepts a tag is taken.  A
state instead has transitions that exclude one another.  Narrowing leads from the one to the other:
each exit keeps the tags that no earlier exit accepts.

`filter_narrow_of_find?_eq_some` is the statement to use.  For a tag that is not covered yet,
exactly one of the narrowed transitions accepts it, and that one comes from the first exit that
accepts it.  The converse case is `filter_narrow_of_find?_eq_none`, and `contains_narrow` says which
tags are left over for the catch-all transition.
-/

namespace Lexing.StateTable

variable {covered : TagSet} {exit : Exit} {exits : List Exit} {tag : Tag}

/-! ## What an exit becomes -/

/-- The exit, limited to the tags of a set. -/
def Exit.limitedTo (exit : Exit) (left : TagSet) : Transition :=
  { kind := exit.kind
    criterion := left.toCriterion
    target := exit.target
    accept? := exit.accept?
    replay := false }

/-- Up to its criterion, the transition is the exit. -/
def Exit.Becomes (exit : Exit) (tr : Transition) : Prop :=
  ∃ left : TagSet, tr = exit.limitedTo left

lemma narrow_cons_of_isEmpty (h : (exit.edge.tagSet.minus covered).isEmpty = true) :
    narrow covered (exit :: exits) = narrow covered exits := by
  simp [narrow, h]

lemma narrow_cons_of_not_isEmpty (h : (exit.edge.tagSet.minus covered).isEmpty = false) :
    narrow covered (exit :: exits) =
      (exit.limitedTo (exit.edge.tagSet.minus covered) ::
        (narrow (covered.union exit.edge.tagSet) exits).1,
       (narrow (covered.union exit.edge.tagSet) exits).2) := by
  simp [narrow, h, Exit.limitedTo]

/-- Nothing but the edge and the covered tags decides whether the narrowed exit accepts a tag. -/
lemma accepts_limitedTo_minus :
    (exit.limitedTo (exit.edge.tagSet.minus covered)).criterion.accepts tag =
      (exit.edge.accepts tag && !covered.contains tag) := by
  simp [Exit.limitedTo]

/-- An exit that is dropped adds nothing to what is covered. -/
lemma contains_of_isEmpty_minus (h : (exit.edge.tagSet.minus covered).isEmpty = true)
    (htag : exit.edge.accepts tag = true) : covered.contains tag = true := by
  have hminus := TagSet.contains_eq_false_of_isEmpty _ tag h
  simpa [htag] using hminus

/-! ## Which tags are taken -/

/-- All tags of the exits are covered in the end, and those that were covered before. -/
lemma contains_narrow :
    (narrow covered exits).2.contains tag =
      (covered.contains tag || exits.any (·.edge.accepts tag)) := by
  induction exits generalizing covered with
  | nil => simp [narrow]
  | cons exit exits ih =>
    cases hempty : (exit.edge.tagSet.minus covered).isEmpty with
    | true =>
      rw [narrow_cons_of_isEmpty hempty, ih, List.any_cons]
      cases htag : exit.edge.accepts tag with
      | true => simp [contains_of_isEmpty_minus hempty htag]
      | false => simp
    | false =>
      rw [narrow_cons_of_not_isEmpty hempty, ih, List.any_cons]
      simp [Bool.or_assoc]

/-- No narrowed transition accepts a tag that was covered before. -/
lemma filter_narrow_of_contains (h : covered.contains tag = true) :
    (narrow covered exits).1.filter (·.criterion.accepts tag) = [] := by
  induction exits generalizing covered with
  | nil => simp [narrow]
  | cons exit exits ih =>
    cases hempty : (exit.edge.tagSet.minus covered).isEmpty with
    | true =>
      rw [narrow_cons_of_isEmpty hempty]
      exact ih h
    | false =>
      have hunion : (covered.union exit.edge.tagSet).contains tag = true := by simp [h]
      rw [narrow_cons_of_not_isEmpty hempty, List.filter_cons_of_neg]
      · exact ih hunion
      · simp [accepts_limitedTo_minus, h]

/-- No narrowed transition accepts a tag that no exit accepts. -/
lemma filter_narrow_of_find?_eq_none (h : exits.find? (·.edge.accepts tag) = none) :
    (narrow covered exits).1.filter (·.criterion.accepts tag) = [] := by
  induction exits generalizing covered with
  | nil => simp [narrow]
  | cons exit exits ih =>
    rw [List.find?_eq_none, List.forall_mem_cons, ← List.find?_eq_none] at h
    cases hempty : (exit.edge.tagSet.minus covered).isEmpty with
    | true =>
      rw [narrow_cons_of_isEmpty hempty]
      exact ih h.2
    | false =>
      rw [narrow_cons_of_not_isEmpty hempty, List.filter_cons_of_neg]
      · exact ih h.2
      · simpa [accepts_limitedTo_minus] using fun hexit => absurd hexit h.1

/-- A tag that is not covered yet is accepted by one transition, made from the first exit that
accepts it. -/
theorem filter_narrow_of_find?_eq_some (hcovered : covered.contains tag = false)
    (h : exits.find? (·.edge.accepts tag) = some exit) :
    ∃ tr, (narrow covered exits).1.filter (·.criterion.accepts tag) = [tr] ∧
      exit.Becomes tr := by
  induction exits generalizing covered with
  | nil => simp at h
  | cons first exits ih =>
    cases hempty : (first.edge.tagSet.minus covered).isEmpty with
    | true =>
      -- a dropped exit accepts no tag that is not covered, so it is not the first match
      have hfirst : first.edge.accepts tag = false := by
        by_contra htag
        rw [contains_of_isEmpty_minus hempty (by simpa using htag)] at hcovered
        cases hcovered
      rw [narrow_cons_of_isEmpty hempty]
      simp only [List.find?_cons, hfirst] at h
      exact ih hcovered h
    | false =>
      rw [narrow_cons_of_not_isEmpty hempty]
      cases htag : first.edge.accepts tag with
      | true =>
        simp only [List.find?_cons, htag, Option.some.injEq] at h
        subst h
        have htaken : (covered.union first.edge.tagSet).contains tag = true := by simp [htag]
        refine ⟨first.limitedTo (first.edge.tagSet.minus covered), ?_, _, rfl⟩
        rw [List.filter_cons_of_pos, filter_narrow_of_contains htaken]
        simp [accepts_limitedTo_minus, htag, hcovered]
      | false =>
        simp only [List.find?_cons, htag] at h
        have hfree : (covered.union first.edge.tagSet).contains tag = false := by
          simp [hcovered, htag]
        rw [List.filter_cons_of_neg]
        · exact ih hfree h
        · simp [accepts_limitedTo_minus, htag]

/-! ## Transitions that are kept -/

/-- A narrowed transition comes from one of the exits. -/
lemma exists_becomes_of_mem_narrow {tr : Transition} (h : tr ∈ (narrow covered exits).1) :
    ∃ exit ∈ exits, exit.Becomes tr := by
  induction exits generalizing covered with
  | nil => simp [narrow] at h
  | cons exit exits ih =>
    cases hempty : (exit.edge.tagSet.minus covered).isEmpty with
    | true =>
      rw [narrow_cons_of_isEmpty hempty] at h
      obtain ⟨other, hother, hbecomes⟩ := ih h
      exact ⟨other, List.mem_cons_of_mem _ hother, hbecomes⟩
    | false =>
      rw [narrow_cons_of_not_isEmpty hempty] at h
      rcases List.mem_cons.1 h with rfl | h
      · exact ⟨exit, List.mem_cons_self, _, rfl⟩
      · obtain ⟨other, hother, hbecomes⟩ := ih h
        exact ⟨other, List.mem_cons_of_mem _ hother, hbecomes⟩

/-- A transition is kept only if it accepts something, and then it accepts something besides any
tag that no edge names. -/
lemma exists_accepts_ne_of_mem_narrow {s : Tag} {tr : Transition}
    (hcovered : s ∉ covered.tags) (hexits : ∀ exit ∈ exits, s ∉ exit.edge.tagSet.tags)
    (h : tr ∈ (narrow covered exits).1) : ∃ tag, tag ≠ s ∧ tr.criterion.accepts tag = true := by
  induction exits generalizing covered with
  | nil => simp [narrow] at h
  | cons exit exits ih =>
    rw [List.forall_mem_cons] at hexits
    cases hempty : (exit.edge.tagSet.minus covered).isEmpty with
    | true =>
      rw [narrow_cons_of_isEmpty hempty] at h
      exact ih hcovered hexits.2 h
    | false =>
      rw [narrow_cons_of_not_isEmpty hempty] at h
      rcases List.mem_cons.1 h with rfl | h
      · have hleft : s ∉ (exit.edge.tagSet.minus covered).tags := by
          intro hs
          exact (TagSet.mem_tags_of_mem_tags_minus hs).elim hexits.1 hcovered
        simpa [Exit.limitedTo] using TagSet.exists_contains_ne hempty hleft
      · have hunion : s ∉ (covered.union exit.edge.tagSet).tags := by
          intro hs
          exact (TagSet.mem_tags_of_mem_tags_union hs).elim hcovered hexits.1
        exact ih hunion hexits.2 h

end Lexing.StateTable
