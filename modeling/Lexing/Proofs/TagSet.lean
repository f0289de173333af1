import Lexing.TagSet
import Mathlib.Data.Fintype.EquivFin
import Mathlib.Tactic.Lemma

/-!
# Membership in finite and cofinite sets of tags

Each operation on `TagSet` has one lemma that says which tags are in its result, so that later
proofs reason about tags and never about the two shapes of a set.

Two facts do look at the shapes.  A set that leaves out finitely many tags always has a member,
since there are infinitely many strings (`exists_tag_notMem`).  And a set that is not empty has a
member besides any tag that is not listed in it (`exists_contains_ne`), which is how transitions
are seen to be useful for ordinary symbols and not only for a reserved one.

What a description means is the set `TagSet.members`, in which neither the order of the listed tags
nor a tag listed twice shows.  The operations on descriptions are those on the sets that they mean
(`TagSet.members_exact`).
-/

namespace Lexing

/-- However many tags are set aside, there is one more. -/
lemma exists_tag_notMem (tags : List Tag) : ∃ t : Tag, t ∉ tags := by
  obtain ⟨t, ht⟩ := Infinite.exists_notMem_finset tags.toFinset
  exact ⟨t, by simpa using ht⟩

namespace TagSet

/-! ## Members -/

section Members

variable (a b : TagSet) (t : Tag)

@[simp] lemma contains_empty : TagSet.empty.contains t = false := by
  simp [TagSet.empty, contains]

@[simp] lemma contains_complement : a.complement.contains t = !a.contains t := by
  cases a <;> simp [complement, contains]

@[simp] lemma contains_union : (a.union b).contains t = (a.contains t || b.contains t) := by
  cases a <;> cases b <;>
    grind [union, contains, mem_mergeTags, mem_tagsWithout, mem_tagsWithin]

@[simp] lemma contains_minus : (a.minus b).contains t = (a.contains t && !b.contains t) := by
  cases a <;> cases b <;>
    grind [minus, contains, mem_mergeTags, mem_tagsWithout, mem_tagsWithin]

/-- The test made from a set passes the members of the set and nothing else. -/
@[simp] lemma accepts_toCriterion : a.toCriterion.accepts t = a.contains t := by
  match a with
  | only [] => rfl
  | only [tag] =>
    rw [Bool.eq_iff_iff]
    simp only [toCriterion, Criterion.accepts, contains, beq_iff_eq, List.contains_iff_mem,
      List.mem_singleton]
    exact eq_comm
  | only (_ :: _ :: _) => rfl
  | allBut _ => rfl

lemma contains_eq_false_of_isEmpty (h : a.isEmpty = true) : a.contains t = false := by
  cases a with
  | only tags =>
    rw [isEmpty, List.isEmpty_iff] at h
    simp [h, contains]
  | allBut tags => simp [isEmpty] at h

end Members

/-! ## Listed tags -/

/-- The tags that a set is described by, be they in it or left out of it. -/
def tags : TagSet → List Tag
  | only tags => tags
  | allBut tags => tags

variable {a b : TagSet} {s t : Tag}

lemma mem_tags_of_mem_tags_union (h : t ∈ (a.union b).tags) : t ∈ a.tags ∨ t ∈ b.tags := by
  cases a <;> cases b <;>
    grind [union, tags, mem_mergeTags, mem_tagsWithout, mem_tagsWithin]

lemma mem_tags_of_mem_tags_minus (h : t ∈ (a.minus b).tags) : t ∈ a.tags ∨ t ∈ b.tags := by
  cases a <;> cases b <;>
    grind [minus, tags, mem_mergeTags, mem_tagsWithout, mem_tagsWithin]

/-- A set that is not empty has a member besides any tag that it does not list. -/
lemma exists_contains_ne (h : a.isEmpty = false) (hs : s ∉ a.tags) :
    ∃ t, t ≠ s ∧ a.contains t = true := by
  cases a with
  | only tags =>
    obtain ⟨t, ht⟩ := List.exists_mem_of_ne_nil tags (by simpa [isEmpty] using h)
    refine ⟨t, ?_, by simpa [contains] using ht⟩
    rintro rfl
    exact hs ht
  | allBut tags =>
    obtain ⟨t, ht⟩ := exists_tag_notMem (s :: tags)
    rw [List.mem_cons, not_or] at ht
    exact ⟨t, ht.1, by simpa [contains] using ht.2⟩

/-! ## What a description means -/

/-- The tags in the set that is described. -/
def members : TagSet → Set Tag
  | only tags => {t | t ∈ tags}
  | allBut tags => {t | t ∉ tags}

lemma mem_members_iff : t ∈ a.members ↔ a.contains t = true := by
  cases a <;> simp [members, contains]

/-- A list of tags describes the empty set if it is empty; as a list of exceptions it never does. -/
lemma isEmpty_iff_members : a.isEmpty = true ↔ a.members = ∅ := by
  cases a with
  | only tags =>
    show tags.isEmpty = true ↔ {t | t ∈ tags} = ∅
    rw [List.isEmpty_iff, Set.eq_empty_iff_forall_notMem, List.eq_nil_iff_forall_not_mem]
    exact Iff.rfl
  | allBut tags =>
    obtain ⟨t, ht⟩ := exists_tag_notMem tags
    have hmem : t ∈ (allBut tags).members := ht
    apply iff_of_false
    · exact Bool.false_ne_true
    · intro hnone
      rw [hnone] at hmem
      exact hmem

lemma isEmpty_toCriterion : a.toCriterion.isEmpty = a.isEmpty := by
  match a with
  | only [] => rfl
  | only [_] => rfl
  | only (_ :: _ :: _) => rfl
  | allBut _ => rfl

/-- **The algebra is exact.**  Union, difference and complement of descriptions describe the union,
the difference and the complement; the check for emptiness finds the empty set and no other; and
the test made from a description passes the tags of the set, and none if there is none. -/
theorem members_exact (a b : TagSet) :
    (a.union b).members = a.members ∪ b.members ∧
      (a.minus b).members = a.members \ b.members ∧
      a.complement.members = a.membersᶜ ∧
      (a.isEmpty = true ↔ a.members = ∅) ∧
      (∀ t, a.toCriterion.accepts t = true ↔ t ∈ a.members) ∧
      (a.toCriterion.isEmpty = true ↔ a.members = ∅) := by
  refine ⟨?_, ?_, ?_, isEmpty_iff_members, fun t => ?_, ?_⟩
  · ext t
    rw [Set.mem_union, mem_members_iff, mem_members_iff, mem_members_iff, contains_union,
      Bool.or_eq_true]
  · ext t
    rw [Set.mem_sdiff, mem_members_iff, mem_members_iff, mem_members_iff, contains_minus,
      Bool.and_eq_true, Bool.not_eq_true', Bool.not_eq_true]
  · ext t
    rw [Set.mem_compl_iff, mem_members_iff, mem_members_iff, contains_complement,
      Bool.not_eq_true', Bool.not_eq_true]
  · rw [accepts_toCriterion, mem_members_iff]
  · rw [isEmpty_toCriterion, isEmpty_iff_members]

end TagSet

end Lexing
