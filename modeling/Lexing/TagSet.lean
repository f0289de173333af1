import Lexing.Tag

/-!
# Sets of tags

A transition is taken on some tags and not on others. The sets that come up are finite or have a
finite complement, so a list of tags and a flag describe them, and they are closed under union,
difference and complement. The lists keep the order in which tags came in, which is the order in
which they are shown.
-/

namespace Lexing

/-- A set of tags that is finite or has a finite complement. -/
inductive TagSet where
  /-- These tags and no other. -/
  | only (tags : List Tag)
  /-- Every tag except these. -/
  | allBut (tags : List Tag)
  deriving DecidableEq, Inhabited, Repr

/-- The test that a transition makes on a tag. -/
inductive Criterion where
  | exact (tag : Tag)
  | oneOf (tags : List Tag)
  | excluding (tags : List Tag)
  deriving DecidableEq, Inhabited, Repr

/-! ## Lists of tags -/

/-- The tags of `a`, then those of `b` that `a` does not have. -/
def mergeTags (a b : List Tag) : List Tag :=
  a ++ b.filter (!a.contains ·)

/-- The tags of `a` that `b` does not have. -/
def tagsWithout (a b : List Tag) : List Tag :=
  a.filter (!b.contains ·)

/-- The tags of `a` that `b` has too. -/
def tagsWithin (a b : List Tag) : List Tag :=
  a.filter (b.contains ·)

@[simp] theorem mem_mergeTags {a b : List Tag} {t : Tag} :
    t ∈ mergeTags a b ↔ t ∈ a ∨ t ∈ b := by
  by_cases h : t ∈ a <;> simp [mergeTags, h]

@[simp] theorem mem_tagsWithout {a b : List Tag} {t : Tag} :
    t ∈ tagsWithout a b ↔ t ∈ a ∧ t ∉ b := by
  simp [tagsWithout]

@[simp] theorem mem_tagsWithin {a b : List Tag} {t : Tag} :
    t ∈ tagsWithin a b ↔ t ∈ a ∧ t ∈ b := by
  simp [tagsWithin]

/-! ## The algebra -/

namespace TagSet

/-- Whether `t` is in the set. -/
def contains : TagSet → Tag → Bool
  | only tags, t => tags.contains t
  | allBut tags, t => !tags.contains t

def empty : TagSet :=
  only []

/-- Whether the set is empty. The complement of a finite set of tags never is. -/
def isEmpty : TagSet → Bool
  | only tags => tags.isEmpty
  | allBut _ => false

def complement : TagSet → TagSet
  | only tags => allBut tags
  | allBut tags => only tags

def union : TagSet → TagSet → TagSet
  | only a, only b => only (mergeTags a b)
  | only a, allBut b => allBut (tagsWithout b a)
  | allBut a, only b => allBut (tagsWithout a b)
  | allBut a, allBut b => allBut (tagsWithin a b)

def minus : TagSet → TagSet → TagSet
  | only a, only b => only (tagsWithout a b)
  | only a, allBut b => only (tagsWithin a b)
  | allBut a, only b => allBut (mergeTags a b)
  | allBut a, allBut b => only (tagsWithout b a)

/-- The test for membership in the set. -/
def toCriterion : TagSet → Criterion
  | only [tag] => .exact tag
  | only tags => .oneOf tags
  | allBut tags => .excluding tags

end TagSet

/-! ## Criteria -/

namespace Criterion

/-- Whether a tag passes the test. -/
def accepts : Criterion → Tag → Bool
  | exact tag, t => tag == t
  | oneOf tags, t => tags.contains t
  | excluding tags, t => !tags.contains t

/-- Whether no tag at all passes. -/
def isEmpty : Criterion → Bool
  | oneOf tags => tags.isEmpty
  | _ => false

end Criterion

end Lexing
