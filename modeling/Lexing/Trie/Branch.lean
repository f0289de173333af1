import Lexing.Pattern
import Lexing.TagSet

/-!
# Branches

A trie knows nothing of options and groups: it is walked along straight lines. The branches of a
pattern are these lines, one for each way to leave options out and to choose alternatives. Taking
an optional element comes before leaving it out, and alternatives come in their order. A group
without alternatives ends every line that reaches it, without completing the pattern.
-/

namespace Lexing

/-- What one step of a branch matches: one tag, or any tag but one. -/
inductive Edge where
  | exact (tag : Tag)
  | excluding (tag : Tag)
  deriving DecidableEq, Inhabited, Repr

namespace Edge

def ofElement (e : Pattern.Element) : Edge :=
  if e.inverted then excluding e.symbol else exact e.symbol

/-- Whether a tag may pass. -/
def accepts : Edge → Tag → Bool
  | exact tag, t => tag == t
  | excluding tag, t => tag != t

/-- The tags that may pass. -/
def tagSet : Edge → TagSet
  | exact tag => .only [tag]
  | excluding tag => .allBut [tag]

/-- An edge as it appears in names: the tag, with `!` before it if it is the one left out. -/
def label : Edge → String
  | exact tag => tag
  | excluding tag => "!" ++ tag

@[simp] theorem contains_tagSet (e : Edge) (t : Tag) : e.tagSet.contains t = e.accepts t := by
  cases e <;> grind [tagSet, accepts, TagSet.contains]

end Edge

/-- One step of a branch. -/
structure BranchStep where
  edge : Edge
  /-- The step may be taken again and again. -/
  repeats : Bool
  deriving DecidableEq, Inhabited, Repr

/-- A straight line through a pattern. -/
structure Branch where
  steps : List BranchStep
  /-- The line reaches the end of the pattern. -/
  completes : Bool
  deriving DecidableEq, Inhabited, Repr

namespace Branch

/-- The branch that ends at once, at the end of the pattern. -/
def done : Branch :=
  { steps := [], completes := true }

/-- The branch that ends at once, short of the end. -/
def dead : Branch :=
  { steps := [], completes := false }

def ofElement (e : Pattern.Element) : Branch :=
  { steps := [{ edge := .ofElement e, repeats := e.repeats }], completes := true }

/-- The branches that follow `b` by one of `rest`. A dead one is not followed by anything. -/
def followedBy (b : Branch) (rest : List Branch) : List Branch :=
  if b.completes then rest.map fun r => { r with steps := b.steps ++ r.steps } else [b]

end Branch

namespace Pattern.Item

mutual

/-- The branches of an item. -/
def branches : Item → List Branch
  | element e => if e.optional then [.ofElement e, .done] else [.ofElement e]
  | group [] => [.dead]
  | group (alternative :: alternatives) => branchesOfEach (alternative :: alternatives)

/-- The branches of a sequence. -/
def branchesOf : List Item → List Branch
  | [] => [.done]
  | item :: items => (branches item).flatMap (Branch.followedBy · (branchesOf items))

/-- The branches of several sequences. -/
def branchesOfEach : List (List Item) → List Branch
  | [] => []
  | alternative :: alternatives => branchesOf alternative ++ branchesOfEach alternatives

end

end Pattern.Item

end Lexing
