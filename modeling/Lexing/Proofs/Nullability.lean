import Lexing.Proofs.Accepted
import Lexing.Proofs.Endings
import Lexing.Proofs.Words

/-!
# Patterns that can be matched by nothing

A pattern must not be matched by no symbols at all.  Whether it can be is found out item by item:
every item must be nullable, and a group is if one of its alternatives is.  Insertion into a trie
goes about it differently, since it puts each alternative of a group in front of what comes after
the group, and what it finds is a branch that ends where it starts.  Such a branch is passed over,
and with it a way to match would be lost.

The two agree with each other and with what the pattern matches (`Pattern.Item.matches_nil_iff`,
`Trie.Rooted.rootId_mem_endings_iff`).  So the check refuses a pattern if and only if a branch of it
would be passed over, and no branch of a pattern that was let through ever is
(`Definition.nullable_iff`).
-/

namespace Lexing

open Pattern (Item)

/-! ## Matching nothing -/

namespace Pattern.Item

/-- Looking at the items one by one finds out whether there is a line of no edges to the end. -/
lemma allNullable_iff_ends {items : List Item} : allNullable items = true ↔ Ends items [] := by
  refine ⟨fun h => ?_, fun h => allNullable_of_ends h rfl⟩
  induction items using tour.induct with
  | case1 => exact .nil
  | case2 e rest ih =>
    rw [allNullable, isNullable, Bool.and_eq_true] at h
    exact .skip h.1 (ih h.2)
  | case3 alternatives rest ih =>
    rw [allNullable, isNullable, Bool.and_eq_true, anyNullable_iff] at h
    obtain ⟨⟨alternative, ha, hnullable⟩, hrest⟩ := h
    refine .choose ha (ih alternative ha ?_)
    rw [allNullable_append, hnullable, hrest, Bool.and_self]

/-- The empty sequence is a word of a pattern if and only if there is a line of no edges to its
end. -/
lemma matches_nil_iff {items : List Item} : Matches items [] ↔ Ends items [] := by
  induction items using tour.induct with
  | case1 => exact ⟨fun _ => .nil, fun _ => .nil⟩
  | case2 e rest ih =>
    constructor
    · intro h
      -- an element that is taken has at least one symbol, so this one was left out
      generalize hw : ([] : List Symbol) = w at h
      cases h with
      | take hne => exact absurd (List.append_eq_nil_iff.1 hw.symm).1 hne
      | skip ho h =>
        subst hw
        exact .skip ho (ih.1 h)
    · intro h
      cases h with
      | skip ho h => exact .skip ho (ih.2 h)
  | case3 alternatives rest ih =>
    rw [matches_group_iff]
    constructor
    · rintro ⟨alternative, ha, h⟩
      exact .choose ha ((ih alternative ha).1 h)
    · intro h
      cases h with
      | choose ha h => exact ⟨_, ha, (ih _ ha).2 h⟩

end Pattern.Item

/-! ## The check -/

namespace Definition

/-- **The check for nullability is exact.**  A definition that passes all the checks before it is
refused as nullable if and only if its pattern matches the empty sequence, which is if and only if
inserting the pattern comes to its end at the root of the trie, whatever the trie.  No other
definition is refused so, and the pattern of a lexeme that is made never comes to its end there. -/
theorem nullable_iff (d : Definition) (mode : Mode) :
    (∀ items, d.Offers mode items →
      (d.toLexeme mode = .error (.nullablePattern d.kind) ↔ Item.Matches items []) ∧
      ∀ t : Trie, t.Built → ∀ owner,
        (d.toLexeme mode = .error (.nullablePattern d.kind) ↔
          Trie.rootId ∈ t.endings owner (Item.branchesOf items))) ∧
    (∀ kind, d.toLexeme mode = .error (.nullablePattern kind) →
      kind = d.kind ∧ ∃ items, d.Offers mode items) ∧
    ∀ lexeme, d.toLexeme mode = .ok lexeme → d.Offers mode lexeme.items ∧
      ∀ t : Trie, t.Built → ∀ owner,
        Trie.rootId ∉ t.endings owner (Item.branchesOf lexeme.items) := by
  refine ⟨fun items hoffers => ?_, fun kind h => ?_, fun lexeme h => ?_⟩
  · -- all three say that there is a line of no edges to the end
    have hrefused : d.toLexeme mode = .error (.nullablePattern d.kind) ↔ Item.Ends items [] := by
      rw [hoffers.toLexeme_eq, ← Item.allNullable_iff_ends]
      split_ifs with hnullable <;> simp [hnullable]
    refine ⟨hrefused.trans Item.matches_nil_iff.symm, fun t ht owner => ?_⟩
    rw [hrefused, ht.rooted.rootId_mem_endings_iff]
  · have hchecks := d.checks_toLexeme mode
    rw [h] at hchecks
    cases hchecks with
    | kind _ hfault => exact hfault.elim
    | symbols _ _ hfault => exact hfault.elim
    | nullable hoffers => exact ⟨rfl, _, hoffers⟩
  · obtain ⟨items, hoffers, hnullable, rfl⟩ := exists_offers_of_toLexeme h
    refine ⟨hoffers, fun t ht owner hroot => ?_⟩
    have hends := ht.rooted.rootId_mem_endings_iff.1 hroot
    rw [← Item.allNullable_iff_ends, lexemeWith, hnullable] at hends
    cases hends

/-- A pattern that can be left out altogether: a group with an empty alternative, and an optional
element after it. -/
def skippable : List Item :=
  [.group [[.element { symbol := "a" }], []], .element { symbol := "b", optional := true }]

lemma offers_skippable :
    Offers { kind := "maybe", pattern? := some (.sequence skippable) } .token skippable where
  kind := rfl
  pattern := ⟨_, rfl, rfl⟩
  ne_nil := List.cons_ne_nil _ _
  elements := rfl

theorem nullable_iff_skippable :
    Item.Matches skippable [] ∧
      ∀ t : Trie, t.Built → ∀ owner,
        Trie.rootId ∈ t.endings owner (Item.branchesOf skippable) := by
  obtain ⟨hmatches, hroot⟩ := (nullable_iff _ .token).1 _ offers_skippable
  exact ⟨hmatches.1 rfl, fun t ht owner => (hroot t ht owner).1 rfl⟩

end Definition

end Lexing
