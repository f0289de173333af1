import Lexing.Proofs.Nullability
import Lexing.Proofs.TagSet

/-!
# Patterns that match nothing at all

Of a group one alternative must be matched, so a group without alternatives cannot be.  It blocks
every sequence in which it stands, and a group of which every alternative is blocked is no better
(`Pattern.Item.someBlocked`).  Nothing else blocks a pattern: what is not blocked has a line to its
end, a line to the end is spelled by some word, and what has a word is not blocked.

The checks on definitions refuse a pattern without items and an alternation with an empty
alternative (`Definition.Lacks`).  They do not look for groups without alternatives, not even if
there is nothing else in the pattern, so a lexeme can be made that is never matched
(`Definition.toLexeme_never`).  There is no other way to make one: `Definition.exists_matches_iff`
tells which lexemes can be matched, and end somewhere in a trie.
-/

namespace Lexing

open Pattern (Element Item)

/-! ## Groups without alternatives -/

namespace Pattern.Item

mutual

/-- Whether nothing gets through the item: it is a group, and nothing gets through any of its
alternatives. -/
def isBlocked : Item → Bool
  | element _ => false
  | group alternatives => eachBlocked alternatives

/-- Whether nothing gets through some item of a sequence. -/
def someBlocked : List Item → Bool
  | [] => false
  | item :: items => isBlocked item || someBlocked items

/-- Whether nothing gets through any of several sequences. -/
def eachBlocked : List (List Item) → Bool
  | [] => true
  | alternative :: alternatives => someBlocked alternative && eachBlocked alternatives

end

mutual

/-- The groups of an item, from the outside in. -/
def groups : Item → List (List (List Item))
  | element _ => []
  | group alternatives => alternatives :: groupsOfEach alternatives

/-- The groups of a sequence. -/
def groupsOf : List Item → List (List (List Item))
  | [] => []
  | item :: items => groups item ++ groupsOf items

/-- The groups of several sequences. -/
def groupsOfEach : List (List Item) → List (List (List Item))
  | [] => []
  | alternative :: alternatives => groupsOf alternative ++ groupsOfEach alternatives

end

lemma eachBlocked_eq_all (alternatives : List (List Item)) :
    eachBlocked alternatives = alternatives.all someBlocked := by
  induction alternatives with
  | nil => rfl
  | cons alternative alternatives ih => rw [eachBlocked, ih, List.all_cons]

lemma someBlocked_append (xs ys : List Item) :
    someBlocked (xs ++ ys) = (someBlocked xs || someBlocked ys) := by
  induction xs with
  | nil => rfl
  | cons x xs ih => simp [someBlocked, ih, Bool.or_assoc]

lemma someBlocked_group_eq_false_iff {alternatives : List (List Item)} {rest : List Item} :
    someBlocked (group alternatives :: rest) = false ↔
      ∃ alternative ∈ alternatives, someBlocked (alternative ++ rest) = false := by
  simp [someBlocked, isBlocked, eachBlocked_eq_all, someBlocked_append, ← and_assoc]

lemma groupsOf_append (xs ys : List Item) : groupsOf (xs ++ ys) = groupsOf xs ++ groupsOf ys := by
  induction xs with
  | nil => rfl
  | cons x xs ih => simp [groupsOf, ih]

/-- Where every group has an alternative, nothing is blocked. -/
lemma someBlocked_eq_false_of_groups {items : List Item} (h : [] ∉ groupsOf items) :
    someBlocked items = false := by
  induction items using tour.induct with
  | case1 => rfl
  | case2 e rest ih => exact ih h
  | case3 alternatives rest ih =>
    cases alternatives with
    | nil => simp [groupsOf, groups] at h
    | cons first others =>
      refine someBlocked_group_eq_false_iff.2 ⟨first, List.mem_cons_self, ?_⟩
      refine ih first List.mem_cons_self fun hmem => h ?_
      rw [groupsOf_append] at hmem
      rw [groupsOf, groups, groupsOfEach]
      rcases List.mem_append.1 hmem with hfirst | hrest
      · exact List.mem_append_left _ (List.mem_cons_of_mem _ (List.mem_append_left _ hfirst))
      · exact List.mem_append_right _ hrest

/-! ## Getting through -/

/-- What matches something is not blocked. -/
lemma someBlocked_eq_false_of_matches {items : List Item} {w : List Symbol} (h : Matches items w) :
    someBlocked items = false := by
  induction h with
  | nil => rfl
  | take _ _ _ _ ih => exact ih
  | skip _ _ ih => exact ih
  | choose ha _ _ ihv ih =>
    refine someBlocked_group_eq_false_iff.2 ⟨_, ha, ?_⟩
    rw [someBlocked_append, ihv, ih, Bool.or_self]

/-- What is not blocked has a line to its end: each element is taken, and of each group an
alternative that is not blocked. -/
lemma exists_ends_of_someBlocked_eq_false {items : List Item} (h : someBlocked items = false) :
    ∃ path, Ends items path := by
  induction items using tour.induct with
  | case1 => exact ⟨[], .nil⟩
  | case2 e rest ih =>
    obtain ⟨path, hends⟩ := ih h
    exact ⟨_, .take hends⟩
  | case3 alternatives rest ih =>
    obtain ⟨alternative, ha, hopen⟩ := someBlocked_group_eq_false_iff.1 h
    obtain ⟨path, hends⟩ := ih alternative ha hopen
    exact ⟨path, .choose ha hends⟩

end Pattern.Item

/-- Every element meets some symbol of the stream, unless it asks for the end of it. -/
lemma Pattern.Element.exists_meets {e : Element} (h : e.symbol ≠ endOfStreamTag) :
    ∃ s : Symbol, e.Meets s ∧ s.isEndOfStream = false := by
  obtain ⟨tag, htag⟩ := exists_tag_notMem [e.symbol, endOfStreamTag]
  rw [List.mem_pair, not_or] at htag
  by_cases hinverted : e.inverted = true
  · exact ⟨{ tag, value := .absent }, by simp [Element.Meets, hinverted, htag.1],
      by simp [Symbol.isEndOfStream, htag.2]⟩
  · exact ⟨{ tag := e.symbol, value := .absent }, by simp [Element.Meets, hinverted],
      by simp [Symbol.isEndOfStream, h]⟩

namespace Pattern.Item

/-- A line to the end of a pattern is spelled by some word: one symbol for each edge. -/
lemma exists_matches_of_ends {items : List Item} {path : List Edge} (h : Ends items path)
    (hsymbols : ∀ e ∈ elementsOf items, e.symbol ≠ endOfStreamTag) :
    ∃ w, Matches items w ∧ w.length = path.length ∧ ∀ s ∈ w, s.isEndOfStream = false := by
  induction h with
  | nil => exact ⟨[], .nil, rfl, nofun⟩
  | @take e rest path _ ih =>
    rw [elementsOf, List.forall_mem_append] at hsymbols
    obtain ⟨w, hw, hlength, hgoes⟩ := ih hsymbols.2
    obtain ⟨s, hs, hon⟩ := Element.exists_meets (hsymbols.1 e (List.mem_singleton_self e))
    refine ⟨[s] ++ w, .take (by simp) (.inl rfl) (by simpa using hs) hw, ?_, ?_⟩
    · simp [hlength]
    · exact List.forall_mem_cons.2 ⟨hon, hgoes⟩
  | skip ho _ ih =>
    rw [elementsOf, List.forall_mem_append] at hsymbols
    obtain ⟨w, hw, hrest⟩ := ih hsymbols.2
    exact ⟨w, .skip ho hw, hrest⟩
  | choose ha _ ih =>
    rw [elementsOf, elements, elementsOfEach_eq, List.forall_mem_append] at hsymbols
    rw [elementsOf_append, List.forall_mem_append] at ih
    obtain ⟨w, hw, hrest⟩ :=
      ih ⟨fun e he => hsymbols.1 e (List.mem_flatMap.2 ⟨_, ha, he⟩), hsymbols.2⟩
    exact ⟨w, matches_group_iff.2 ⟨_, ha, hw⟩, hrest⟩

end Pattern.Item

/-- Nothing ends anywhere in a trie without patterns. -/
lemma Trie.endAt?_new (first : LexemeId) (id : NodeId) : (new first).endAt? id = none := by
  cases id <;> rfl

/-- In a fresh trie a lexeme ends somewhere if and only if its pattern has a line of at least one
edge to its end. -/
lemma Trie.exists_endAt?_insert_new_iff (first owner : LexemeId) (items : List Item) :
    (∃ id, ((new first).insert owner items).endAt? id = some owner) ↔
      ∃ path, path ≠ [] ∧ Item.Ends items path := by
  rw [← (rooted_new first).exists_mem_endings_iff owner]
  refine exists_congr fun id => ?_
  rw [endAt?_insert, endAt?_new]
  split_ifs with h <;> simp [h]

/-! ## Lexemes that can be matched -/

namespace Definition

variable {d : Definition} {mode : Mode} {lexeme : Lexeme}

lemma toLexeme_eq_missingPattern_iff {kind : Tag} :
    d.toLexeme mode = .error (.missingPattern kind) ↔
      checkKind d.kind = .ok () ∧ kind = d.kind ∧ d.Lacks mode := by
  have hchecks := d.checks_toLexeme mode
  generalize d.toLexeme mode = result at hchecks
  cases hchecks with
  | kind h hfault =>
    constructor
    · rintro ⟨⟩
      exact hfault.elim
    · rintro ⟨hkind, -⟩
      cases h.symm.trans hkind
  | lacks hkind h => simp [hkind, h, eq_comm]
  | symbols hkind h hfault =>
    constructor
    · rintro ⟨⟩
      exact hfault.elim
    · exact fun hlacks => absurd hlacks.2.2 h
  | nullable hoffers => simp [hoffers.not_lacks]
  | passed hoffers => simp [hoffers.not_lacks]

/-- **What can be matched.**  A lexeme that was made can be matched, and ends somewhere in a fresh
trie, if and only if its pattern is not blocked, which it never is if every group in it has an
alternative.  A definition is refused for having no pattern if and only if there is none, or one
without items, or an alternation with an empty alternative. -/
theorem exists_matches_iff (d : Definition) (mode : Mode) :
    (∀ lexeme, d.toLexeme mode = .ok lexeme →
      ((∃ w, w ≠ [] ∧ (∀ s ∈ w, s.isEndOfStream = false) ∧ Item.Matches lexeme.items w) ↔
        Item.someBlocked lexeme.items = false) ∧
      (∀ first owner, (∃ id, ((Trie.new first).insert owner lexeme.items).endAt? id = some owner) ↔
        Item.someBlocked lexeme.items = false) ∧
      ([] ∉ Item.groupsOf lexeme.items → Item.someBlocked lexeme.items = false)) ∧
    ∀ kind, d.toLexeme mode = .error (.missingPattern kind) ↔
      checkKind d.kind = .ok () ∧ kind = d.kind ∧ d.Lacks mode := by
  refine ⟨fun lexeme h => ?_, fun kind => toLexeme_eq_missingPattern_iff⟩
  obtain ⟨items, hoffers, hnullable, rfl⟩ := exists_offers_of_toLexeme h
  rw [lexemeWith]
  have hsymbols : ∀ e ∈ Item.elementsOf items, e.symbol ≠ endOfStreamTag := fun e he =>
    symbol_ne_of_checkElement (checkElements_eq_ok_iff.1 hoffers.elements e he)
  -- a line to the end of the pattern has an edge, since the pattern is not nullable
  have hne : ∀ path, Item.Ends items path → path ≠ [] := by
    rintro path hends rfl
    rw [← Item.allNullable_iff_ends, hnullable] at hends
    cases hends
  refine ⟨⟨?_, fun hopen => ?_⟩, fun first owner => ?_, Item.someBlocked_eq_false_of_groups⟩
  · rintro ⟨w, -, -, hmatches⟩
    exact Item.someBlocked_eq_false_of_matches hmatches
  · obtain ⟨path, hends⟩ := Item.exists_ends_of_someBlocked_eq_false hopen
    obtain ⟨w, hmatches, hlength, hgoes⟩ := Item.exists_matches_of_ends hends hsymbols
    refine ⟨w, ?_, hgoes, hmatches⟩
    rintro rfl
    exact hne path hends (List.length_eq_zero_iff.1 hlength.symm)
  · rw [Trie.exists_endAt?_insert_new_iff]
    constructor
    · rintro ⟨path, -, hends⟩
      obtain ⟨w, hmatches, -⟩ := Item.exists_matches_of_ends hends hsymbols
      exact Item.someBlocked_eq_false_of_matches hmatches
    · intro hopen
      obtain ⟨path, hends⟩ := Item.exists_ends_of_someBlocked_eq_false hopen
      exact ⟨path, hne path hends, hends⟩

/-- A group without alternatives does no harm as one of several alternatives. -/
theorem exists_matches_iff_detour :
    ∃ w, w ≠ [] ∧ (∀ s ∈ w, s.isEndOfStream = false) ∧
      Item.Matches [.group [[.group []], [.element { symbol := "a" }]]] w := by
  have h := (exists_matches_iff
    { kind := "detour", pattern? := some (.alternation [[.group []], [.element { symbol := "a" }]]) }
    .character).1 _ rfl
  exact h.1.2 rfl

/-- An alternation without alternatives is not refused, but what is made of it is never matched and
ends nowhere. -/
theorem toLexeme_never :
    ∃ lexeme,
      toLexeme .token { kind := "never", pattern? := some (.alternation []) } = .ok lexeme ∧
        (∀ w, ¬ Item.Matches lexeme.items w) ∧
        ∀ first owner id, ((Trie.new first).insert owner lexeme.items).endAt? id = none := by
  refine ⟨_, rfl, fun w h => ?_, fun first owner id => Trie.endAt?_new first id⟩
  cases Item.someBlocked_eq_false_of_matches h

end Definition

end Lexing
