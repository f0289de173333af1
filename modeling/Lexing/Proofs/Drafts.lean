import Lexing.Proofs.Accepted
import Lexing.Proofs.Calls
import Lexing.Proofs.Nullability

/-!
# Drafts, call by call

A draft is made by calls, and any of them may fail.  What a call does is listed in `Draft.Does`: it
fails and the draft stays as it is, it sets the default lexeme where there was none, or it puts one
checked lexeme behind the others.

So a draft says no more and no less than which calls went well (`Draft.Records`): its lexemes are
those of the definitions that were accepted, in this order, and the number that each call answered
is the place of its lexeme.  Chained calls do the same work and only keep the first error on the side
(`Draft.foldl_link_new`), which is why the two ways to make a lexicon come to the same
(`Draft.callAll_builds`).
-/

namespace Lexing

/-! ## Elements inside groups -/

namespace Pattern.Item

variable {e : Element} {item : Item} {items : List Item}

/-- The element is one of the items, or stands in an alternative of a group among them, however
deep. -/
inductive Occurs (e : Element) : List Item → Prop where
  | here {items : List Item} (h : .element e ∈ items) : Occurs e items
  | inside {items alternative : List Item} {alternatives : List (List Item)}
      (hgroup : .group alternatives ∈ items) (ha : alternative ∈ alternatives)
      (h : Occurs e alternative) : Occurs e items

lemma elements_subset_elementsOf (h : item ∈ items) : elements item ⊆ elementsOf items := by
  obtain ⟨before, after, rfl⟩ := List.append_of_mem h
  rw [elementsOf_append, elementsOf]
  exact List.subset_append_of_subset_right _ (List.subset_append_left _ _)

/-- The list of the elements leaves none of them out. -/
lemma Occurs.mem_elementsOf (h : Occurs e items) : e ∈ elementsOf items := by
  induction h with
  | here h => exact elements_subset_elementsOf h (List.mem_singleton_self e)
  | inside hgroup ha _ ih =>
    apply elements_subset_elementsOf hgroup
    rw [elements, elementsOfEach_eq]
    exact List.mem_flatMap.2 ⟨_, ha, ih⟩

end Pattern.Item

/-! ## Lexicons made of definitions -/

/-- The patterns of a mode may ask for the symbol. -/
structure Mode.Allows (mode : Mode) (symbol : Tag) : Prop where
  ne_empty : symbol ≠ ""
  ne_endOfStreamTag : symbol ≠ endOfStreamTag
  single : mode = .character → symbol = textTag ∨ symbol.length = 1

lemma Definition.allows_of_checkElement {kind : Tag} {mode : Mode} {e : Pattern.Element}
    (h : checkElement kind mode e = .ok ()) : mode.Allows e.symbol := by
  unfold checkElement at h
  split_ifs at h with hempty hreserved hlong
  have hne : e.symbol ≠ "" := by simpa using hempty
  refine ⟨hne, hreserved, fun hmode => ?_⟩
  by_cases htext : e.symbol = textTag
  · exact .inl htext
  · right
    have hshort : ¬ 1 < e.symbol.length := fun hlength => hlong ⟨hmode, htext, hlength⟩
    have hpos : e.symbol.length ≠ 0 := by simpa using hne
    omega

/-- The items are fit for a lexeme with a pattern. -/
structure Pattern.Item.Fit (items : List Pattern.Item) (mode : Mode) : Prop where
  ne_nil : items ≠ []
  /-- The pattern is not nullable. -/
  allNullable_eq : allNullable items = false
  not_matches_nil : ¬ Matches items []
  allows : ∀ e, Occurs e items → mode.Allows e.symbol

lemma Definition.Offers.fit {d : Definition} {mode : Mode} {items : List Pattern.Item}
    (h : d.Offers mode items) (hnullable : Pattern.Item.allNullable items = false) :
    Pattern.Item.Fit items mode where
  ne_nil := h.ne_nil
  allNullable_eq := hnullable
  not_matches_nil := by
    rw [Pattern.Item.matches_nil_iff, ← Pattern.Item.allNullable_iff_ends, hnullable]
    exact Bool.false_ne_true
  allows e he :=
    allows_of_checkElement (checkElements_eq_ok_iff.1 h.elements e he.mem_elementsOf)

lemma Definition.eq_lexemeWith_of_toDefault {d : Definition} {lexeme : Lexeme}
    (h : d.toDefault = .ok lexeme) : lexeme = d.lexemeWith [] := by
  unfold toDefault at h
  split at h
  · cases h
  · split at h
    · cases h
    · cases h
      rfl

/-- The lexicon holds the lexemes of certain definitions: one for the default lexeme, and others
with patterns, each of these with the number that its lexeme has. -/
structure Lexicon.MadeOf (l : Lexicon) (mode : Mode) (default : Definition)
    (added : List (LexemeId × Definition)) : Prop where
  mode_eq : l.mode = mode
  size_eq : l.size = added.length + 1
  lexeme?_default : l.lexeme? defaultId = some (default.lexemeWith [])
  /-- The numbers go up from 1, and the lexeme with a number has the items that the pattern of its
  definition stands for. -/
  lexeme?_added : ∀ {i : ℕ} {id : LexemeId} {d : Definition}, added[i]? = some (id, d) →
    id = i + 1 ∧ ∃ items, d.Offers mode items ∧ Pattern.Item.Fit items mode ∧
      l.lexeme? id = some (d.lexemeWith items)
  isDefault_iff : ∀ {i : LexemeId} {lexeme : Lexeme}, l.lexeme? i = some lexeme →
    (lexeme.isDefault = true ↔ i = defaultId)

/-! ## Calls that report at once -/

namespace Draft

/-- A call that reports its own error. -/
inductive Call where
  | setDefault (d : Definition)
  | add (d : Definition)
  deriving Inhabited

/-- What is answered to a call: an error, or that it went well, with the number of the lexeme if it
is one with a pattern. -/
abbrev Answer := Except LexiconError (Option LexemeId)

/-- What a call does. -/
def call (draft : Draft) : Call → Answer × Draft
  | .setDefault d =>
    match draft.setDefault d with
    | .ok draft' => (.ok none, draft')
    | .error fault => (.error fault, draft)
  | .add d =>
    match draft.add d with
    | .ok (id, draft') => (.ok (some id), draft')
    | .error fault => (.error fault, draft)

variable {draft draft' : Draft} {c : Call} {calls : List Call} {answer : Answer}
  {answers : List Answer} {log : List (Call × Answer)} {mode : Mode}

/-- All that a call can do to a draft. -/
inductive Does (draft : Draft) : Call → Answer → Draft → Prop where
  | fail {c : Call} {fault : LexiconError} : Does draft c (.error fault) draft
  | setDefault {d : Definition} {lexeme : Lexeme} (hnone : draft.defaultLexeme? = none)
      (h : d.toDefault = .ok lexeme) :
      Does draft (.setDefault d) (.ok none) { draft with defaultLexeme? := some lexeme }
  | add {d : Definition} {lexeme : Lexeme} (hsome : draft.defaultLexeme? ≠ none)
      (h : d.toLexeme draft.mode = .ok lexeme) :
      Does draft (.add d) (.ok (some (draft.patternLexemes.length + 1)))
        { draft with patternLexemes := draft.patternLexemes ++ [lexeme] }

lemma defaultLexeme?_eq_none_of_setDefault {d : Definition}
    (h : draft.setDefault d = .ok draft') : draft.defaultLexeme? = none := by
  unfold setDefault at h
  split at h
  · cases h
  · assumption

lemma number_of_add {d : Definition} {id : LexemeId} (h : draft.add d = .ok (id, draft')) :
    draft.defaultLexeme? ≠ none ∧ id = draft.patternLexemes.length + 1 := by
  unfold add at h
  split at h
  · cases h
  · rename_i existing hexisting
    split at h
    · cases h
    · cases h
      exact ⟨by rw [hexisting]; exact Option.some_ne_none existing, rfl⟩

lemma does_call (draft : Draft) (c : Call) : Does draft c (draft.call c).1 (draft.call c).2 := by
  cases c with
  | setDefault d =>
    cases hd : draft.setDefault d with
    | error fault =>
      simp only [call, hd]
      exact .fail
    | ok draft' =>
      obtain ⟨lexeme, hlexeme, rfl⟩ := exists_of_setDefault hd
      simp only [call, hd]
      exact .setDefault (defaultLexeme?_eq_none_of_setDefault hd) hlexeme
  | add d =>
    cases hd : draft.add d with
    | error fault =>
      simp only [call, hd]
      exact .fail
    | ok added =>
      obtain ⟨lexeme, hlexeme, hdraft⟩ := exists_of_add hd
      obtain ⟨hsome, hid⟩ := number_of_add hd
      simp only [call, hd, hid, hdraft]
      exact .add hsome hlexeme

/-- **A call that fails** leaves the draft as it is. -/
lemma eq_of_call_fails {fault : LexiconError} (h : draft.call c = (.error fault, draft')) :
    draft' = draft := by
  have hdoes := draft.does_call c
  rw [h] at hdoes
  cases hdoes
  rfl

/-! ## What a draft records -/

/-- The definitions of default lexemes that were accepted. -/
def defaultsOf (log : List (Call × Answer)) : List Definition :=
  log.filterMap fun
    | (.setDefault d, .ok _) => some d
    | _ => none

/-- The definitions with patterns that were accepted, each with the number that was answered. -/
def addedOf (log : List (Call × Answer)) : List (LexemeId × Definition) :=
  log.filterMap fun
    | (.add d, .ok (some id)) => some (id, d)
    | _ => none

/-- The draft is what calls have made of a new one that were answered as the log says. -/
structure Records (draft : Draft) (mode : Mode) (log : List (Call × Answer)) : Prop where
  mode_eq : draft.mode = mode
  fault?_eq : draft.fault? = none
  default : (defaultsOf log).map Definition.toDefault = draft.defaultLexeme?.toList.map .ok
  added : (addedOf log).map (fun entry => entry.2.toLexeme mode) = draft.patternLexemes.map .ok
  numbers : (addedOf log).map Prod.fst = List.range' 1 draft.patternLexemes.length

lemma records_new (mode : Mode) : (new mode).Records mode [] where
  mode_eq := rfl
  fault?_eq := rfl
  default := rfl
  added := rfl
  numbers := rfl

/-- **One call.**  What it adds to the log it adds to the draft. -/
lemma Records.step (h : draft.Records mode log) (hdoes : Does draft c answer draft') :
    draft'.Records mode (log ++ [(c, answer)]) := by
  obtain ⟨hmode, hfault, hdefault, hadded, hnumbers⟩ := h
  cases hdoes with
  | fail =>
    refine ⟨hmode, hfault, ?_, ?_, ?_⟩
    · simpa [defaultsOf] using hdefault
    · simpa [addedOf] using hadded
    · simpa [addedOf] using hnumbers
  | setDefault hnone hlexeme =>
    refine ⟨hmode, hfault, ?_, ?_, ?_⟩
    · rw [hnone] at hdefault
      simpa [defaultsOf, hlexeme] using hdefault
    · simpa [addedOf] using hadded
    · simpa [addedOf] using hnumbers
  | add hsome hlexeme =>
    rw [hmode] at hlexeme
    refine ⟨hmode, hfault, ?_, ?_, ?_⟩
    · simpa [defaultsOf] using hdefault
    · simpa [addedOf, hlexeme] using hadded
    · simpa [addedOf, List.range'_concat, Nat.add_comm] using hnumbers

/-- **Several calls.** -/
lemma Records.run (h : draft.Records mode log)
    (hrun : callAll call draft calls = (answers, draft')) :
    draft'.Records mode (log ++ calls.zip answers) := by
  induction calls generalizing draft answers log with
  | nil =>
    cases hrun
    simpa using h
  | cons c calls ih =>
    cases hrun
    have hrest := ih (h.step (draft.does_call c)) rfl
    rw [List.append_assoc] at hrest
    exact hrest

/-- A draft can be finished once a default lexeme was accepted. -/
lemma Records.exists_toLexicon (h : draft.Records mode log) (hne : defaultsOf log ≠ []) :
    ∃ l, draft.toLexicon = .ok l := by
  have hdefault := h.default
  cases hlexeme : draft.defaultLexeme? with
  | none =>
    rw [hlexeme] at hdefault
    exact absurd (List.map_eq_nil_iff.1 hdefault) hne
  | some lexeme =>
    simp only [toLexicon, h.fault?_eq, hlexeme]
    exact ⟨_, rfl⟩

/-- The lexeme of a definition that was accepted is where the answer said. -/
lemma Records.exists_offers (h : draft.Records mode log) {i : ℕ} {id : LexemeId} {d : Definition}
    (hentry : (addedOf log)[i]? = some (id, d)) :
    id = i + 1 ∧ ∃ items, d.Offers mode items ∧ Pattern.Item.Fit items mode ∧
      draft.patternLexemes[i]? = some (d.lexemeWith items) := by
  have hnumber := congrArg (·[i]?) h.numbers
  have hlexeme := congrArg (·[i]?) h.added
  simp only [List.getElem?_map, hentry, Option.map_some] at hnumber hlexeme
  obtain ⟨lexeme, hat, hok⟩ := Option.map_eq_some_iff.1 hlexeme.symm
  obtain ⟨items, hoffers, hnullable, rfl⟩ := Definition.exists_offers_of_toLexeme hok.symm
  obtain ⟨_, hid⟩ := List.getElem?_eq_some_iff.1 hnumber.symm
  refine ⟨?_, items, hoffers, hoffers.fit hnullable, hat⟩
  rw [← hid, List.getElem_range', Nat.one_mul, Nat.add_comm]

/-- **What is built.**  A lexicon is made of the definitions that were accepted. -/
lemma Records.madeOf {l : Lexicon} (h : draft.Records mode log) (hl : draft.toLexicon = .ok l) :
    ∃ d, defaultsOf log = [d] ∧ l.MadeOf mode d (addedOf log) := by
  obtain ⟨_, lexeme, hlexeme, rfl⟩ := exists_of_toLexicon hl
  have hdefault := h.default
  rw [hlexeme] at hdefault
  obtain ⟨d, hd, hok⟩ := List.map_eq_singleton_iff.1 hdefault
  obtain rfl := Definition.eq_lexemeWith_of_toDefault hok
  have hlength : (addedOf log).length = draft.patternLexemes.length := by
    simpa using congrArg List.length h.added
  refine ⟨d, hd, h.mode_eq, ?_, rfl, ?_, ?_⟩
  · rw [hlength]
    rfl
  · intro i id d hentry
    obtain ⟨rfl, items, hoffers, hfit, hat⟩ := h.exists_offers hentry
    exact ⟨rfl, items, hoffers, hfit, hat⟩
  · intro i other hother
    cases i with
    | zero =>
      cases hother
      exact ⟨fun _ => rfl, fun _ => rfl⟩
    | succ i =>
      -- one of the lexemes with patterns, and these have items
      have hi : i < (addedOf log).length := by
        rw [hlength]
        exact Nat.succ_lt_succ_iff.1 (List.getElem?_eq_some_iff.1 hother).1
      obtain ⟨_, items, _, hfit, hat⟩ := h.exists_offers (List.getElem?_eq_getElem hi)
      cases hother.symm.trans hat
      have hitems : items.isEmpty = false := by simpa using hfit.ne_nil
      simp [Lexeme.isDefault, Definition.lexemeWith, hitems, defaultId]

/-! ## Leaving out the calls that fail -/

/-- The calls that went well, with their answers. -/
def wentWell (log : List (Call × Answer)) : List (Call × Answer) :=
  log.filter fun entry => entry.2.isOk

/-- Without the calls that fail, the others answer the same and lead to the same draft. -/
lemma callAll_wentWell (hrun : callAll call draft calls = (answers, draft')) :
    callAll call draft ((wentWell (calls.zip answers)).map Prod.fst) =
      ((wentWell (calls.zip answers)).map Prod.snd, draft') := by
  induction calls generalizing draft answers with
  | nil =>
    cases hrun
    rfl
  | cons c calls ih =>
    cases hcall : draft.call c with
    | mk answer next =>
      rw [callAll, hcall] at hrun
      cases hrun
      have hrest := ih rfl
      cases answer with
      | error fault =>
        obtain rfl := eq_of_call_fails hcall
        simpa [wentWell, Except.isOk, Except.toBool] using hrest
      | ok number => exact callAll_cons hcall hrest

/-! ## Chained calls -/

/-- A chained call. -/
inductive Link where
  | withDefault (d : Definition)
  | withLexeme (d : Definition)
  | withLexemes (ds : List Definition)
  deriving Inhabited

/-- The draft after a chained call. -/
def link (draft : Draft) : Link → Draft
  | .withDefault d => draft.withDefault d
  | .withLexeme d => draft.withLexeme d
  | .withLexemes ds => draft.withLexemes ds

/-- The calls that report at once and are given the same definitions. -/
def callsOf : Link → List Call
  | .withDefault d => [.setDefault d]
  | .withLexeme d => [.add d]
  | .withLexemes ds => ds.map .add

/-- A chained call for one definition. -/
def linkOne (draft : Draft) : Call → Draft
  | .setDefault d => draft.withDefault d
  | .add d => draft.withLexeme d

/-- The draft with an error kept on the side. -/
def keeping (draft : Draft) (fault? : Option LexiconError) : Draft :=
  { draft with fault? }

/-- The error in an answer. -/
def faultIn? : Answer → Option LexiconError
  | .error fault => some fault
  | .ok _ => none

/-- A call does not look at an error that is kept. -/
lemma call_keeping (draft : Draft) (c : Call) (fault? : Option LexiconError) :
    (draft.keeping fault?).call c = ((draft.call c).1, (draft.call c).2.keeping fault?) := by
  cases c with
  | setDefault d =>
    cases hdefault : draft.defaultLexeme? <;> cases hlexeme : d.toDefault <;>
      simp [call, Draft.setDefault, keeping, hdefault, hlexeme]
  | add d =>
    cases hdefault : draft.defaultLexeme? <;> cases hlexeme : d.toLexeme draft.mode <;>
      simp [call, Draft.add, keeping, hdefault, hlexeme]

lemma linkOne_eq (draft : Draft) (c : Call) :
    draft.linkOne c = (draft.call c).2.keeping (draft.fault?.or (faultIn? (draft.call c).1)) := by
  cases c with
  | setDefault d =>
    cases hd : draft.setDefault d with
    | error fault => simp [linkOne, withDefault, record, call, hd, keeping, faultIn?]
    | ok draft' =>
      obtain ⟨lexeme, _, rfl⟩ := exists_of_setDefault hd
      simp [linkOne, withDefault, call, hd, keeping, faultIn?]
  | add d =>
    cases hd : draft.add d with
    | error fault => simp [linkOne, withLexeme, record, call, hd, keeping, faultIn?]
    | ok added =>
      obtain ⟨lexeme, _, hdraft⟩ := exists_of_add hd
      simp [linkOne, withLexeme, call, hd, hdraft, keeping, faultIn?]

/-- **One chained call** does what the call does that reports at once, and keeps its error if there
is none yet. -/
lemma linkOne_keeping (draft : Draft) (c : Call) (fault? : Option LexiconError) :
    (draft.keeping fault?).linkOne c =
      (draft.call c).2.keeping (fault?.or (faultIn? (draft.call c).1)) := by
  rw [linkOne_eq, call_keeping]
  rfl

lemma foldl_linkOne (fault? : Option LexiconError)
    (hrun : callAll call draft calls = (answers, draft')) :
    calls.foldl linkOne (draft.keeping fault?) =
      draft'.keeping (fault?.or (answers.findSome? faultIn?)) := by
  induction calls generalizing draft answers fault? with
  | nil =>
    cases hrun
    simp
  | cons c calls ih =>
    cases hrun
    rw [List.foldl_cons, linkOne_keeping, ih _ rfl, List.findSome?_cons, Option.or_assoc]
    cases faultIn? (draft.call c).1 <;> rfl

lemma foldl_link (draft : Draft) (links : List Link) :
    links.foldl link draft = (links.flatMap callsOf).foldl linkOne draft := by
  have hone : ∀ (draft : Draft) (chained : Link),
      draft.link chained = (callsOf chained).foldl linkOne draft := by
    intro draft chained
    cases chained with
    | withDefault d => rfl
    | withLexeme d => rfl
    | withLexemes ds =>
      show ds.foldl withLexeme draft = (ds.map Call.add).foldl linkOne draft
      rw [List.foldl_map]
      rfl
  rw [List.foldl_flatMap]
  exact congrArg (List.foldl · draft links) (funext fun draft => funext (hone draft))

/-- **Several chained calls** do the same, and keep the first error. -/
lemma foldl_link_new {links : List Link}
    (hrun : callAll call (new mode) (links.flatMap callsOf) = (answers, draft)) :
    links.foldl link (new mode) = draft.keeping (answers.findSome? faultIn?) := by
  rw [foldl_link]
  exact foldl_linkOne none hrun

/-! ## Both ways to make a lexicon -/

/-- If no call fails, the first of them sets the default lexeme. -/
lemma defaultsOf_ne_nil {numbers : List (Option LexemeId)} (hne : calls ≠ [])
    (hrun : callAll call (new mode) calls = (numbers.map .ok, draft)) :
    defaultsOf (calls.zip (numbers.map .ok)) ≠ [] := by
  cases calls with
  | nil => exact absurd rfl hne
  | cons c calls =>
    cases numbers with
    | nil => cases hrun
    | cons number numbers =>
      have hfirst : ((new mode).call c).1 = .ok number :=
        (List.cons.inj (congrArg Prod.fst hrun)).1
      have hdoes := (new mode).does_call c
      rw [hfirst] at hdoes
      generalize ((new mode).call c).2 = next at hdoes
      cases hdoes with
      | setDefault => exact List.cons_ne_nil _ _
      | add hsome => exact absurd rfl hsome

/-- **Calls to a draft.**  Let calls be made to a new draft, whatever they answer.

A call that fails leaves the draft as it was, so that without all those that fail the others answer
the same and lead to the same draft.  A lexicon that is built is made of the definitions that were
accepted.

Chained calls with the same definitions in the same order build the same lexicon if no call fails,
report the first failure otherwise, and miss the default lexeme if there was no call at all. -/
theorem callAll_builds (hrun : callAll call (new mode) calls = (answers, draft)) :
    (∀ (before after : Draft) (c : Call) (fault : LexiconError),
      before.call c = (.error fault, after) → after = before) ∧
    callAll call (new mode) ((wentWell (calls.zip answers)).map Prod.fst) =
      ((wentWell (calls.zip answers)).map Prod.snd, draft) ∧
    (∀ l, draft.toLexicon = .ok l → ∃ d, defaultsOf (calls.zip answers) = [d] ∧
      l.MadeOf mode d (addedOf (calls.zip answers))) ∧
    ∀ links : List Link, links.flatMap callsOf = calls →
      (∀ numbers : List (Option LexemeId), answers = numbers.map .ok → calls ≠ [] →
        ∃ l, draft.toLexicon = .ok l ∧ (links.foldl link (new mode)).toLexicon = .ok l) ∧
      (∀ (numbers : List (Option LexemeId)) (fault : LexiconError) (rest : List Answer),
        answers = numbers.map .ok ++ .error fault :: rest →
        (links.foldl link (new mode)).toLexicon = .error fault) ∧
      (calls = [] → (links.foldl link (new mode)).toLexicon = .error .missingDefault) := by
  have hrecords : draft.Records mode (calls.zip answers) := (records_new mode).run hrun
  refine ⟨fun _ _ _ _ => eq_of_call_fails, callAll_wentWell hrun, fun l => hrecords.madeOf, ?_⟩
  rintro links rfl
  have hno (numbers : List (Option LexemeId)) :
      (numbers.map (.ok : _ → Answer)).findSome? faultIn? = none := by
    simp [faultIn?]
  rw [foldl_link_new hrun]
  refine ⟨?_, ?_, ?_⟩
  · rintro numbers rfl hne
    obtain ⟨l, hl⟩ := hrecords.exists_toLexicon (defaultsOf_ne_nil hne hrun)
    rw [hno, keeping, ← hrecords.fault?_eq]
    exact ⟨l, hl, hl⟩
  · rintro numbers fault rest rfl
    rw [List.findSome?_append, hno]
    rfl
  · intro hnil
    rw [hnil] at hrun
    cases hrun
    rfl

def plain : Definition :=
  { kind := "plain" }

def bell : Definition :=
  { kind := "bell", pattern? := some (.literal "##") }

def knock : Definition :=
  { kind := "knock", pattern? := some (.sequence [.element { symbol := "text", inverted := true }]) }

/-- It asks for an empty symbol two groups deep. -/
def hollow : Definition :=
  { kind := "hollow"
    pattern? := some (.alternation
      [[.element { symbol := "#" }], [.group [[.element { symbol := "" }]]]]) }

/-- Calls of which every other one fails. -/
def interrupted : List Call :=
  [.add bell, .setDefault plain, .add hollow, .add bell, .setDefault knock, .add knock]

theorem callAll_builds_interrupted :
    ∃ (draft : Draft) (l : Lexicon),
      callAll call (new .character) interrupted =
        ([.error (.lexemeBeforeDefault "bell"), .ok none, .error (.emptySymbol "hollow"), .ok (some 1),
          .error (.duplicateDefault "plain"), .ok (some 2)], draft) ∧
      callAll call (new .character) [.setDefault plain, .add bell, .add knock] =
        ([.ok none, .ok (some 1), .ok (some 2)], draft) ∧
      draft.toLexicon = .ok l ∧ l.MadeOf .character plain [(1, bell), (2, knock)] ∧
      ([.withLexeme bell, .withDefault plain, .withLexemes [hollow, bell], .withDefault knock,
        .withLexeme knock].foldl link (new .character)).toLexicon =
        .error (.lexemeBeforeDefault "bell") ∧
      ([.withDefault plain, .withLexemes [bell, knock]].foldl link (new .character)).toLexicon =
        .ok l := by
  have hrun : callAll call (new .character) interrupted =
      ([.error (.lexemeBeforeDefault "bell"), .ok none, .error (.emptySymbol "hollow"), .ok (some 1),
        .error (.duplicateDefault "plain"), .ok (some 2)],
        (callAll call (new .character) interrupted).2) := rfl
  obtain ⟨_, hwell, hmade, hchained⟩ := callAll_builds hrun
  obtain ⟨-, -, -, hclean⟩ := callAll_builds hwell
  obtain ⟨hbuilt, -, -⟩ := hclean [.withDefault plain, .withLexemes [bell, knock]] rfl
  obtain ⟨l, hl, hlinks⟩ := hbuilt [none, some 1, some 2] rfl (List.cons_ne_nil _ _)
  obtain ⟨_, hdefaults, hl'⟩ := hmade l hl
  cases hdefaults
  obtain ⟨-, hfirst, -⟩ := hchained [.withLexeme bell, .withDefault plain,
    .withLexemes [hollow, bell], .withDefault knock, .withLexeme knock] rfl
  exact ⟨_, l, hrun, hwell, hl, hl', hfirst [] _ _ rfl, hlinks⟩

end Draft

end Lexing
