import Lexing.Proofs.Passages

/-!
# Values do not matter

What a symbol carries and what an attribute computes have no say in where a match goes, when it ends
and which lexeme gets it.  To say so, everything is made *hollow*: symbols and tokens lose their
values, and lexemes their attributes.  Only whether a lexeme resolves partial matches is kept, for
this decides who resolves them.

Hollow things are things of the same kind, so the compiler and the automata run on them as on
others.  Making things hollow before a step or after it is the same (`Automaton.step_hollow`), so it
is the same before a run or after it (`Automaton.driveAll_hollow`), and a lexicon made hollow is
compiled to the same states (`Lexicon.compile_hollow`).  Whatever is alike when hollow thus runs
alike.

What a run goes through is told by its passages, and these too are the same
(`Automaton.driveAll_alike`).
-/

namespace Lexing

/-! ## Hollow things -/

/-- The symbol without its value. -/
def Symbol.hollow (s : Symbol) : Symbol :=
  { s with value := .absent }

/-- The token without its value. -/
def Token.hollow (t : Token) : Token :=
  { t with value := .absent }

def Visit.hollow (v : Visit) : Visit :=
  { v with symbol := v.symbol.hollow }

def History.hollow (h : History) : History :=
  { visits := h.visits.map Visit.hollow }

/-- The lexeme without what its attributes compute. -/
def Lexeme.hollow (lexeme : Lexeme) : Lexeme :=
  { lexeme with
    fullMatch := .constant .absent
    partialMatch? := lexeme.partialMatch?.map fun _ => .constant .absent }

def Lexicon.hollow (l : Lexicon) : Lexicon :=
  { l with
    defaultLexeme := l.defaultLexeme.hollow
    patternLexemes := l.patternLexemes.map Lexeme.hollow }

def StateTable.hollow (t : StateTable) : StateTable :=
  { t with lexicon := t.lexicon.hollow }

def Automaton.hollow (a : Automaton) : Automaton :=
  { a with table := a.table.hollow, history := a.history.hollow }

def Step.hollow (r : Step) : Step :=
  { r with token? := r.token?.map Token.hollow, automaton := r.automaton.hollow }

def Passage.hollow (p : Passage) : Passage :=
  { p with made? := p.made?.map fun made => (made.1.map Symbol.hollow, made.2.hollow) }

/-! ## Compiling -/

section Compile

open StateTable

lemma Lexicon.lexeme?_hollow (l : Lexicon) (id : LexemeId) :
    l.hollow.lexeme? id = (l.lexeme? id).map Lexeme.hollow := by
  have hlexemes : l.hollow.lexemes = l.lexemes.map Lexeme.hollow := rfl
  rw [lexeme?, hlexemes, List.getElem?_map, lexeme?]

lemma Trie.insertAll_hollow (t : Trie) (id : LexemeId) (lexemes : List Lexeme) :
    t.insertAll id (lexemes.map Lexeme.hollow) = t.insertAll id lexemes := by
  induction lexemes generalizing t id with
  | nil => rfl
  | cons lexeme lexemes ih => exact ih (t.insert id lexeme.items) (id + 1)

/-- The trie is one of patterns. -/
lemma Trie.ofLexicon_hollow (l : Lexicon) : ofLexicon l.hollow = ofLexicon l :=
  insertAll_hollow _ _ _

lemma partialOwner_hollow (l : Lexicon) (node : Node) :
    partialOwner l.hollow node = partialOwner l node := by
  rw [partialOwner, partialOwner, l.lexeme?_hollow]
  cases l.lexeme? node.owner with
  | none => rfl
  | some lexeme => simp [Lexeme.hollow]

lemma acceptAt_hollow (l : Lexicon) : acceptAt l.hollow = acceptAt l := by
  funext node
  simp only [acceptAt, partialOwner_hollow]

lemma stateAt_hollow (t : Trie) (l : Lexicon) (live : List NodeId) :
    stateAt t l.hollow live = stateAt t l live := by
  have hchild : childExit t l.hollow live = childExit t l live := by
    funext id
    simp only [childExit, acceptAt_hollow]
  funext id
  simp only [stateAt, transitionsAt, exits, catchAll, hchild, acceptAt_hollow]

/-- A lexicon is compiled to the same states whatever its attributes compute. -/
lemma Lexicon.compile_hollow (l : Lexicon) : l.hollow.compile = l.compile.hollow := by
  rw [compile, compile, Trie.ofLexicon_hollow, ofTrie, stateAt_hollow]
  rfl

end Compile

/-! ## Steps -/

namespace History

lemma hollow_push (h : History) (state : String) (s : Symbol) :
    (h.push state s).hollow = h.hollow.push state s.hollow := by
  simp [hollow, push, Visit.hollow]

lemma symbols_hollow (h : History) : h.hollow.symbols = h.symbols.map Symbol.hollow := by
  simp [hollow, symbols, Visit.hollow]

lemma first?_hollow (h : History) : h.hollow.first? = h.first?.map Visit.hollow := by
  simp [hollow, first?]

lemma last?_hollow (h : History) : h.hollow.last? = h.last?.map Visit.hollow := by
  simp [hollow, last?]

end History

/-- Hollow lexemes make no values of hollow symbols. -/
lemma evaluate_hollow (accept : Accept) (lexeme : Lexeme) (h : History) (s : Symbol) :
    (StateTable.attributeOf accept lexeme.hollow).evaluate h s.hollow = .absent := by
  cases accept with
  | fullMatch _ => rfl
  | partialMatch _ =>
    cases hpartial : lexeme.partialMatch? <;>
      simp [StateTable.attributeOf, Lexeme.partialMatch, Lexeme.hollow, hpartial,
        Attribute.evaluate, Symbol.hollow]

/-- The kind of a token and its position do not depend on values. -/
lemma StateTable.emit_hollow (t : StateTable) (accept : Accept) (state : String) (h : History) :
    t.hollow.emit accept state h.hollow = (t.emit accept state h).map Token.hollow := by
  have hlexeme : t.hollow.lexeme? accept.lexeme = (t.lexeme? accept.lexeme).map Lexeme.hollow :=
    t.lexicon.lexeme?_hollow accept.lexeme
  rw [emit, emit, hlexeme, h.first?_hollow, h.last?_hollow]
  cases t.lexeme? accept.lexeme with
  | none => rfl
  | some lexeme =>
    cases h.first? with
    | none => rfl
    | some first =>
      cases h.last? with
      | none => rfl
      | some last =>
        simp only [Option.map_some, Visit.hollow, evaluate_hollow]
        rfl

namespace Automaton

lemma hollow_new (table : StateTable) : (new table).hollow = new table.hollow := rfl

lemma hollow_consume (a : Automaton) (state : String) (s : Symbol) (target : StateId) :
    (a.consume state s target).hollow = a.hollow.consume state s.hollow target := by
  simp only [consume, hollow, History.hollow_push]

lemma follow_hollow (a : Automaton) (state : String) (t : Transition) (s : Symbol) :
    a.hollow.follow state t s.hollow = (a.follow state t s).map Step.hollow := by
  have hown := a.table.emit_hollow
  unfold follow
  cases haccept : t.accept? with
  | none =>
    cases t.replay with
    | false => simp [Except.map, Step.hollow, hollow_consume]
    | true => rfl
  | some accept =>
    cases t.replay with
    | false =>
      have hemit := hown accept state (a.history.push state s)
      rw [History.hollow_push] at hemit
      simp only [hollow] at hemit ⊢
      rw [hemit]
      cases a.table.emit accept state (a.history.push state s) <;> rfl
    | true =>
      have hemit := hown accept state a.history
      simp only [hollow] at hemit ⊢
      rw [hemit]
      cases a.table.emit accept state a.history <;> rfl

/-- **One step.** -/
lemma step_hollow (a : Automaton) (s : Symbol) :
    a.hollow.step s.hollow = (a.step s).map Step.hollow := by
  have hstate : a.hollow.table.state? = a.table.state? := rfl
  have hcurrent : a.hollow.current = a.current := rfl
  have hend : s.hollow.isEndOfStream = s.isEndOfStream := rfl
  have htr : ∀ state : State, state.transition? s.hollow = state.transition? s := fun _ => rfl
  unfold step
  rw [hstate, hcurrent, hend]
  cases a.table.state? a.current with
  | none => rfl
  | some state =>
    simp only [htr]
    split
    · rfl
    · cases state.transition? s with
      | none => rfl
      | some t =>
        simp only
        cases a.table.state? t.target with
        | none => rfl
        | some _ => exact a.follow_hollow state.name t s

/-- The result of a run, hollow. -/
def hollowRun (r : List Token × Automaton) : List Token × Automaton :=
  (r.1.map Token.hollow, r.2.hollow)

lemma drive_hollow (a : Automaton) (s : Symbol) :
    a.hollow.drive s.hollow = (a.drive s).map hollowRun := by
  rw [drive, drive, step_hollow]
  cases a.step s with
  | error fault => rfl
  | ok first =>
    simp only [Except.map, Step.hollow]
    cases first.signal with
    | goOn => cases first.token? <;> rfl
    | reset => cases first.token? <;> rfl
    | replay =>
      simp only [step_hollow]
      cases first.automaton.step s with
      | error fault => rfl
      | ok second =>
        cases first.token? <;> cases hsecond : second.token? <;>
          simp [Except.map, Step.hollow, hollowRun, hsecond]

/-- **A run.** -/
lemma driveAll_hollow (a : Automaton) (ss : List Symbol) :
    a.hollow.driveAll (ss.map Symbol.hollow) = (a.driveAll ss).map hollowRun := by
  induction ss generalizing a with
  | nil => rfl
  | cons s ss ih =>
    rw [List.map_cons, driveAll, driveAll, drive_hollow]
    cases a.drive s with
    | error fault => rfl
    | ok r =>
      simp only [Except.map, hollowRun, ih]
      cases r.2.driveAll ss with
      | error fault => rfl
      | ok rest => simp

end Automaton

/-! ## Passages -/

namespace Automaton

lemma blockAt_hollow (a : Automaton) (s : Symbol) (signal : Signal) :
    a.hollow.blockAt s.hollow signal = (a.blockAt s signal).map Symbol.hollow := by
  have hsymbols : a.hollow.history.symbols = a.history.symbols.map Symbol.hollow :=
    a.history.symbols_hollow
  have hend : s.hollow.isEndOfStream = s.isEndOfStream := rfl
  rw [blockAt, blockAt, hsymbols, hend]
  split <;> simp

lemma isIdle_hollow (a : Automaton) : a.hollow.isIdle = a.isIdle := by
  have hempty : a.hollow.history.isEmpty = a.history.isEmpty := by
    simp [hollow, History.hollow, History.isEmpty]
  rw [isIdle, isIdle, hempty]
  rfl

lemma passage?_hollow (a : Automaton) (s : Symbol) (r : Step) :
    a.hollow.passage? s.hollow r.hollow = (a.passage? s r).map Passage.hollow := by
  have hend : s.hollow.isEndOfStream = s.isEndOfStream := rfl
  rw [passage?, passage?, isIdle_hollow, hend]
  split
  · rfl
  · have hcurrent : a.hollow.current = a.current := rfl
    have hnext : r.automaton.hollow.current = r.automaton.current := rfl
    cases htoken : r.token? <;>
      simp [Step.hollow, Passage.hollow, blockAt_hollow, htoken, hcurrent, hnext]

lemma passages_hollow (a : Automaton) (s : Symbol) :
    a.hollow.passages s.hollow = (a.passages s).map Passage.hollow := by
  rw [passages, passages, step_hollow]
  cases a.step s with
  | error fault => rfl
  | ok first =>
    have hfirst := a.passage?_hollow s first
    have hsignal : first.hollow.signal = first.signal := rfl
    simp only [Except.map, hsignal]
    cases first.signal with
    | goOn => simp [hfirst, Option.toList_map]
    | reset => simp [hfirst, Option.toList_map]
    | replay =>
      have hstep : first.hollow.automaton.step s.hollow =
          (first.automaton.step s).map Step.hollow := first.automaton.step_hollow s
      simp only [hstep]
      cases first.automaton.step s with
      | error fault => simp [Except.map, hfirst, Option.toList_map]
      | ok second =>
        have hsecond : first.hollow.automaton.passage? s.hollow second.hollow = _ :=
          first.automaton.passage?_hollow s second
        simp [Except.map, hfirst, hsecond, Option.toList_map]

lemma passagesAll_hollow (a : Automaton) (ss : List Symbol) :
    a.hollow.passagesAll (ss.map Symbol.hollow) = (a.passagesAll ss).map Passage.hollow := by
  induction ss generalizing a with
  | nil => rfl
  | cons s ss ih =>
    rw [List.map_cons, passagesAll, passagesAll, drive_hollow, passages_hollow]
    cases a.drive s with
    | error fault => rfl
    | ok r => simp [Except.map, hollowRun, ih]

/-! ## Alike runs -/

section Alike

variable {a a' b b' : Automaton} {s : Symbol} {ss ss' : List Symbol} {tokens tokens' : List Token}

/-- **Values do not matter.**  Automata that are alike when hollow go through the same states with
the same signals, and make tokens of the same kinds and positions of the same blocks, if they are
given symbols with the same tags and positions. -/
theorem driveAll_alike (hab : a.hollow = b.hollow)
    (hss : ss.map Symbol.hollow = ss'.map Symbol.hollow) (ha : a.driveAll ss = .ok (tokens, a'))
    (hb : b.driveAll ss' = .ok (tokens', b')) :
    tokens.map Token.hollow = tokens'.map Token.hollow ∧ a'.hollow = b'.hollow ∧
      (a.passagesAll ss).map Passage.hollow = (b.passagesAll ss').map Passage.hollow := by
  have hrun := a.driveAll_hollow ss
  rw [hab, hss, b.driveAll_hollow, ha, hb] at hrun
  obtain ⟨htokens, hlast⟩ := Prod.mk.inj (Except.ok.inj hrun)
  refine ⟨htokens.symm, hlast.symm, ?_⟩
  rw [← passagesAll_hollow, ← passagesAll_hollow, hab, hss]

lemma flush_alike (hab : a.hollow = b.hollow) (ha : a.drive .endOfStream = .ok (tokens, a'))
    (hb : b.drive .endOfStream = .ok (tokens', b')) :
    tokens.map Token.hollow = tokens'.map Token.hollow ∧ a'.hollow = b'.hollow ∧
      (a.passages .endOfStream).map Passage.hollow =
        (b.passages .endOfStream).map Passage.hollow := by
  have hrun := a.drive_hollow .endOfStream
  rw [hab, b.drive_hollow, ha, hb] at hrun
  obtain ⟨htokens, hlast⟩ := Prod.mk.inj (Except.ok.inj hrun)
  refine ⟨htokens.symm, hlast.symm, ?_⟩
  rw [← passages_hollow, ← passages_hollow, hab]

end Alike

end Automaton

end Lexing
