import Lexing.Error
import Lexing.StateTable

/-!
# Automata

An automaton runs on a state table, one symbol at a time. It remembers its state and the history
of the match in progress. A step takes the one transition that matches the symbol and says what
became of the symbol:

* it was consumed and the match goes on;
* a token was emitted and the automaton is back at its start, the symbol being spent;
* the match was resolved without the symbol, which has to be presented again.

The sentinel that ends a stream is never presented again, since nothing comes after it.
-/

namespace Lexing

/-- What became of the symbol of a step. -/
inductive Signal where
  /-- Consumed; the match goes on. -/
  | goOn
  /-- Spent; the automaton is back at its start. -/
  | reset
  /-- Not consumed; it must be presented again. -/
  | replay
  deriving DecidableEq, Inhabited, Repr

/-- A state table with a current state and a match in progress. -/
structure Automaton where
  table : StateTable
  current : StateId
  history : History := {}
  deriving Inhabited

/-- What one step brought about. -/
structure Step where
  token? : Option Token
  signal : Signal
  /-- The automaton after the step. -/
  automaton : Automaton
  deriving Inhabited

/-! ## Tokens of matches -/

namespace StateTable

/-- The attribute that an accept action applies to a match. -/
def attributeOf (accept : Accept) (lexeme : Lexeme) : Attribute :=
  match accept with
  | .fullMatch _ => lexeme.fullMatch
  | .partialMatch _ => lexeme.partialMatch

/-- The token that an accept action makes of a match. Its value is that of the attribute, with the
last symbol of the match as input; its position is that of the first. -/
def emit (t : StateTable) (accept : Accept) (state : String) (history : History) :
    Except AutomatonError Token :=
  match t.lexeme? accept.lexeme with
  | none => .error (.unknownLexeme accept.lexeme)
  | some lexeme =>
    match history.first?, history.last? with
    | some first, some last =>
      .ok
        { kind := lexeme.kind
          value := (attributeOf accept lexeme).evaluate history last.symbol
          position := first.symbol.position }
    | _, _ => .error (.emptyMatch state)

end StateTable

/-! ## Steps -/

namespace Automaton

/-- An automaton at its start. -/
def new (table : StateTable) : Automaton :=
  { table, current := table.initial }

/-- Back to the start, without the match in progress. -/
def reset (a : Automaton) : Automaton :=
  new a.table

/-- Whether no match is in progress. -/
def isIdle (a : Automaton) : Bool :=
  a.current == a.table.initial && a.history.isEmpty

/-- The automaton after it has consumed a symbol in a state named `state`. -/
def consume (a : Automaton) (state : String) (s : Symbol) (target : StateId) : Automaton :=
  { a with current := target, history := a.history.push state s }

/-- Takes a transition on a symbol. -/
def follow (a : Automaton) (state : String) (t : Transition) (s : Symbol) :
    Except AutomatonError Step :=
  match t.accept?, t.replay with
  | none, false => .ok { token? := none, signal := .goOn, automaton := a.consume state s t.target }
  | none, true => .ok { token? := none, signal := .replay, automaton := a.reset }
  | some accept, false =>
    match a.table.emit accept state (a.history.push state s) with
    | .error fault => .error fault
    | .ok token => .ok { token? := some token, signal := .reset, automaton := a.reset }
  | some accept, true =>
    match a.table.emit accept state a.history with
    | .error fault => .error fault
    | .ok token =>
      .ok
        { token? := some token
          signal := if s.isEndOfStream then .reset else .replay
          automaton := a.reset }

/-- Presents one symbol. At the start the sentinel does nothing. -/
def step (a : Automaton) (s : Symbol) : Except AutomatonError Step :=
  match a.table.state? a.current with
  | none => .error (.unknownState a.current)
  | some state =>
    if s.isEndOfStream && state.isInitial then
      .ok { token? := none, signal := .goOn, automaton := a }
    else
      match state.transition? s with
      | none => .error (.noTransition state.name s.tag)
      | some t =>
        match a.table.state? t.target with
        | none => .error (.unknownState t.target)
        | some _ => a.follow state.name t s

/-! ## Runs -/

/-- Presents one symbol until it is spent. A step that asks for the symbol again has put the
automaton back to its start, where the symbol either begins a match or is a token by itself, so
once more is enough. -/
def drive (a : Automaton) (s : Symbol) : Except AutomatonError (List Token × Automaton) :=
  match a.step s with
  | .error fault => .error fault
  | .ok first =>
    match first.signal with
    | .replay =>
      match first.automaton.step s with
      | .error fault => .error fault
      | .ok second => .ok (first.token?.toList ++ second.token?.toList, second.automaton)
    | _ => .ok (first.token?.toList, first.automaton)

/-- Drives several symbols in order. -/
def driveAll (a : Automaton) : List Symbol → Except AutomatonError (List Token × Automaton)
  | [] => .ok ([], a)
  | s :: ss =>
    match a.drive s with
    | .error fault => .error fault
    | .ok (tokens, a) =>
      match driveAll a ss with
      | .error fault => .error fault
      | .ok (more, a) => .ok (tokens ++ more, a)

end Automaton

end Lexing
