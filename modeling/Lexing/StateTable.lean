import Lexing.Lexicon
import Lexing.TagSet

/-!
# State tables

A state table is what a lexicon is compiled to and what an automaton runs on. Each state lists its
transitions: a loop, ways on to other states, and at the end one that catches all the rest. A
transition may carry an accept action, which turns the match so far into a token, and may ask for
the symbol to be presented once more.
-/

namespace Lexing

/-- The number of a state. -/
abbrev StateId := Nat

/-- Which lexeme a match is handed to, and whether its pattern was matched to the end. -/
inductive Accept where
  | fullMatch (lexeme : LexemeId)
  | partialMatch (lexeme : LexemeId)
  deriving DecidableEq, Inhabited, Repr

inductive TransitionKind where
  /-- Stays in a state whose step may be repeated. -/
  | loop
  /-- Goes on to a child of the node behind the state. -/
  | child
  /-- Taken on every tag that no other transition takes, and at the end of the stream. -/
  | catchAll
  deriving DecidableEq, Inhabited, Repr

/-- A way out of a state. -/
structure Transition where
  kind : TransitionKind
  criterion : Criterion
  target : StateId
  accept? : Option Accept
  /-- The symbol is not consumed and must be presented again. -/
  replay : Bool
  deriving DecidableEq, Inhabited, Repr

/-- A state of a compiled lexicon. -/
structure State where
  name : String
  isInitial : Bool
  isReset : Bool
  transitions : List Transition
  deriving DecidableEq, Inhabited, Repr

/-- The states by number, and the lexicon to which the accept actions refer. -/
structure StateTable where
  states : Array State
  initial : StateId
  terminal : StateId
  lexicon : Lexicon
  deriving Inhabited

/-! ## Looking things up -/

/-- The lexeme that an accept action names. -/
def Accept.lexeme : Accept → LexemeId
  | fullMatch lexeme => lexeme
  | partialMatch lexeme => lexeme

/-- Whether the transition can be taken on a symbol. The end of the stream has no tag to look at
and is left to the catch-all transition. -/
def Transition.accepts (t : Transition) (s : Symbol) : Bool :=
  if s.isEndOfStream then t.kind = .catchAll else t.criterion.accepts s.tag

namespace State

/-- The transition taken on a symbol: the first that can be. -/
def transition? (state : State) (s : Symbol) : Option Transition :=
  state.transitions.find? (·.accepts s)

/-- All transitions that could be taken on a symbol. -/
def matching (state : State) (s : Symbol) : List Transition :=
  state.transitions.filter (·.accepts s)

end State

namespace StateTable

def mode (t : StateTable) : Mode :=
  t.lexicon.mode

def size (t : StateTable) : Nat :=
  t.states.size

def state? (t : StateTable) (id : StateId) : Option State :=
  t.states[id]?

/-- The number of the state with a given name. -/
def findState? (t : StateTable) (name : String) : Option StateId :=
  t.states.findIdx? (·.name == name)

def lexeme? (t : StateTable) (id : LexemeId) : Option Lexeme :=
  t.lexicon.lexeme? id

def transitionCount (t : StateTable) : Nat :=
  (t.states.toList.flatMap (·.transitions)).length

/-- Whether two tables have the same states. What the lexemes make of a match is not compared. -/
def sameStates (t u : StateTable) : Bool :=
  t.initial == u.initial && t.terminal == u.terminal && t.states == u.states

end StateTable

end Lexing
