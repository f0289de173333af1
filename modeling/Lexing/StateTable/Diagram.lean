import Lexing.StateTable
import Lexing.Text.Quoted

/-!
# Diagrams of state tables

A state table as a directed graph in the DOT language: one line for each state, one for each
transition. Labels are quoted, so each stays on its line whatever tags and kinds contain.
-/

namespace Lexing

open Text (quote)

/-- The tags of a criterion, as a label shows them. -/
def Criterion.label : Criterion → String
  | exact tag => tag
  | oneOf [] => "eos"
  | oneOf tags => "[" ++ " ".intercalate tags ++ "]"
  | excluding [] => "*"
  | excluding tags => "[^" ++ " ".intercalate tags ++ "]"

namespace StateTable

/-- The kind of lexeme that an accept action names. -/
def kindOf (t : StateTable) (accept : Accept) : Tag :=
  (t.lexeme? accept.lexeme).elim "?" (·.kind)

/-- What the accept action adds to the label of a transition: the kind of the lexeme, with `~`
after it if the match is a partial one. -/
def acceptLabel (t : StateTable) : Option Accept → String
  | none => ""
  | some (.fullMatch id) => s!" / {t.kindOf (.fullMatch id)}"
  | some (.partialMatch id) => s!" / {t.kindOf (.partialMatch id)}~"

def transitionLabel (t : StateTable) (tr : Transition) : String :=
  tr.criterion.label ++ t.acceptLabel tr.accept? ++ if tr.replay then " (replay)" else ""

/-- The shape of the node drawn for a state. -/
def shapeOf (state : State) : String :=
  if state.isInitial then "doublecircle"
  else if state.isReset then "box"
  else "circle"

/-- The line of state number `i`. -/
def stateLine (i : StateId) (state : State) : String :=
  s!"  s{i} [label={quote state.name}, shape={shapeOf state}];"

/-- The line of a transition out of state number `i`. -/
def transitionLine (t : StateTable) (i : StateId) (tr : Transition) : String :=
  let style := if tr.kind = .catchAll then ", style=dashed" else ""
  s!"  s{i} -> s{tr.target} [label={quote (t.transitionLabel tr)}{style}];"

/-- The lines of the drawing. -/
def diagramLines (t : StateTable) : List String :=
  let states := t.states.toList.zipIdx
  ["digraph StateTable \x7b", "  rankdir=LR;", "  node [shape=circle];", ""]
    ++ states.map (fun (state, i) => stateLine i state)
    ++ [""]
    ++ states.flatMap (fun (state, i) => state.transitions.map (t.transitionLine i))
    ++ ["\x7d"]

/-- The drawing as a text in which every line is ended. -/
def toDot (t : StateTable) : String :=
  String.join (t.diagramLines.map (· ++ "\n"))

end StateTable

end Lexing
