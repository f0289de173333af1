import Lexing.StateTable
import Lexing.Trie

/-!
# Compiling lexicons

The trie of a lexicon is flattened into a state table. A node from which a match can go on becomes
a state, in the order of the nodes; a leaf does not, since the match ends as soon as it is reached.
One more state, to which every finished match goes, comes last.

The edges of a trie may overlap. The transitions of a state do not: they are laid down in a fixed
order, first the loop, then the children, and each is given only the tags that none before it has
taken. One that is left with nothing is dropped. The catch-all transition gets what remains, so
for every tag there is exactly one transition.
-/

namespace Lexing.StateTable

/-! ## Numbering -/

/-- The nodes that become states, in order. -/
def liveNodes (t : Trie) : List NodeId :=
  (List.range t.size).filter fun id => id == Trie.rootId || !t.isLeaf id

/-- The state to which a step to a node leads. For a leaf this is the reset state, which comes
right after all the others. -/
def stateOf (live : List NodeId) (id : NodeId) : StateId :=
  live.idxOf id

/-! ## Accept actions -/

/-- The lexeme whose partial-match attribute resolves a match that stalls at a node: the owner of
the node if it has one, else the default lexeme. -/
def partialOwner (l : Lexicon) (node : Node) : LexemeId :=
  if (l.lexeme? node.owner).any (·.partialMatch?.isSome) then node.owner else defaultId

/-- What a match that ends at a node is handed to. -/
def acceptAt (l : Lexicon) (node : Node) : Accept :=
  match node.fullMatch? with
  | some lexeme => .fullMatch lexeme
  | none => .partialMatch (partialOwner l node)

/-! ## Transitions -/

/-- A way out of a node, before it is limited to what no earlier one takes. -/
structure Exit where
  kind : TransitionKind
  edge : Edge
  target : StateId
  accept? : Option Accept
  deriving DecidableEq, Inhabited, Repr

/-- The way back to the same node, if its step may be repeated. -/
def loopExit (live : List NodeId) (id : NodeId) (node : Node) : List Exit :=
  match node.link? with
  | some link =>
    if node.repeats then
      [{ kind := .loop, edge := link.edge, target := stateOf live id, accept? := none }]
    else []
  | none => []

/-- The way to a child. A match that reaches a leaf is accepted there and then. -/
def childExit (t : Trie) (l : Lexicon) (live : List NodeId) (id : NodeId) : Option Exit := do
  let node ← t.node? id
  let link ← node.link?
  return {
    kind := .child
    edge := link.edge
    target := stateOf live id
    accept? := if id ∈ live then none else some (acceptAt l node) }

/-- All ways out of a node, in the order in which they are tried. -/
def exits (t : Trie) (l : Lexicon) (live : List NodeId) (id : NodeId) (node : Node) :
    List Exit :=
  loopExit live id node ++ (t.children id).filterMap (childExit t l live)

/-- Limits each exit to the tags that are not in `covered` and that no earlier exit has. The second
result is the set of all tags that are taken then. -/
def narrow (covered : TagSet) : List Exit → List Transition × TagSet
  | [] => ([], covered)
  | exit :: rest =>
    let own := exit.edge.tagSet
    let left := own.minus covered
    if left.isEmpty then
      narrow covered rest
    else
      let (transitions, covered) := narrow (covered.union own) rest
      let transition : Transition :=
        { kind := exit.kind
          criterion := left.toCriterion
          target := exit.target
          accept? := exit.accept?
          replay := false }
      (transition :: transitions, covered)

/-- The last transition of a state, for the tags that no other takes. At the root the symbol
itself becomes a token of the default lexeme; elsewhere the match ends before the symbol. -/
def catchAll (l : Lexicon) (live : List NodeId) (id : NodeId) (node : Node) (covered : TagSet) :
    Transition :=
  { kind := .catchAll
    criterion := covered.complement.toCriterion
    target := live.length
    accept? := some (if id = Trie.rootId then .fullMatch defaultId else acceptAt l node)
    replay := id != Trie.rootId }

/-- The transitions of the state of a node. -/
def transitionsAt (t : Trie) (l : Lexicon) (live : List NodeId) (id : NodeId) (node : Node) :
    List Transition :=
  let (transitions, covered) := narrow .empty (exits t l live id node)
  transitions ++ [catchAll l live id node covered]

/-! ## States -/

/-- The state of a node. -/
def stateAt (t : Trie) (l : Lexicon) (live : List NodeId) (id : NodeId) : Option State :=
  (t.node? id).map fun node =>
    { name := node.name
      isInitial := id == Trie.rootId
      isReset := false
      transitions := transitionsAt t l live id node }

/-- The state to which finished matches go. Whatever comes, it leads back to the start. -/
def resetState : State :=
  { name := Trie.resetName
    isInitial := false
    isReset := true
    transitions :=
      [{ kind := .catchAll
         criterion := .excluding []
         target := 0
         accept? := none
         replay := true }] }

/-- Flattens a trie of the patterns of a lexicon. -/
def ofTrie (t : Trie) (l : Lexicon) : StateTable :=
  let live := liveNodes t
  { states := (live.filterMap (stateAt t l live) ++ [resetState]).toArray
    initial := 0
    terminal := live.length
    lexicon := l }

end StateTable

/-- The state table of a lexicon. -/
def Lexicon.compile (l : Lexicon) : StateTable :=
  .ofTrie (.ofLexicon l) l

end Lexing
