import Lexing.Lexicon
import Lexing.Text.Fresh
import Lexing.Trie.Branch

/-!
# Tries of patterns

All patterns of a lexicon are merged into one trie, in which patterns that start alike share the
nodes of their common start. A node is reached from its parent along an edge; siblings have
different edges. It remembers which lexeme came here first, which lexeme, if any, ends here, and
whether the last step may be repeated.

Nodes are numbered in the order in which they were made, the root being number 0. A node names
its parent, so the children of a node are the nodes that name it, in the order in which they were
made.
-/

namespace Lexing

/-- The number of a node. -/
abbrev NodeId := Nat

/-- How a node is reached. -/
structure Link where
  parent : NodeId
  edge : Edge
  deriving DecidableEq, Inhabited, Repr

/-- A node of a trie. -/
structure Node where
  /-- How the node is reached; the root is not reached from anywhere. -/
  link? : Option Link
  /-- A name that no other node of the trie has. -/
  name : String
  /-- The step to this node may be taken again and again. -/
  repeats : Bool := false
  /-- The lexeme for which the node was made. -/
  owner : LexemeId
  /-- The last lexeme registered that can end here. -/
  fullMatch? : Option LexemeId := none
  deriving DecidableEq, Inhabited, Repr

/-- The nodes by number. -/
structure Trie where
  nodes : Array Node
  deriving DecidableEq, Inhabited, Repr

namespace Trie

/-- The name of the root, and of the state in which every match begins. -/
def rootName : String := "<root>"

/-- The name of the state to which finished matches go. No node may have it. -/
def resetName : String := "<reset>"

def rootId : NodeId := 0

/-- The trie without patterns, whose root belongs to the lexeme `owner`. -/
def new (owner : LexemeId) : Trie :=
  { nodes := #[{ link? := none, name := rootName, owner }] }

def size (t : Trie) : Nat :=
  t.nodes.size

def node? (t : Trie) (id : NodeId) : Option Node :=
  t.nodes[id]?

/-- The child of `parent` along `edge`. -/
def child? (t : Trie) (parent : NodeId) (edge : Edge) : Option NodeId :=
  t.nodes.findIdx? fun node => node.link? = some { parent, edge }

/-- The children of a node, in the order in which they were made. -/
def children (t : Trie) (parent : NodeId) : List NodeId :=
  (List.range t.size).filter fun id =>
    (t.nodes[id]?.bind (·.link?)).any (·.parent == parent)

/-- Whether a match that reaches the node cannot go on from there. -/
def isLeaf (t : Trie) (id : NodeId) : Bool :=
  (t.children id).isEmpty && !(t.nodes[id]?.any (·.repeats))

/-! ## Insertion -/

/-- The names that a new node must not have. -/
def takenNames (t : Trie) : List String :=
  resetName :: t.nodes.toList.map (·.name)

/-- The name of a new child: the names of the edges that lead to it, made fresh. -/
def childName (t : Trie) (parent : NodeId) (edge : Edge) : String :=
  let base :=
    if parent = rootId then edge.label
    else (t.nodes[parent]?.elim "" (·.name)) ++ "/" ++ edge.label
  Text.freshName base t.takenNames

/-- The child of `parent` along `edge`, made for `owner` if there is none yet. -/
def findOrAddChild (t : Trie) (owner : LexemeId) (parent : NodeId) (edge : Edge) :
    NodeId × Trie :=
  match t.child? parent edge with
  | some id => (id, t)
  | none =>
    let node : Node := { link? := some { parent, edge }, name := t.childName parent edge, owner }
    (t.size, { nodes := t.nodes.push node })

/-- Marks a node as a repeat point. -/
def markRepeat (t : Trie) (id : NodeId) : Trie :=
  { nodes := t.nodes.modify id fun node => { node with repeats := true } }

/-- Takes one step of a branch. -/
def takeStep (t : Trie) (owner : LexemeId) (parent : NodeId) (step : BranchStep) :
    NodeId × Trie :=
  let (id, t) := t.findOrAddChild owner parent step.edge
  (id, if step.repeats then t.markRepeat id else t)

/-- Walks along the steps of a branch and says where it ends. -/
def walk (t : Trie) (owner : LexemeId) (start : NodeId) : List BranchStep → NodeId × Trie
  | [] => (start, t)
  | step :: steps =>
    let (id, t) := t.takeStep owner start step
    walk t owner id steps

/-- Lets a lexeme end at a node. The lexeme registered last wins, and nothing ends at the root. -/
def complete (t : Trie) (owner : LexemeId) (id : NodeId) : Trie :=
  if id = rootId then t
  else { nodes := t.nodes.modify id fun node => { node with fullMatch? := some owner } }

/-- Inserts one branch of the pattern of a lexeme. -/
def insertBranch (t : Trie) (owner : LexemeId) (b : Branch) : Trie :=
  let (id, t) := t.walk owner rootId b.steps
  if b.completes then t.complete owner id else t

/-- Inserts the pattern of a lexeme. -/
def insert (t : Trie) (owner : LexemeId) (items : List Pattern.Item) : Trie :=
  (Pattern.Item.branchesOf items).foldl (·.insertBranch owner) t

/-- Inserts the patterns of lexemes with consecutive numbers. -/
def insertAll (t : Trie) : LexemeId → List Lexeme → Trie
  | _, [] => t
  | id, lexeme :: lexemes => insertAll (t.insert id lexeme.items) (id + 1) lexemes

/-- The trie of all patterns of a lexicon, inserted in the order of registration. -/
def ofLexicon (l : Lexicon) : Trie :=
  (new defaultId).insertAll (defaultId + 1) l.patternLexemes

end Trie

end Lexing
