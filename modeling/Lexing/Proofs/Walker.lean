import Lexing.Automaton
import Lexing.Trie
import Mathlib.Tactic.Lemma

/-!
# Reading a trie directly

A walker matches symbols against a trie without a table.  It stands at a node with the symbols
consumed so far and looks at the edges of the trie as they are, overlapping or not:

* a symbol that the step to the node accepts leaves it there, if that step repeats;
* else it goes to the first child whose edge accepts the symbol; a child from which no match can go
  on ends the match, with the symbol;
* else the match ends without the symbol, which has to be presented again; at the root, where there
  is no match to end, the symbol becomes a token of the default lexeme by itself.

The end of the stream does nothing at the root and ends the match anywhere else.

What a match becomes when it ends at a node is the *verdict* of the node: the full match of the
lexeme that ends there, or else a partial match, which is resolved by the lexeme for which the node
was made if it says how, and by the default lexeme if it does not.

This is the meaning of a lexicon; `Lexing.Proofs.Refinement` shows that its table has it.
-/

namespace Lexing

/-! ## Verdicts -/

/-- The kind of the token that a match becomes, and the rule that gives its value. -/
structure Verdict where
  kind : Tag
  rule : Attribute

namespace Verdict

/-- The token of a match, which has at least one symbol. -/
def token? (v : Verdict) (history : History) : Option Token :=
  match history.first?, history.last? with
  | some first, some last =>
    some
      { kind := v.kind
        value := v.rule.evaluate history last.symbol
        position := first.symbol.position }
  | _, _ => none

/-- A match with at least one symbol becomes a token. -/
lemma exists_token? (v : Verdict) {history : History} (h : history.isEmpty = false) :
    ∃ token, v.token? history = some token := by
  cases hvisits : history.visits with
  | nil => simp [History.isEmpty, hvisits] at h
  | cons first rest =>
    simp [token?, History.first?, History.last?, hvisits, List.getLast?_cons]

/-- The token has its position from the first symbol and its value from the last. -/
lemma exists_of_token? {v : Verdict} {history : History} {token : Token}
    (h : v.token? history = some token) :
    ∃ first last, history.first? = some first ∧ history.last? = some last ∧
      token =
        { kind := v.kind
          value := v.rule.evaluate history last.symbol
          position := first.symbol.position } := by
  unfold token? at h
  split at h
  · rename_i first last hfirst hlast
    cases h
    exact ⟨first, last, hfirst, hlast, rfl⟩
  · cases h

end Verdict

namespace Lexeme

/-- The verdict that the pattern of the lexeme was matched. -/
def fullVerdict (l : Lexeme) : Verdict :=
  { kind := l.kind, rule := l.fullMatch }

/-- The verdict that a match went no further, by a lexeme that resolves it. -/
def partialVerdict (l : Lexeme) : Verdict :=
  { kind := l.kind, rule := l.partialMatch }

/-- The verdict on a match that went no further, if the lexeme itself says what it becomes. -/
def ownPartialVerdict? (l : Lexeme) : Option Verdict :=
  l.partialMatch?.map fun rule => { kind := l.kind, rule }

end Lexeme

/-! ## Nodes of a trie -/

namespace Trie

/-- The name of a node. -/
def nameAt (t : Trie) (id : NodeId) : String :=
  (t.node? id).elim "" (·.name)

/-- Whether the edge that leads to a node accepts a tag. No edge leads to the root. -/
def admits (t : Trie) (id : NodeId) (tag : Tag) : Bool :=
  ((t.node? id).bind (·.link?)).any (·.edge.accepts tag)

/-- Whether the step to a node may be taken again. -/
def repeatsAt (t : Trie) (id : NodeId) : Bool :=
  (t.node? id).any (·.repeats)

/-- The node at which a match goes on. -/
def successor? (t : Trie) (id : NodeId) (tag : Tag) : Option NodeId :=
  if t.repeatsAt id && t.admits id tag then some id
  else (t.children id).find? (t.admits · tag)

/-- What a match that ends at a node becomes. -/
def verdictAt (t : Trie) (l : Lexicon) (id : NodeId) : Verdict :=
  match ((t.node? id).bind (·.fullMatch?)).bind l.lexeme? with
  | some lexeme => lexeme.fullVerdict
  | none =>
    let owner? := (t.node? id).bind fun node => l.lexeme? node.owner
    (owner?.bind (·.ownPartialVerdict?)).getD l.defaultLexeme.partialVerdict

end Trie

/-! ## Walkers -/

/-- A place in a trie, and how it was reached. -/
structure Walker where
  node : NodeId
  history : History

/-- What a step lets one see. -/
structure Outcome where
  token? : Option Token
  signal : Signal

namespace Walker

/-- The walker at the root. -/
def start : Walker :=
  { node := Trie.rootId, history := .empty }

/-- Takes one symbol. -/
def step (t : Trie) (l : Lexicon) (w : Walker) (s : Symbol) : Outcome × Walker :=
  let name := t.nameAt w.node
  let pending := (t.verdictAt l w.node).token? w.history
  if s.isEndOfStream then
    if w.node = Trie.rootId then
      ({ token? := none, signal := .goOn }, w)
    else
      ({ token? := pending, signal := .reset }, start)
  else
    match t.successor? w.node s.tag with
    | some next =>
      if t.isLeaf next then
        ({ token? := (t.verdictAt l next).token? (w.history.push name s), signal := .reset }, start)
      else
        ({ token? := none, signal := .goOn }, { node := next, history := w.history.push name s })
    | none =>
      if w.node = Trie.rootId then
        ({ token? := l.defaultLexeme.fullVerdict.token? (History.empty.push name s)
           signal := .reset }, start)
      else
        ({ token? := pending, signal := .replay }, start)

/-- The five ways a step can go, each with what is seen and where the walker is then. -/
inductive Steps (t : Trie) (l : Lexicon) (w : Walker) (s : Symbol) : Outcome × Walker → Prop
  | rests (hs : s.isEndOfStream = true) (hroot : w.node = Trie.rootId) :
      Steps t l w s ({ token? := none, signal := .goOn }, w)
  | goesOn {next : NodeId} (hs : s.isEndOfStream = false)
      (hnext : t.successor? w.node s.tag = some next) (hleaf : t.isLeaf next = false) :
      Steps t l w s
        ({ token? := none, signal := .goOn },
          { node := next, history := w.history.push (t.nameAt w.node) s })
  | completes {next : NodeId} (hs : s.isEndOfStream = false)
      (hnext : t.successor? w.node s.tag = some next) (hleaf : t.isLeaf next = true) :
      Steps t l w s
        ({ token? := (t.verdictAt l next).token? (w.history.push (t.nameAt w.node) s)
           signal := .reset }, start)
  | passes (hs : s.isEndOfStream = false) (hnext : t.successor? w.node s.tag = none)
      (hroot : w.node = Trie.rootId) :
      Steps t l w s
        ({ token? := l.defaultLexeme.fullVerdict.token? (History.empty.push (t.nameAt w.node) s)
           signal := .reset }, start)
  | stalls (hnext : s.isEndOfStream = false → t.successor? w.node s.tag = none)
      (hroot : w.node ≠ Trie.rootId) :
      Steps t l w s
        ({ token? := (t.verdictAt l w.node).token? w.history
           signal := if s.isEndOfStream then .reset else .replay }, start)

lemma steps_step (t : Trie) (l : Lexicon) (w : Walker) (s : Symbol) :
    w.Steps t l s (w.step t l s) := by
  unfold step
  split
  · rename_i hs
    split
    · rename_i hroot
      exact .rests hs hroot
    · rename_i hroot
      have h : w.Steps t l s _ := .stalls (by simp [hs]) hroot
      rwa [if_pos hs] at h
  · rename_i hs
    rw [Bool.not_eq_true] at hs
    split
    · rename_i next hnext
      split
      · rename_i hleaf
        exact .completes hs hnext hleaf
      · rename_i hleaf
        exact .goesOn hs hnext (by simpa using hleaf)
    · rename_i hnext
      split
      · rename_i hroot
        exact .passes hs hnext hroot
      · rename_i hroot
        have h : w.Steps t l s _ := .stalls (fun _ => hnext) hroot
        rwa [if_neg (by simp [hs])] at h

/-- What is seen while the symbols are taken one after the other. -/
def outcomes (t : Trie) (l : Lexicon) (w : Walker) : List Symbol → List Outcome
  | [] => []
  | s :: ss => (w.step t l s).1 :: outcomes t l (w.step t l s).2 ss

end Walker

end Lexing
