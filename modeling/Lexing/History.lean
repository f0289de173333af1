import Lexing.Symbol

/-!
# Histories

The history of a match in progress records, for each symbol consumed so far, the state in which
it was consumed.
-/

namespace Lexing

/-- A symbol and the name of the state that consumed it. -/
structure Visit where
  state : String
  symbol : Symbol
  deriving Inhabited

/-- The visits of a match, oldest first. -/
structure History where
  visits : List Visit := []
  deriving Inhabited

namespace History

def empty : History := {}

/-- The history after one more symbol. -/
def push (h : History) (state : String) (symbol : Symbol) : History :=
  { visits := h.visits ++ [{ state, symbol }] }

def length (h : History) : Nat :=
  h.visits.length

def isEmpty (h : History) : Bool :=
  h.visits.isEmpty

def first? (h : History) : Option Visit :=
  h.visits.head?

def last? (h : History) : Option Visit :=
  h.visits.getLast?

/-- The consumed symbols, oldest first. -/
def symbols (h : History) : List Symbol :=
  h.visits.map (·.symbol)

/-- The texts of the consumed symbols, one after the other. -/
def text (h : History) : String :=
  Value.toTextAll (h.symbols.map (·.value))

@[simp] theorem symbols_empty : empty.symbols = [] := rfl

@[simp] theorem symbols_push (h : History) (state : String) (symbol : Symbol) :
    (h.push state symbol).symbols = h.symbols ++ [symbol] := by
  simp [push, symbols]

@[simp] theorem isEmpty_push (h : History) (state : String) (symbol : Symbol) :
    (h.push state symbol).isEmpty = false := by
  simp [push, isEmpty]

end History

end Lexing
