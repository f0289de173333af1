/-!
# Fresh names

A name that is taken already gets a number: the second holder of `base` is called `base#2`, the
third `base#3`, and so on, skipping numbers that are taken themselves.
-/

namespace Lexing.Text

/-- The first of `base#n`, `base#(n+1)`, … that is not taken. Each candidate found to be taken
is struck from the list, so the search ends. -/
def freshNumbered (base : String) (taken : List String) (n : Nat) : String :=
  let candidate := s!"{base}#{n}"
  if h : candidate ∈ taken then
    freshNumbered base (taken.erase candidate) (n + 1)
  else
    candidate
termination_by taken.length
decreasing_by
  have := List.length_pos_of_mem h
  rw [List.length_erase_of_mem h]
  omega

/-- `base` itself if it is free, else the first free numbered name. -/
def freshName (base : String) (taken : List String) : String :=
  if base ∈ taken then freshNumbered base taken 2 else base

end Lexing.Text
