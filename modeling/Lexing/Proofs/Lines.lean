import Lexing.Cursor
import Mathlib.Data.List.DropRight
import Mathlib.Tactic.Lemma

/-!
# Lines and columns of a text

Where a text is read as a whole it is plain what its lines are: a line feed, a carriage return, and
the two of them in this order end a line (`lineEnds`), and what follows the last line end is the
last line (`lastLine`).  A cursor meets one character after the other and has begun a new line at a
carriage return before it can know whether a line feed follows.

`Cursor.foldl_advanceChar` says that it counts the same, wherever it starts.  The induction is from
the end of the text, by what the last character adds to either count (`lineEnds_concat`).
-/

namespace Lexing

/-! ## Saturating sums -/

@[simp] lemma addSaturating_zero (a : UInt32) : addSaturating a 0 = a := by
  have ha := a.toNat_lt
  apply UInt32.toNat_inj.1
  rw [toNat_addSaturating, UInt32.size]
  omega

/-- Once the largest number is reached it is kept, so it does not matter in how many steps something
is added. -/
@[simp] lemma addSaturating_addSaturating (a : UInt32) (m n : Nat) :
    addSaturating (addSaturating a m) n = addSaturating a (m + n) := by
  apply UInt32.toNat_inj.1
  simp only [toNat_addSaturating, UInt32.size]
  omega

/-! ## Lines of a text -/

/-- Line feeds and carriage returns end lines. -/
def endsLine (c : Char) : Bool :=
  c == '\n' || c == '\r'

/-- The number of line ends: line feeds, and carriage returns that none of them follows. -/
def lineEnds : List Char → Nat
  | [] => 0
  | c :: cs => lineEnds cs + if c = '\n' ∨ c = '\r' ∧ cs.head? ≠ some '\n' then 1 else 0

/-- What follows the last line end. -/
def lastLine (cs : List Char) : List Char :=
  cs.rtakeWhile fun c => !endsLine c

/-- The length in bytes of UTF-8. -/
def utf8Length : List Char → Nat
  | [] => 0
  | c :: cs => c.utf8Size + utf8Length cs

/-- The position of what comes after a text: its line and its column are counted from zero, up to
the largest number there is room for. -/
def Position.after (file? : Option String) (text : String) : Position :=
  { file := file?
    line := addSaturating 0 (lineEnds text.toList)
    column := addSaturating 0 (utf8Length (lastLine text.toList)) }

/-- A line feed ends a line unless a carriage return has just ended it. -/
lemma lineEnds_concat (cs : List Char) (x : Char) :
    lineEnds (cs ++ [x]) =
      lineEnds cs + if endsLine x ∧ ¬ (x = '\n' ∧ cs.getLast? = some '\r') then 1 else 0 := by
  induction cs with
  | nil => simp [lineEnds, endsLine]
  | cons c cs ih =>
    rw [List.cons_append, lineEnds, lineEnds, ih]
    cases cs with
    | nil =>
      by_cases hx : x = '\n'
      · subst hx
        by_cases hc : c = '\r'
        · subst hc
          decide
        · simp [hc, endsLine, lineEnds]
          omega
      · simp [hx, endsLine, lineEnds]
        omega
    | cons d ds =>
      rw [List.getLast?_cons_cons, List.cons_append, List.head?_cons, List.head?_cons]
      omega

lemma lastLine_concat (cs : List Char) (x : Char) :
    lastLine (cs ++ [x]) = if endsLine x then [] else lastLine cs ++ [x] := by
  unfold lastLine
  rw [List.rtakeWhile_concat]
  cases endsLine x <;> rfl

lemma utf8Length_append (cs ds : List Char) :
    utf8Length (cs ++ ds) = utf8Length cs + utf8Length ds := by
  induction cs with
  | nil => simp [utf8Length]
  | cons c cs ih => rw [List.cons_append, utf8Length, utf8Length, ih, Nat.add_assoc]

lemma utf8Length_concat (cs : List Char) (x : Char) :
    utf8Length (cs ++ [x]) = utf8Length cs + x.utf8Size := by
  rw [utf8Length_append, utf8Length, utf8Length, Nat.add_zero]

lemma utf8Length_toList (s : String) : utf8Length s.toList = s.utf8ByteSize := by
  have hlist : ∀ cs : List Char, utf8Length cs = (String.ofList cs).utf8ByteSize := by
    intro cs
    induction cs with
    | nil => simp [utf8Length]
    | cons c cs ih => simp [utf8Length, ih, String.ofList_cons, String.utf8ByteSize_append]
  rw [hlist, String.ofList_toList]

/-! ## Cursors -/

namespace Cursor

variable {c : Cursor} {cs : List Char} {x : Char}

/-- What is counted of a text.  A line feed at its start is not if the cursor has just passed a
carriage return. -/
def counted (c : Cursor) (cs : List Char) : List Char :=
  if c.afterReturn = true ∧ cs.head? = some '\n' then cs.tail else cs

/-- Whether the cursor has just passed a carriage return when the text is over. -/
def endsAfterReturn (c : Cursor) (cs : List Char) : Bool :=
  (cs.getLast?.map (· == '\r')).getD c.afterReturn

lemma counted_concat (h : ¬ (cs = [] ∧ c.afterReturn = true ∧ x = '\n')) :
    c.counted (cs ++ [x]) = c.counted cs ++ [x] := by
  unfold counted
  cases cs with
  | nil => simp_all
  | cons d ds =>
    rw [List.cons_append, List.head?_cons, List.head?_cons]
    split <;> rfl

lemma endsAfterReturn_iff (h : ¬ (cs = [] ∧ c.afterReturn = true)) :
    c.endsAfterReturn cs = true ↔ (c.counted cs).getLast? = some '\r' := by
  rcases List.eq_nil_or_concat' cs with rfl | ⟨before, last, rfl⟩
  · simp_all [endsAfterReturn, counted]
  · by_cases hlast : before = [] ∧ c.afterReturn = true ∧ last = '\n'
    · obtain ⟨rfl, hc, rfl⟩ := hlast
      simp [endsAfterReturn, counted, hc]
    · rw [counted_concat hlast]
      simp [endsAfterReturn]

/-- **Counting.**  Induction from the end of the text. -/
lemma foldl_advanceChar (c : Cursor) (cs : List Char) :
    cs.foldl advanceChar c =
      { line := addSaturating c.line (lineEnds (c.counted cs))
        column := addSaturating (if (c.counted cs).any endsLine then 0 else c.column)
          (utf8Length (lastLine (c.counted cs)))
        afterReturn := c.endsAfterReturn cs } := by
  induction cs using List.reverseRecOn with
  | nil => simp [counted, lineEnds, lastLine, utf8Length, endsAfterReturn]
  | append_singleton cs x ih =>
    rw [List.foldl_append, ih]
    by_cases hskip : cs = [] ∧ c.afterReturn = true ∧ x = '\n'
    · obtain ⟨rfl, hc, rfl⟩ := hskip
      simp [advanceChar, counted, hc, lineEnds, lastLine, utf8Length, endsAfterReturn]
    · rw [counted_concat hskip, lineEnds_concat, lastLine_concat]
      by_cases hfeed : x = '\n'
      · have hafter : c.endsAfterReturn cs = true ↔ (c.counted cs).getLast? = some '\r' :=
          endsAfterReturn_iff fun h => hskip ⟨h.1, h.2, hfeed⟩
        subst hfeed
        cases hreturn : c.endsAfterReturn cs with
        | true =>
          obtain ⟨before, hbefore⟩ := List.getLast?_eq_some_iff.1 (hafter.1 hreturn)
          simp [advanceChar, hbefore, lastLine_concat, endsLine, endsAfterReturn]
        | false =>
          have hlast : (c.counted cs).getLast? ≠ some '\r' := by
            rw [Ne, ← hafter, hreturn]
            simp
          simp [advanceChar, newline, hlast, endsLine, endsAfterReturn, utf8Length]
      · by_cases hreturn : x = '\r'
        · subst hreturn
          simp [advanceChar, newline, endsLine, endsAfterReturn, utf8Length]
        · simp [advanceChar, hfeed, hreturn, endsLine, endsAfterReturn, utf8Length_concat]

/-- **Positions.**  From the start of a stream a cursor counts the lines and the bytes of the text.
-/
theorem position_advance_start (file? : Option String) (text : String) :
    (advance {} text).position file? = Position.after file? text := by
  rw [advance, foldl_advanceChar]
  simp [position, Position.after, counted]

end Cursor

end Lexing
