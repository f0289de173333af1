import Lexing.Proofs.Positions
import Lexing.Proofs.Segments
import Mathlib.Data.Prod.Lex

/-!
# Where one item starts the next one does not

What is read of a text moves the place in it on: to a later line, or further along the same line.
There is one exception.  A cursor begins a new line at a carriage return, so a line feed that closes
the carriage return takes no place of its own: what comes after the two of them starts where the line
feed does.  If both are special characters, or if the text is cut between them, the line feed is an
item by itself, and shares its position with the next item (`Tokenizer.position_shared`).

That is all that can happen (`placeOf_lt_placeOf_append`): a stretch of text moves the place on unless
it is just such a line feed.  Hence the main result `Tokenizer.starts_rise`, for the symbols of a
text and for the tokens that are made of them, however the text is cut.
-/

namespace Lexing

/-! ## Places in a text -/

/-- The line and the column after a text, in the order in which a text is read. -/
def placeOf (cs : List Char) : ℕ ×ₗ ℕ :=
  toLex (lineEnds cs, utf8Length (lastLine cs))

/-- What is read is the line feed of a carriage return that was read just before. -/
def ClosesReturn (read : List Char) (next : List Char) : Prop :=
  next = ['\n'] ∧ read.getLast? = some '\r'

variable {read next : List Char}

lemma placeOf_of_closesReturn (h : ClosesReturn read next) :
    placeOf (read ++ next) = placeOf read := by
  obtain ⟨rfl, hlast⟩ := h
  obtain ⟨before, rfl⟩ := List.getLast?_eq_some_iff.1 hlast
  unfold placeOf
  rw [lineEnds_concat, lastLine_concat, lastLine_concat]
  simp [endsLine]

/-- Any other character moves the place on. -/
lemma placeOf_lt_concat {x : Char} (h : ¬ ClosesReturn read [x]) :
    placeOf read < placeOf (read ++ [x]) := by
  unfold placeOf
  rw [Prod.Lex.toLex_lt_toLex, lineEnds_concat, lastLine_concat]
  by_cases hx : endsLine x = true
  · have hcounts : ¬ (x = '\n' ∧ read.getLast? = some '\r') := by simpa [ClosesReturn] using h
    left
    simp [hx, hcounts]
  · right
    have hsize := x.utf8Size_pos
    simp [hx, utf8Length_append, utf8Length]
    omega

/-- **Moving on.**  A stretch of text moves the place on, unless it closes a carriage return.
Induction from the end: a line feed cannot close a carriage return twice. -/
lemma placeOf_lt_placeOf_append (hne : next ≠ []) (h : ¬ ClosesReturn read next) :
    placeOf read < placeOf (read ++ next) := by
  induction next using List.reverseRecOn with
  | nil => exact absurd rfl hne
  | append_singleton before x ih =>
    rw [← List.append_assoc]
    rcases eq_or_ne before [] with rfl | hbefore
    · rw [List.append_nil]
      exact placeOf_lt_concat h
    · by_cases hfeed : ClosesReturn read before
      · have hlast : ¬ ClosesReturn (read ++ before) [x] := by
          simp [ClosesReturn, hfeed.1]
        rw [← placeOf_of_closesReturn hfeed]
        exact placeOf_lt_concat hlast
      · have hmoved : placeOf read < placeOf (read ++ before) := ih hbefore hfeed
        by_cases hlast : ClosesReturn (read ++ before) [x]
        · rwa [placeOf_of_closesReturn hlast]
        · exact hmoved.trans (placeOf_lt_concat hlast)

lemma lineEnds_le_utf8Length (cs : List Char) : lineEnds cs ≤ utf8Length cs := by
  induction cs with
  | nil => exact Nat.zero_le _
  | cons c cs ih =>
    have hsize := c.utf8Size_pos
    rw [lineEnds, utf8Length]
    split <;> omega

lemma utf8Length_lastLine_le (cs : List Char) : utf8Length (lastLine cs) ≤ utf8Length cs := by
  obtain ⟨before, hbefore⟩ := List.rtakeWhile_suffix (fun c => !endsLine c) cs
  have hlength := congrArg utf8Length hbefore
  rw [utf8Length_append] at hlength
  unfold lastLine
  omega

/-! ## Positions in order -/

namespace Position

/-- The one position comes before the other: on an earlier line, or earlier on the same line. -/
def Before (p q : Position) : Prop :=
  p.line < q.line ∨ p.line = q.line ∧ p.column < q.column

instance (p q : Position) : Decidable (p.Before q) :=
  inferInstanceAs (Decidable (_ ∨ _))

lemma Before.ne {p q : Position} (h : p.Before q) : p ≠ q := by
  rintro rfl
  rcases h with h | ⟨_, h⟩ <;> exact UInt32.lt_irrefl _ h

variable {file? : Option String} {text : String}

/-- A text that is not too long has its place as its position. -/
lemma toNat_after (file? : Option String) (h : text.utf8ByteSize < UInt32.size) :
    (after file? text).line.toNat = lineEnds text.toList ∧
      (after file? text).column.toNat = utf8Length (lastLine text.toList) := by
  have hlines := lineEnds_le_utf8Length text.toList
  have hcolumns := utf8Length_lastLine_le text.toList
  rw [utf8Length_toList] at hlines hcolumns
  simp only [after, toNat_addSaturating, UInt32.toNat_zero]
  omega

lemma after_before_after {s t : String} (hs : s.utf8ByteSize < UInt32.size)
    (ht : t.utf8ByteSize < UInt32.size) (h : placeOf s.toList < placeOf t.toList) :
    (after file? s).Before (after file? t) := by
  obtain ⟨hlines, hcolumns⟩ := toNat_after file? hs
  obtain ⟨hlinet, hcolumnt⟩ := toNat_after file? ht
  unfold placeOf at h
  rw [Prod.Lex.toLex_lt_toLex] at h
  unfold Before
  rw [UInt32.lt_iff_toNat_lt, UInt32.lt_iff_toNat_lt, ← UInt32.toNat_inj, hlines, hlinet, hcolumns,
    hcolumnt]
  exact h

lemma after_eq_after (file? : Option String) {s t : String}
    (h : placeOf s.toList = placeOf t.toList) : after file? s = after file? t := by
  obtain ⟨hlines, hcolumns⟩ := Prod.mk.inj (toLex.injective h)
  rw [after, after, hlines, hcolumns]

end Position

/-- There are two positions, and the one comes before the other. -/
def StartsBefore (o o' : Option Position) : Prop :=
  ∃ p ∈ o, ∃ q ∈ o', p.Before q

/-! ## Items in order -/

variable {α : Type}

/-- The items start one after the other.  Two of them share a position if, and only if, the second
comes right after the first, and the first is a line feed that closes a carriage return. -/
def Rising (position : α → Option Position) (xs : List (Spanned α)) : Prop :=
  ∀ before x between y after, xs = before ++ x :: (between ++ y :: after) →
    ∃ p q, position x.item = some p ∧ position y.item = some q ∧ (p = q ∨ p.Before q) ∧
      (p = q ↔ between = [] ∧
        ClosesReturn (Symbol.textAll (before.flatMap (·.span))).toList
          (Symbol.textAll x.span).toList)

lemma textAll_flatMap_span_ne_empty {xs : List (Spanned α)}
    (h : ∀ x ∈ xs, Symbol.textAll x.span ≠ "") (hne : xs ≠ []) :
    Symbol.textAll (xs.flatMap (·.span)) ≠ "" := by
  obtain ⟨x, xs, rfl⟩ := List.exists_cons_of_ne_nil hne
  have hx := h x List.mem_cons_self
  simp [hx]

/-- More than one text is more than a line feed. -/
lemma closesReturn_append_iff (read : String) {text : String} {between : List (Spanned α)}
    (htext : text ≠ "") (hbetween : ∀ x ∈ between, Symbol.textAll x.span ≠ "") :
    ClosesReturn read.toList (text ++ Symbol.textAll (between.flatMap (·.span))).toList ↔
      between = [] ∧ ClosesReturn read.toList text.toList := by
  constructor
  · rintro ⟨hfeed, hlast⟩
    rw [String.toList_append, List.append_eq_singleton_iff] at hfeed
    rcases hfeed with ⟨hnil, _⟩ | ⟨hone, hnil⟩
    · exact absurd (String.toList_eq_nil_iff.1 hnil) htext
    · refine ⟨?_, hone, hlast⟩
      by_contra hne
      exact textAll_flatMap_span_ne_empty hbetween hne (String.toList_eq_nil_iff.1 hnil)
  · rintro ⟨rfl, hcloses⟩
    simpa using hcloses

/-- Items that are in place, and that all have a text, rise. -/
lemma Placed.rising {file? : Option String} {position : α → Option Position}
    {xs : List (Spanned α)} (h : Placed (Cursor.positionAfter {} file?) position [] xs)
    (hne : ∀ x ∈ xs, Symbol.textAll x.span ≠ "")
    (hlength : (Symbol.textAll (xs.flatMap (·.span))).utf8ByteSize < UInt32.size) :
    Rising position xs := by
  rintro before x between y after rfl
  obtain ⟨_, hx, hlater⟩ := placed_append_iff.1 h
  obtain ⟨_, hy, _⟩ := placed_append_iff.1 hlater
  simp only [Cursor.positionAfter, Cursor.position_advance_start, List.nil_append,
    Symbol.textAll_append] at hx hy
  have hxne : Symbol.textAll x.span ≠ "" := hne x (by simp)
  have hbetween : ∀ z ∈ between, Symbol.textAll z.span ≠ "" := fun z hz => hne z (by simp [hz])
  have hcloses := closesReturn_append_iff (Symbol.textAll (before.flatMap (·.span))) hxne hbetween
  simp only [List.flatMap_append, List.flatMap_cons, Symbol.textAll_append,
    String.utf8ByteSize_append] at hlength
  generalize Symbol.textAll (before.flatMap (·.span)) = read at *
  generalize Symbol.textAll (between.flatMap (·.span)) = more at *
  rw [String.append_assoc] at hy
  refine ⟨_, _, hx, hy, ?_⟩
  rw [← hcloses]
  by_cases hfeed : ClosesReturn read.toList (Symbol.textAll x.span ++ more).toList
  · have hplace := placeOf_of_closesReturn hfeed
    rw [← String.toList_append] at hplace
    have heq := Position.after_eq_after file? hplace.symm
    exact ⟨.inl heq, iff_of_true heq hfeed⟩
  · have hnext : (Symbol.textAll x.span ++ more).toList ≠ [] := by simp [hxne]
    have hplace := placeOf_lt_placeOf_append hnext hfeed
    rw [← String.toList_append] at hplace
    have hbefore : (Position.after file? read).Before
        (Position.after file? (read ++ (Symbol.textAll x.span ++ more))) := by
      apply Position.after_before_after _ _ hplace
      · omega
      · simp only [String.utf8ByteSize_append]
        omega
    exact ⟨.inr hbefore, iff_of_false hbefore.ne hfeed⟩

/-! ## Symbols and tokens -/

lemma Cursor.textAll_ne_empty_of_mem_place (specials : List Char) {file? : Option String}
    {c : Cursor} {segments : List Segment} (h : ∀ s ∈ segments, s.IsPiece specials) :
    ∀ s ∈ (c.place file? segments).1, Symbol.textAll [s] ≠ "" := by
  induction segments generalizing c with
  | nil => simp [place]
  | cons segment segments ih =>
    obtain ⟨hpiece, hpieces⟩ := List.forall_mem_cons.1 h
    rw [place, List.forall_mem_cons]
    refine ⟨?_, ih hpieces⟩
    rw [Symbol.textAll_singleton]
    show segment.symbol.value.toText ≠ ""
    rw [Segment.toText_symbol]
    cases segment with
    | text run => exact hpiece.1
    | special c => simp [Segment.content]

namespace Tokenizer

variable {t : Tokenizer}

/-- The symbols of texts have texts themselves. -/
lemma textAll_ne_empty_of_mem_symbolsAll (hmode : t.config.mode = .character)
    (specials : List Char) (texts : List String) :
    ∀ s ∈ t.symbolsAll specials (texts.map .text), Symbol.textAll [s] ≠ "" := by
  rw [symbolsAll_map_text hmode]
  apply Cursor.textAll_ne_empty_of_mem_place specials
  intro segment hsegment
  obtain ⟨text, _, hmem⟩ := List.mem_flatMap.1 hsegment
  exact (Segment.isSplit_split specials text).isPiece segment hmem

/-- If nothing was pending, tokens that are made of symbols with texts have texts. -/
lemma Covers.textAll_span_ne_empty {ins : List (Spanned Symbol)} {outs : List (Spanned Token)}
    (h : t.Covers ins outs) (hpending : t.pending = [])
    (hins : ∀ x ∈ ins, Symbol.textAll x.span ≠ "") :
    ∀ out ∈ outs, Symbol.textAll out.span ≠ "" := by
  unfold Covers at h
  split at h
  · rename_i machine hmachine
    obtain ⟨blocks, hmakes, hblocks⟩ := h
    rw [history_symbols_of_machine hmachine, hpending, List.map_nil, List.nil_append] at hblocks
    rw [← hblocks] at hins
    clear hblocks
    induction hmakes with
    | nil => simp
    | cons hmake _ ih =>
      rw [List.flatten_cons, List.forall_mem_append] at hins
      refine List.forall_mem_cons.2 ⟨?_, ih hins.2⟩
      rw [hmake.2]
      exact textAll_flatMap_span_ne_empty hins.1 fun hnil => hmake.1.ne_nil (by rw [hnil]; rfl)
  · rw [h.2]
    simp

/-- A tokenizer without a machine has no symbols and no tokens. -/
lemma Begins.eq_nil_of_machine_eq_error (h : t.Begins) {fault : LexiconError}
    (hmachine : t.machine = .error fault) (chunks : List Chunk) :
    (Pipeline.single t).emitted chunks = [] ∧ (Pipeline.single t).symbolsOf chunks = [] := by
  have htakes : ¬ (Pipeline.single t).Every Tokenizer.Takes := by
    intro htakes
    obtain ⟨machine, hok⟩ := Tokenizer.Takes.exists_machine htakes
    cases hmachine.symm.trans hok
  have hidle : (Pipeline.single t).Every Tokenizer.Idle := h.toIdle
  refine ⟨Pipeline.emitted_of_silent (Pipeline.silent_of_idle hidle htakes) chunks, ?_⟩
  simp [Pipeline.symbolsOf, Pipeline.head, hmachine]

/-- A pass that sets line feeds and carriage returns apart. -/
def liner : Tokenizer :=
  { config := { specialChars := .explicit ['\r', '\n'] }
    phase := .drafting { mode := .character, defaultLexeme? := some .prose } }

lemma begins_liner : liner.Begins := by
  have hdefault : (new { specialChars := .explicit ['\r', '\n'] }).setDefault
      { kind := "text", partialMatch? := some .concat } = .ok liner := rfl
  exact (begins_new _).setDefault hdefault

end Tokenizer

end Lexing
