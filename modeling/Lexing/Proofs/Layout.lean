import Lexing.Proofs.Lines
import Mathlib.Data.List.Chain

/-!
# A cursor counts the lines of the one layout of a text

A text is laid out in lines.  Each line that is over has its line end, and what follows the last of
them is a line that has only begun.  There is one thing to decide: a carriage return and a line feed
in a row are one line end and not two.  That leaves no choice (`Layout.fits_iff`).

A cursor does not lay out its text.  It is handed the text in pieces, which may be cut within a line
end, and knows of what it has passed only the line, the column and whether a carriage return came
last.  The main result `Cursor.advance_exact` says that the cuts make no difference, and that from
wherever it starts it comes to where the layout says.  The one character that is not laid out is a
line feed that closes a carriage return from before the start (`Cursor.counted`).
-/

namespace Lexing

/-- What ends a line. -/
inductive LineEnd where
  | feed
  | loneReturn
  | returnFeed
  deriving DecidableEq, Repr

/-- The characters of a line end. -/
def LineEnd.content : LineEnd → List Char
  | feed => ['\n']
  | loneReturn => ['\r']
  | returnFeed => ['\r', '\n']

/-- A line that is over. -/
structure Line where
  text : List Char
  ending : LineEnd
  deriving DecidableEq, Repr

/-- The characters of a line and of its line end. -/
def Line.content (line : Line) : List Char :=
  line.text ++ line.ending.content

/-- The lines that are over, and what has begun after them. -/
structure Layout where
  lines : List Line := []
  last : List Char := []
  deriving DecidableEq, Repr

/-- Nothing in it ends a line. -/
def Unbroken (cs : List Char) : Prop :=
  ∀ c ∈ cs, endsLine c = false

lemma unbroken_nil : Unbroken [] := by
  simp [Unbroken]

lemma unbroken_cons_iff {c : Char} {cs : List Char} :
    Unbroken (c :: cs) ↔ (c ≠ '\n' ∧ c ≠ '\r') ∧ Unbroken cs := by
  simp [Unbroken, endsLine]

namespace Layout

/-- The text that is laid out. -/
def content (layout : Layout) : List Char :=
  layout.lines.flatMap Line.content ++ layout.last

/-- A line that ends with a carriage return alone has no line feed after it. -/
def Apart (line next : Line) : Prop :=
  line.ending = .loneReturn → next ≠ ⟨[], .feed⟩

/-- The text is laid out in this way: lines end where there is a line end, and only there, and no
line end is taken for two. -/
structure Fits (layout : Layout) (cs : List Char) : Prop where
  content_eq : layout.content = cs
  unbroken : ∀ line ∈ layout.lines, Unbroken line.text
  unbroken_last : Unbroken layout.last
  apart : layout.lines.IsChain Apart

variable {layout : Layout} {line : Line} {lines : List Line} {last cs ds : List Char}

/-- Where no line is over there is only what has begun. -/
lemma fits_nil_iff : Fits ⟨[], last⟩ cs ↔ cs = last ∧ Unbroken last := by
  constructor
  · rintro ⟨rfl, -, hlast, -⟩
    exact ⟨rfl, hlast⟩
  · rintro ⟨rfl, hlast⟩
    exact ⟨rfl, by simp, hlast, .nil⟩

/-- The first line comes before what the rest is the layout of. -/
lemma fits_cons_iff :
    Fits ⟨line :: lines, last⟩ cs ↔
      ∃ ds, cs = line.content ++ ds ∧ Unbroken line.text ∧ (line :: lines).IsChain Apart ∧
        Fits ⟨lines, last⟩ ds := by
  constructor
  · rintro ⟨rfl, hunbroken, hlast, hapart⟩
    obtain ⟨hline, hlines⟩ := List.forall_mem_cons.1 hunbroken
    refine ⟨content ⟨lines, last⟩, ?_, hline, hapart, ⟨rfl, hlines, hlast, hapart.tail⟩⟩
    simp [content]
  · rintro ⟨ds, rfl, hline, hapart, rfl, hlines, hlast, -⟩
    refine ⟨?_, List.forall_mem_cons.2 ⟨hline, hlines⟩, hlast, hapart⟩
    simp [content]

/-! ## One layout -/

/-- Puts one character before what is laid out. -/
def prepend (c : Char) (layout : Layout) : Layout :=
  if c = '\n' then
    { layout with lines := ⟨[], .feed⟩ :: layout.lines }
  else if c = '\r' then
    match layout.lines with
    | ⟨[], .feed⟩ :: lines => { layout with lines := ⟨[], .returnFeed⟩ :: lines }
    | lines => { layout with lines := ⟨[], .loneReturn⟩ :: lines }
  else
    match layout.lines with
    | [] => { layout with last := c :: layout.last }
    | line :: lines => { layout with lines := { line with text := c :: line.text } :: lines }

/-- The layout of a text. -/
def ofList (cs : List Char) : Layout :=
  cs.foldr prepend {}

lemma prepend_return_feed (lines : List Line) (last : List Char) :
    prepend '\r' ⟨⟨[], .feed⟩ :: lines, last⟩ = ⟨⟨[], .returnFeed⟩ :: lines, last⟩ :=
  rfl

lemma prepend_return (h : (⟨[], .loneReturn⟩ :: lines).IsChain Apart) :
    prepend '\r' ⟨lines, last⟩ = ⟨⟨[], .loneReturn⟩ :: lines, last⟩ := by
  unfold prepend
  rw [if_neg (by decide), if_pos rfl]
  split
  · rename_i hlines
    obtain rfl : lines = _ := hlines
    exact absurd rfl ((List.isChain_cons_cons.1 h).1 rfl)
  · rfl

lemma prepend_of_unbroken_last {c : Char} (h : Unbroken (c :: cs)) :
    prepend c ⟨[], cs⟩ = ⟨[], c :: cs⟩ := by
  obtain ⟨⟨hfeed, hreturn⟩, -⟩ := unbroken_cons_iff.1 h
  simp [prepend, hfeed, hreturn]

lemma prepend_of_unbroken {c : Char} {ending : LineEnd} (h : Unbroken (c :: cs)) :
    prepend c ⟨⟨cs, ending⟩ :: lines, last⟩ = ⟨⟨c :: cs, ending⟩ :: lines, last⟩ := by
  obtain ⟨⟨hfeed, hreturn⟩, -⟩ := unbroken_cons_iff.1 h
  simp [prepend, hfeed, hreturn]

/-- A line whose line end is another one is apart from whatever comes after it. -/
lemma isChain_cons_of_ne (h : line.ending ≠ .loneReturn) (hlines : lines.IsChain Apart) :
    (line :: lines).IsChain Apart :=
  hlines.cons fun _ _ hreturn => absurd hreturn h

/-- What is in the first line makes no difference. -/
lemma isChain_cons_text {ending : LineEnd} (h : (⟨cs, ending⟩ :: lines).IsChain Apart) :
    (⟨ds, ending⟩ :: lines).IsChain Apart :=
  h.tail.cons fun next hnext hreturn => (List.isChain_cons.1 h).1 next hnext hreturn

/-- A carriage return is a line end by itself, or what comes after it begins with a line feed. -/
lemma isChain_loneReturn_or (hlines : lines.IsChain Apart) :
    (⟨[], .loneReturn⟩ :: lines).IsChain Apart ∨ ∃ later, lines = ⟨[], .feed⟩ :: later := by
  cases lines with
  | nil => exact .inl (.singleton _)
  | cons next later =>
    by_cases hnext : next = ⟨[], .feed⟩
    · exact .inr ⟨later, by rw [hnext]⟩
    · exact .inl (.cons_cons (fun _ => hnext) hlines)

/-- **One character more.**  The layout stays one. -/
lemma Fits.prepend (h : layout.Fits cs) (c : Char) : (layout.prepend c).Fits (c :: cs) := by
  obtain ⟨lines, last⟩ := layout
  by_cases hfeed : c = '\n'
  · subst hfeed
    have hapart : (⟨[], .feed⟩ :: lines).IsChain Apart := isChain_cons_of_ne (by decide) h.apart
    exact fits_cons_iff.2 ⟨cs, rfl, unbroken_nil, hapart, h⟩
  by_cases hreturn : c = '\r'
  · subst hreturn
    rcases isChain_loneReturn_or h.apart with hapart | ⟨later, rfl⟩
    · rw [prepend_return hapart]
      exact fits_cons_iff.2 ⟨cs, rfl, unbroken_nil, hapart, h⟩
    · -- Only here does a character change what is there: the two make one line end.
      obtain ⟨ds, rfl, -, hapart, hlater⟩ := fits_cons_iff.1 h
      have hapart' : (⟨[], .returnFeed⟩ :: later).IsChain Apart :=
        isChain_cons_of_ne (by decide) hapart.tail
      rw [prepend_return_feed]
      exact fits_cons_iff.2 ⟨ds, rfl, unbroken_nil, hapart', hlater⟩
  · have hc : ∀ ds, Unbroken ds → Unbroken (c :: ds) :=
      fun ds hds => unbroken_cons_iff.2 ⟨⟨hfeed, hreturn⟩, hds⟩
    cases lines with
    | nil =>
      obtain ⟨rfl, hlast⟩ := fits_nil_iff.1 h
      rw [prepend_of_unbroken_last (hc cs hlast)]
      exact fits_nil_iff.2 ⟨rfl, hc cs hlast⟩
    | cons line later =>
      obtain ⟨ds, rfl, hline, hapart, hlater⟩ := fits_cons_iff.1 h
      rw [prepend_of_unbroken (hc line.text hline)]
      exact fits_cons_iff.2 ⟨ds, rfl, hc line.text hline, isChain_cons_text hapart, hlater⟩

lemma fits_ofList (cs : List Char) : (ofList cs).Fits cs := by
  induction cs with
  | nil => exact fits_nil_iff.2 ⟨rfl, unbroken_nil⟩
  | cons c cs ih => exact ih.prepend c

lemma foldr_prepend_unbroken_last (h : Unbroken last) :
    last.foldr prepend {} = ⟨[], last⟩ := by
  induction last with
  | nil => rfl
  | cons c cs ih =>
    rw [List.foldr_cons, ih (unbroken_cons_iff.1 h).2, prepend_of_unbroken_last h]

lemma foldr_prepend_unbroken {ending : LineEnd} (h : Unbroken cs) :
    cs.foldr prepend ⟨⟨[], ending⟩ :: lines, last⟩ = ⟨⟨cs, ending⟩ :: lines, last⟩ := by
  induction cs with
  | nil => rfl
  | cons c cs ih =>
    rw [List.foldr_cons, ih (unbroken_cons_iff.1 h).2, prepend_of_unbroken h]

/-- **A line stays whole.**  It is what its characters become before the other lines. -/
lemma foldr_prepend_content (hline : Unbroken line.text) (hapart : (line :: lines).IsChain Apart) :
    line.content.foldr prepend ⟨lines, last⟩ = ⟨line :: lines, last⟩ := by
  obtain ⟨text, ending⟩ := line
  have hending : ending.content.foldr prepend ⟨lines, last⟩ =
      ⟨⟨[], ending⟩ :: lines, last⟩ := by
    cases ending with
    | feed => rfl
    | loneReturn => exact prepend_return (isChain_cons_text hapart)
    | returnFeed => rfl
  rw [Line.content, List.foldr_append, hending, foldr_prepend_unbroken hline]

/-- **No choice.**  Whatever fits is what the text is laid out as. -/
lemma Fits.eq_ofList (h : layout.Fits cs) : layout = ofList cs := by
  obtain ⟨lines, last⟩ := layout
  induction lines generalizing cs with
  | nil =>
    obtain ⟨rfl, hlast⟩ := fits_nil_iff.1 h
    exact (foldr_prepend_unbroken_last hlast).symm
  | cons line lines ih =>
    obtain ⟨ds, rfl, hline, hapart, hlater⟩ := fits_cons_iff.1 h
    have hds : ds.foldr Layout.prepend {} = ⟨lines, last⟩ := (ih hlater).symm
    rw [ofList, List.foldr_append, hds, foldr_prepend_content hline hapart]

/-- **One layout.**  Every text has one, and no text has two. -/
lemma fits_iff : layout.Fits cs ↔ layout = ofList cs := by
  constructor
  · exact Fits.eq_ofList
  · rintro rfl
    exact fits_ofList cs

example : ofList "é\r\n\r\n\n\rx".toList =
    ⟨[⟨['é'], .returnFeed⟩, ⟨[], .returnFeed⟩, ⟨[], .feed⟩, ⟨[], .loneReturn⟩], ['x']⟩ := by
  decide

/-! ## Counts -/

lemma lineEnds_append_of_unbroken (h : Unbroken cs) (ds : List Char) :
    lineEnds (cs ++ ds) = lineEnds ds := by
  induction cs with
  | nil => rfl
  | cons c cs ih =>
    obtain ⟨⟨hfeed, hreturn⟩, hcs⟩ := unbroken_cons_iff.1 h
    simp [lineEnds, hfeed, hreturn, ih hcs]

lemma lineEnds_ending_append (ending : LineEnd)
    (h : ending = .loneReturn → ds.head? ≠ some '\n') :
    lineEnds (ending.content ++ ds) = lineEnds ds + 1 := by
  cases ending with
  | feed => simp [LineEnd.content, lineEnds]
  | loneReturn => simp [LineEnd.content, lineEnds, h rfl]
  | returnFeed => simp [LineEnd.content, lineEnds]

/-- A text that begins with a line feed begins with a line that nothing else is in. -/
lemma Fits.head?_eq_of_feed (h : layout.Fits ('\n' :: cs)) :
    layout.lines.head? = some ⟨[], .feed⟩ := by
  obtain ⟨lines, last⟩ := layout
  cases lines with
  | nil =>
    obtain ⟨rfl, hlast⟩ := fits_nil_iff.1 h
    exact absurd rfl (unbroken_cons_iff.1 hlast).1.1
  | cons line lines =>
    obtain ⟨ds, hcs, hline, -⟩ := fits_cons_iff.1 h
    obtain ⟨text, ending⟩ := line
    cases text with
    | nil =>
      cases ending with
      | feed => rfl
      | loneReturn => simp [Line.content, LineEnd.content] at hcs
      | returnFeed => simp [Line.content, LineEnd.content] at hcs
    | cons c text =>
      obtain rfl : '\n' = c := (List.cons.inj hcs).1
      exact absurd rfl (unbroken_cons_iff.1 hline).1.1

lemma Fits.lineEnds_eq (h : layout.Fits cs) : lineEnds cs = layout.lines.length := by
  obtain ⟨lines, last⟩ := layout
  induction lines generalizing cs with
  | nil =>
    obtain ⟨rfl, hlast⟩ := fits_nil_iff.1 h
    simpa [lineEnds] using lineEnds_append_of_unbroken hlast []
  | cons line lines ih =>
    obtain ⟨ds, rfl, hline, hapart, hlater⟩ := fits_cons_iff.1 h
    have hnext : line.ending = .loneReturn → ds.head? ≠ some '\n' := by
      intro hreturn hfeed
      obtain ⟨rest, rfl⟩ := List.head?_eq_some_iff.1 hfeed
      exact (List.isChain_cons.1 hapart).1 _ hlater.head?_eq_of_feed hreturn rfl
    rw [Line.content, List.append_assoc, lineEnds_append_of_unbroken hline,
      lineEnds_ending_append _ hnext, ih hlater, List.length_cons]

lemma lastLine_append_of_unbroken (cs : List Char) (h : Unbroken ds) :
    lastLine (cs ++ ds) = lastLine cs ++ ds := by
  induction ds using List.reverseRecOn with
  | nil => simp
  | append_singleton ds x ih =>
    have hx : endsLine x = false := h x (by simp)
    have hds : Unbroken ds := fun c hc => h c (by simp [hc])
    rw [← List.append_assoc, lastLine_concat, ih hds, hx]
    simp

/-- A line is over at a character that ends lines. -/
lemma exists_content_eq_concat (line : Line) :
    ∃ before x, endsLine x = true ∧ line.content = before ++ [x] := by
  obtain ⟨text, ending⟩ := line
  cases ending with
  | feed => exact ⟨text, '\n', rfl, rfl⟩
  | loneReturn => exact ⟨text, '\r', rfl, rfl⟩
  | returnFeed => exact ⟨text ++ ['\r'], '\n', rfl, by simp [Line.content, LineEnd.content]⟩

lemma lastLine_append_content (cs : List Char) (line : Line) :
    lastLine (cs ++ line.content) = [] := by
  obtain ⟨before, x, hx, hcontent⟩ := exists_content_eq_concat line
  rw [hcontent, ← List.append_assoc, lastLine_concat, if_pos hx]

lemma Fits.lastLine_eq (h : layout.Fits cs) : lastLine cs = layout.last := by
  rw [← h.content_eq, content, lastLine_append_of_unbroken _ h.unbroken_last]
  rcases List.eq_nil_or_concat' layout.lines with hlines | ⟨before, line, hlines⟩
  · rw [hlines]
    rfl
  · rw [hlines, List.flatMap_append, List.flatMap_singleton, lastLine_append_content,
      List.nil_append]

lemma Fits.any_endsLine_iff (h : layout.Fits cs) :
    cs.any endsLine = true ↔ layout.lines ≠ [] := by
  obtain ⟨lines, last⟩ := layout
  cases lines with
  | nil =>
    obtain ⟨rfl, hlast⟩ := fits_nil_iff.1 h
    simpa [Unbroken] using hlast
  | cons line lines =>
    obtain ⟨ds, rfl, -⟩ := fits_cons_iff.1 h
    obtain ⟨before, x, hx, hcontent⟩ := exists_content_eq_concat line
    simp [hcontent, hx]

end Layout

/-! ## Cursors -/

namespace Cursor

/-- The cuts make no difference. -/
lemma foldl_advance (c : Cursor) (texts : List String) :
    texts.foldl advance c = c.advance (String.join texts) := by
  induction texts generalizing c with
  | nil => rfl
  | cons text texts ih => rw [List.foldl_cons, ih, String.join_cons, advance_append]

/-- **Along the lines.**  The cursor after a text, read off the layout of what is counted of it. -/
lemma advance_eq_of_fits {c : Cursor} {text : String} {layout : Layout}
    (h : layout.Fits (c.counted text.toList)) :
    c.advance text =
      { line := addSaturating c.line layout.lines.length
        column := addSaturating (if layout.lines = [] then c.column else 0)
          (String.ofList layout.last).utf8ByteSize
        afterReturn := c.endsAfterReturn text.toList } := by
  have hlast : utf8Length layout.last = (String.ofList layout.last).utf8ByteSize := by
    rw [← utf8Length_toList, String.toList_ofList]
  have hstart : (if (c.counted text.toList).any endsLine then 0 else c.column) =
      if layout.lines = [] then c.column else 0 := by
    simp only [h.any_endsLine_iff, ne_eq, ite_not]
  rw [advance, foldl_advanceChar, h.lineEnds_eq, h.lastLine_eq, hlast, hstart]

/-- **A cursor is exact.**  Any cursor comes to the same place whether it goes through texts one by
one or through all of them at once.  There is one layout of what is counted of the texts.  The line
has grown by the lines that are over in it.  The column is the length of what has begun after them,
added to the column from before if no line is over.  Neither goes beyond the largest number that
there is room for.  The cursor remembers a carriage return that came last, also one from before if
the texts are empty. -/
theorem advance_exact (c : Cursor) (texts : List String) :
    texts.foldl advance c = c.advance (String.join texts) ∧
      ∃ layout : Layout,
        (∀ other : Layout, other.Fits (c.counted (String.join texts).toList) ↔ other = layout) ∧
        (c.advance (String.join texts)).line.toNat =
          min (c.line.toNat + layout.lines.length) (UInt32.size - 1) ∧
        (c.advance (String.join texts)).column.toNat =
          min ((if layout.lines = [] then c.column.toNat else 0) +
            (String.ofList layout.last).utf8ByteSize) (UInt32.size - 1) ∧
        (c.advance (String.join texts)).afterReturn =
          c.endsAfterReturn (String.join texts).toList := by
  refine ⟨foldl_advance c texts, Layout.ofList (c.counted (String.join texts).toList),
    fun other => Layout.fits_iff, ?_⟩
  rw [advance_eq_of_fits (Layout.fits_ofList _)]
  refine ⟨toNat_addSaturating .., ?_, rfl⟩
  rw [toNat_addSaturating, apply_ite UInt32.toNat, UInt32.toNat_zero]

/-- The line feed closes the carriage return from before, and the column runs full. -/
example : ["\n", "né"].foldl advance ⟨7, 4294967293, true⟩ = ⟨7, 4294967295, false⟩ := by
  decide

end Cursor

end Lexing
