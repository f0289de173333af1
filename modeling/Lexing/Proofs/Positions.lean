import Lexing.Proofs.Chunking
import Lexing.Proofs.Coverage
import Lexing.Proofs.Lines
import Lexing.Proofs.Silence

/-!
# Positions are exact

A token has the position of the place in the text where what it stands for begins, through any
number of passes and for any cuts of the text.

The cursor gives each symbol of a text the position after all that was read before it
(`Cursor.placed_place`).  A pass hands this on: its tokens have their positions from the first
symbols of their blocks, and a token keeps its position when it becomes a symbol
(`Pipeline.Covers.placed`).  Nothing may be pending at first, since a token would stand for that
too.

Some pipelines never hand out a token (`Pipeline.Silent`).  Of the others no call fails, and the
main result `Pipeline.exists_positions` is read off from what a run covers.
-/

namespace Lexing

variable {α : Type}

/-! ## Items in place -/

/-- Each item has the position that is its due after what was read before it: `read` and what the
items before it stand for. -/
def Placed (place : List Symbol → Option Position) (position : α → Option Position) :
    List Symbol → List (Spanned α) → Prop
  | _, [] => True
  | read, x :: xs => position x.item = place read ∧ Placed place position (read ++ x.span) xs

section Placed

variable {place : List Symbol → Option Position} {position : α → Option Position}
  {read : List Symbol}

lemma placed_append_iff {xs ys : List (Spanned α)} :
    Placed place position read (xs ++ ys) ↔
      Placed place position read xs ∧ Placed place position (read ++ xs.flatMap (·.span)) ys := by
  induction xs generalizing read with
  | nil => simp [Placed]
  | cons x xs ih => simp [Placed, ih, and_assoc, List.append_assoc]

lemma Placed.map_wrapped {outs : List (Spanned Token)}
    (h : Placed place Token.position read outs) :
    Placed place Symbol.position read (outs.map .wrapped) := by
  induction outs generalizing read with
  | nil => trivial
  | cons out outs ih => exact ⟨h.1, ih h.2⟩

/-- The token of a block has the position of its first symbol. -/
lemma Placed.of_makesSpanned {t : StateTable} {blocks : List (List (Spanned Symbol))}
    {outs : List (Spanned Token)} (hmakes : List.Forall₂ t.MakesSpanned blocks outs)
    (h : Placed place Symbol.position read blocks.flatten) :
    Placed place Token.position read outs := by
  induction hmakes generalizing read with
  | nil => trivial
  | @cons block out blocks outs hmake _ ih =>
    obtain ⟨⟨_, _, _, first, _, _, _, _, hfirst, _, htoken⟩, hspan⟩ := hmake
    rw [List.flatten_cons, placed_append_iff] at h
    refine ⟨?_, hspan ▸ ih h.2⟩
    cases block with
    | nil => cases hfirst
    | cons x block =>
      cases hfirst
      rw [htoken]
      exact h.1.1

end Placed

/-- Tokens are in place if the symbols are and nothing was pending before. -/
theorem Pipeline.Covers.placed {s : Shape} {p : Pipeline s} {ins : List (Spanned Symbol)}
    {outs : List (Spanned Token)} {place : List Symbol → Option Position} {read : List Symbol}
    (h : p.Covers ins outs) (hidle : p.Every Tokenizer.Idle)
    (hins : Placed place Symbol.position read ins) : Placed place Token.position read outs := by
  induction p generalizing ins outs with
  | single t =>
    have ht : t.Covers ins outs := h
    unfold Tokenizer.Covers at ht
    split at ht
    · rename_i machine hmachine
      obtain ⟨blocks, hmakes, hblocks⟩ := ht
      rw [Tokenizer.history_symbols_of_machine hmachine, hidle.pending_eq] at hblocks
      exact .of_makesSpanned hmakes (hblocks ▸ hins)
    · rw [ht.2]
      trivial
  | chain first second ih₁ ih₂ =>
    obtain ⟨mid, hfirst, hsecond⟩ := h
    exact ih₂ hsecond hidle.2 (ih₁ hfirst hidle.1 hins).map_wrapped

/-! ## Symbols in place -/

/-- The position after what was read. -/
def Cursor.positionAfter (c : Cursor) (file? : Option String) (read : List Symbol) :
    Option Position :=
  some ((c.advance (Symbol.textAll read)).position file?)

lemma Cursor.placed_place (start : Cursor) (file? : Option String) (segments : List Segment)
    (read : List Symbol) :
    Placed (start.positionAfter file?) Symbol.position read
      (((start.advance (Symbol.textAll read)).place file? segments).1.map .own) := by
  induction segments generalizing read with
  | nil => trivial
  | cons segment segments ih =>
    refine ⟨rfl, ?_⟩
    have h := ih (read ++ [{ segment.symbol with
      position := some ((start.advance (Symbol.textAll read)).position file?) }])
    rw [Symbol.textAll_append, Symbol.textAll_singleton, advance_append] at h
    simpa [Spanned.own] using h

namespace Tokenizer

variable {t : Tokenizer} {specials : List Char} {texts : List String}

/-- The symbols of several texts are placed as if they came in one. -/
lemma symbolsAll_map_text (hmode : t.config.mode = .character) :
    t.symbolsAll specials (texts.map .text) =
      (t.cursor.place t.config.file? (texts.flatMap (Segment.split specials))).1 := by
  induction texts generalizing t with
  | nil => rfl
  | cons text texts ih =>
    have hrest := ih (t := { t with
      cursor := (t.cursor.place t.config.file? (Segment.split specials text)).2 }) hmode
    rw [List.map_cons, symbolsAll, symbols_text hmode, List.flatMap_cons, Cursor.place_append]
    exact congrArg (_ ++ ·) hrest

/-- From the start of a stream they are in place. -/
lemma Begins.placed_symbolsAll (h : t.Begins) (hmode : t.config.mode = .character)
    (specials : List Char) (texts : List String) :
    Placed (Cursor.positionAfter {} t.config.file?) Symbol.position []
      ((t.symbolsAll specials (texts.map .text)).map .own) := by
  rw [symbolsAll_map_text hmode, h.cursor_eq]
  exact Cursor.placed_place {} _ _ []

/-- They have the text that the texts make up. -/
lemma textAll_symbolsAll (hmode : t.config.mode = .character) :
    Symbol.textAll (t.symbolsAll specials (texts.map .text)) = String.join texts := by
  rw [symbolsAll_map_text hmode, ← String.toList_inj, Cursor.toList_textAll_place]
  induction texts with
  | nil => rfl
  | cons text texts ih =>
    rw [List.flatMap_cons, List.flatMap_append, Segment.flatMap_toList_split, ih,
      String.join_cons, String.toList_append]

end Tokenizer

/-! ## Where a stream begins -/

namespace Pipeline

variable {s : Shape} {p : Pipeline s}

/-- The pipeline is at the start of a text: its first pass reads texts and begins a stream, and
nothing is pending in the others. -/
structure Fresh (p : Pipeline s) : Prop where
  linked : p.Linked
  mode_eq : p.head.config.mode = .character
  begins : p.head.Begins
  idle : p.Every Tokenizer.Idle

/-- This is so when all passes have just been made or restarted. -/
lemma Fresh.of_begins (hlinked : p.Linked) (hmode : p.head.config.mode = .character)
    (h : p.Every Tokenizer.Begins) : p.Fresh :=
  ⟨hlinked, hmode, h.head, h.mono fun _ ht => ht.toIdle⟩

/-! ## Positions -/

/-- The symbols of texts have the positions after what was read before them. -/
lemma Fresh.placed_symbolsOf (h : p.Fresh) (texts : List String) :
    Placed (Cursor.positionAfter {} p.head.config.file?) Symbol.position []
      ((p.symbolsOf (texts.map .text)).map .own) := by
  unfold symbolsOf
  split
  · exact h.begins.placed_symbolsAll h.mode_eq _ texts
  · trivial

lemma Takes.textAll_symbolsOf (h : p.Takes) (hmode : p.head.config.mode = .character)
    (texts : List String) :
    Symbol.textAll (p.symbolsOf (texts.map .text)) = String.join texts := by
  obtain ⟨machine, hmachine⟩ := h.every.head.exists_machine
  simp only [symbolsOf, hmachine]
  exact Tokenizer.textAll_symbolsAll hmode

/-- **Positions are exact.**  Take a pipeline of any shape at the start of a text, whatever its
lexicons are, and cut the text in any way.  Either no token is ever handed out, since some pass
takes no chunks.  Or the tokens stand for consecutive stretches of the text, and each token has the
position after the text of those before it. -/
theorem exists_positions (h : p.Fresh) (texts : List String) :
    ¬ p.Takes ∧ p.emitted (texts.map .text) = [] ∨
      ∃ outs, outs.map (·.item) = p.emitted (texts.map .text) ∧
        p.Covers ((p.symbolsOf (texts.map .text)).map .own) outs ∧
        Symbol.textAll (outs.flatMap (·.span)) = String.join texts ∧
        ∀ before out after, outs = before ++ out :: after →
          out.item.position =
            some (.after p.head.config.file? (Symbol.textAll (before.flatMap (·.span)))) := by
  by_cases htakes : p.Every Tokenizer.Takes
  · right
    have hp : p.Takes := ⟨h.linked, htakes⟩
    have hchunks : ∀ chunk ∈ texts.map Chunk.text, chunk.Suits p.mode := by
      simpa [Chunk.Suits, mode_eq_head] using fun _ _ => h.mode_eq
    obtain ⟨tokens, q, hrun⟩ := hp.exists_readAll hchunks
    obtain ⟨outs, houts, hcovers, hspans⟩ := exists_covers_own h.linked hp.every_open hrun
    refine ⟨outs, houts.trans (emitted_of_readAll hrun).symm, hcovers, ?_, ?_⟩
    · rw [hspans, hp.textAll_symbolsOf h.mode_eq]
    · rintro before out after rfl
      have hplaced := hcovers.placed h.idle (h.placed_symbolsOf texts)
      obtain ⟨_, hout, _⟩ := placed_append_iff.1 hplaced
      rw [hout, Cursor.positionAfter, List.nil_append, Cursor.position_advance_start]
  · exact .inl ⟨fun hp => htakes hp.every, emitted_of_silent (silent_of_idle h.idle htakes) _⟩

/-- Two passes over a text that is cut within a line end and within a run of marks. -/
theorem exists_positions_outline :
    ∃ outs, outs.map (·.item) = outline.emitted [.text "so\r", .text "\n#", .text "#one"] ∧
      outline.Covers
        ((outline.symbolsOf [.text "so\r", .text "\n#", .text "#one"]).map .own) outs ∧
      Symbol.textAll (outs.flatMap (·.span)) = "so\r\n##one" ∧
      ∀ before out after, outs = before ++ out :: after →
        out.item.position = some (.after none (Symbol.textAll (before.flatMap (·.span)))) := by
  have hfresh : outline.Fresh := by
    refine .of_begins takes_outline.linked rfl ⟨?_, ?_⟩
    · exact ⟨takes_outline.every.1.toOpen, rfl, rfl⟩
    · exact ⟨takes_outline.every.2.toOpen, rfl, rfl⟩
  exact (exists_positions hfresh ["so\r", "\n#", "#one"]).resolve_left fun h => h.1 takes_outline

end Pipeline

end Lexing
