import Lexing.Lexicon

/-!
# Drafts of lexicons

A draft is a lexicon to which lexemes are still being added, one at a time, each of them checked
when it comes. The default lexeme has to be the first. There are two ways to go about it: a call
that reports its own error, after which the draft is as it was, and chained calls of which the
first error is kept until the end.
-/

namespace Lexing

/-- A lexicon under construction. -/
structure Draft where
  mode : Mode
  defaultLexeme? : Option Lexeme := none
  patternLexemes : List Lexeme := []
  /-- The first error of the chained calls. -/
  fault? : Option LexiconError := none
  deriving Inhabited

namespace Draft

/-- The draft without lexemes. -/
def new (mode : Mode) : Draft :=
  { mode }

/-! ## Calls that report at once -/

/-- Adds the default lexeme. -/
def setDefault (draft : Draft) (d : Definition) : Except LexiconError Draft :=
  match draft.defaultLexeme? with
  | some existing => .error (.duplicateDefault existing.kind)
  | none =>
    match d.toDefault with
    | .error fault => .error fault
    | .ok lexeme => .ok { draft with defaultLexeme? := some lexeme }

/-- Adds a lexeme with a pattern and says which number it got. -/
def add (draft : Draft) (d : Definition) : Except LexiconError (LexemeId × Draft) :=
  match draft.defaultLexeme? with
  | none => .error (.lexemeBeforeDefault d.kind)
  | some _ =>
    match d.toLexeme draft.mode with
    | .error fault => .error fault
    | .ok lexeme =>
      .ok (draft.patternLexemes.length + 1,
        { draft with patternLexemes := draft.patternLexemes ++ [lexeme] })

/-- The finished lexicon. -/
def toLexicon (draft : Draft) : Except LexiconError Lexicon :=
  match draft.fault?, draft.defaultLexeme? with
  | some fault, _ => .error fault
  | none, none => .error .missingDefault
  | none, some defaultLexeme =>
    .ok { mode := draft.mode, defaultLexeme, patternLexemes := draft.patternLexemes }

/-! ## Chained calls -/

/-- Keeps `fault` unless there is an earlier one. -/
def record (draft : Draft) (fault : LexiconError) : Draft :=
  { draft with fault? := some (draft.fault?.getD fault) }

/-- Adds the default lexeme, keeping an error for later. -/
def withDefault (draft : Draft) (d : Definition) : Draft :=
  match draft.setDefault d with
  | .ok draft => draft
  | .error fault => draft.record fault

/-- Adds a lexeme with a pattern, keeping an error for later. -/
def withLexeme (draft : Draft) (d : Definition) : Draft :=
  match draft.add d with
  | .ok (_, draft) => draft
  | .error fault => draft.record fault

/-- Adds several lexemes in order. -/
def withLexemes (draft : Draft) (ds : List Definition) : Draft :=
  ds.foldl withLexeme draft

end Draft

end Lexing
