import Lexing.Automaton
import Lexing.Config
import Lexing.Cursor
import Lexing.Lexicon.Draft
import Lexing.Segment
import Lexing.StateTable.Compile

/-!
# Tokenizers

A tokenizer is one pass over a stream of chunks. In character mode a chunk is a piece of text,
which is cut into segments; in token mode it is one token of an earlier pass. The symbols made
from a chunk are driven through an automaton, and the tokens that come out are the answer.

Until the first chunk arrives lexemes can be registered. Then the lexicon is compiled and frozen.
At the end of the stream the match in progress is flushed, once; after that the tokenizer takes
no more chunks until it is restarted.

A call that can fail answers with an error or tokens, and in both cases with the tokenizer as it
is after the call.
-/

namespace Lexing

/-- A piece of input. -/
inductive Chunk where
  | text (content : String)
  | token (t : Token)
  deriving Inhabited

def Chunk.kind : Chunk → ChunkKind
  | text _ => .text
  | token _ => .token

/-- A compiled lexicon at work, with the characters that are cut out of texts. -/
structure Machine where
  automaton : Automaton
  specials : List Char
  deriving Inhabited

/-- A tokenizer either still drafts its lexicon or runs it. -/
inductive Phase where
  | drafting (draft : Draft)
  | compiled (machine : Machine)
  deriving Inhabited

/-- Whether the stream is still going on. -/
inductive Status where
  | accepting
  | finished
  /-- The automaton could not go on. -/
  | poisoned
  deriving DecidableEq, Inhabited, Repr

/-- One pass over a stream. -/
structure Tokenizer where
  config : Config
  phase : Phase
  cursor : Cursor := {}
  status : Status := .accepting
  deriving Inhabited

/-! ## Symbols of a text -/

/-- The special characters that a configuration asks for, given the lexicon. -/
def SpecialChars.resolve (s : SpecialChars) (l : Lexicon) : List Char :=
  match s with
  | .none => []
  | .explicit chars => chars
  | .fromLexicon => l.specialChars

/-- The symbols of consecutive segments, each with its position, and the cursor after them. -/
def Cursor.place (file? : Option String) (c : Cursor) : List Segment → List Symbol × Cursor
  | [] => ([], c)
  | segment :: segments =>
    let (symbols, last) := place file? (c.advance segment.content) segments
    ({ segment.symbol with position := some (c.position file?) } :: symbols, last)

namespace Machine

/-- A machine at its start. -/
def new (config : Config) (table : StateTable) : Machine :=
  { automaton := .new table, specials := config.specialChars.resolve table.lexicon }

end Machine

namespace Tokenizer

/-! ## Setting up -/

/-- A tokenizer without lexemes. -/
def new (config : Config) : Tokenizer :=
  { config, phase := .drafting (.new config.mode) }

/-- A tokenizer that runs a table compiled before, in the same mode. -/
def withTable (config : Config) (table : StateTable) : Except PipelineError Tokenizer :=
  if table.mode = config.mode then
    .ok { config, phase := .compiled (.new config table) }
  else
    .error (.tableModeMismatch config.mode table.mode)

/-- Registers the default lexeme, which has to come first. -/
def setDefault (t : Tokenizer) (d : Definition) : Except LexiconError Tokenizer :=
  match t.phase with
  | .compiled _ => .error .frozen
  | .drafting draft =>
    match draft.setDefault d with
    | .error fault => .error fault
    | .ok draft => .ok { t with phase := .drafting draft }

/-- Registers a lexeme with a pattern and says which number it got. -/
def addLexeme (t : Tokenizer) (d : Definition) : Except LexiconError (LexemeId × Tokenizer) :=
  match t.phase with
  | .compiled _ => .error .frozen
  | .drafting draft =>
    match draft.add d with
    | .error fault => .error fault
    | .ok (id, draft) => .ok (id, { t with phase := .drafting draft })

/-- Registers several lexemes up to the first that is refused. Those before it stay. -/
def addLexemes (t : Tokenizer) : List Definition → Except LexiconError (List LexemeId) × Tokenizer
  | [] => (.ok [], t)
  | d :: ds =>
    match t.addLexeme d with
    | .error fault => (.error fault, t)
    | .ok (id, t) =>
      let (ids, t) := addLexemes t ds
      (ids.map (id :: ·), t)

/-! ## Compiling -/

/-- The machine of the tokenizer, compiled now if it is not there yet. -/
def machine (t : Tokenizer) : Except LexiconError Machine :=
  match t.phase with
  | .compiled machine => .ok machine
  | .drafting draft =>
    match draft.toLexicon with
    | .error fault => .error fault
    | .ok lexicon => .ok (.new t.config lexicon.compile)

/-- Compiles the lexicon, if that has not been done, and freezes it. -/
def prepare (t : Tokenizer) : Except LexiconError Tokenizer :=
  match t.machine with
  | .error fault => .error fault
  | .ok machine => .ok { t with phase := .compiled machine }

/-- The state table, once there is one. -/
def table? (t : Tokenizer) : Option StateTable :=
  match t.phase with
  | .compiled machine => some machine.automaton.table
  | .drafting _ => none

/-! ## Reading -/

/-- The symbols of a chunk, and the cursor after it. -/
def symbols (t : Tokenizer) (specials : List Char) (chunk : Chunk) :
    Except PipelineError (List Symbol × Cursor) :=
  match t.config.mode, chunk with
  | .character, .text content =>
    .ok (t.cursor.place t.config.file? (Segment.split specials content))
  | .token, .token token =>
    if token.kind = endOfStreamTag then .error (.reservedTokenKind token.kind)
    else .ok ([.ofToken token], t.cursor)
  | mode, chunk => .error (.chunkMismatch mode chunk.kind)

/-- Runs a machine over a chunk. -/
def run (t : Tokenizer) (machine : Machine) (chunk : Chunk) :
    Except PipelineError (List Token) × Tokenizer :=
  match t.symbols machine.specials chunk with
  | .error fault => (.error fault, t)
  | .ok (symbols, cursor) =>
    match machine.automaton.driveAll symbols with
    | .error fault => (.error (.automaton fault), { t with status := .poisoned })
    | .ok (tokens, automaton) =>
      (.ok tokens, { t with phase := .compiled { machine with automaton }, cursor })

/-- Reads one chunk and answers with the tokens that it completed. -/
def consume (t : Tokenizer) (chunk : Chunk) : Except PipelineError (List Token) × Tokenizer :=
  match t.status with
  | .finished => (.error .finished, t)
  | .poisoned => (.error .poisoned, t)
  | .accepting =>
    match t.machine with
    | .error fault => (.error (.lexicon fault), t)
    | .ok machine => run { t with phase := .compiled machine } machine chunk

/-- Ends the stream and answers with the token of the match in progress, if there is one. Only the
first call after the start does anything. -/
def finish (t : Tokenizer) : Except PipelineError (List Token) × Tokenizer :=
  match t.status with
  | .finished => (.ok [], t)
  | .poisoned => (.error .poisoned, t)
  | .accepting =>
    match t.phase with
    | .drafting _ => (.ok [], { t with status := .finished })
    | .compiled machine =>
      match machine.automaton.drive .endOfStream with
      | .error fault => (.error (.automaton fault), { t with status := .poisoned })
      | .ok (tokens, automaton) =>
        (.ok tokens,
          { t with phase := .compiled { machine with automaton }, status := .finished })

/-- Starts a new stream with the same lexicon. -/
def restart (t : Tokenizer) : Tokenizer :=
  { t with
    phase :=
      match t.phase with
      | .drafting draft => .drafting draft
      | .compiled machine => .compiled { machine with automaton := machine.automaton.reset }
    cursor := {}
    status := .accepting }

end Tokenizer

end Lexing
