import Lexing.Mode
import Lexing.Tag
import Lexing.Text.Quoted

/-!
# Errors

Three layers can refuse. A lexicon refuses a definition, an automaton refuses to run on a table
that is not total, and a pipeline refuses a chunk or passes on what the other two report. Each
error is a cause; its message, its code and its advice are functions of the cause.
-/

namespace Lexing

open Text (quote)

/-! ## Causes -/

/-- Why a lexicon cannot be configured as asked. -/
inductive LexiconError where
  | invalidKind
  | reservedKind (kind : Tag)
  | missingDefault
  | lexemeBeforeDefault (kind : Tag)
  | duplicateDefault (existing : Tag)
  | missingPattern (kind : Tag)
  | unexpectedPattern (kind : Tag)
  | nullablePattern (kind : Tag)
  | patternModeMismatch (kind : Tag) (mode : Mode) (reason : String)
  | emptySymbol (kind : Tag)
  | reservedSymbol (kind symbol : Tag)
  | invalidNotation (written reason : String)
  | invalidMode (written : String)
  | frozen
  deriving DecidableEq, Inhabited, Repr

/-- Why an automaton cannot take a step: its table lacks something. -/
inductive AutomatonError where
  | noTransition (state : String) (tag : Tag)
  | unknownState (id : Nat)
  | unknownLexeme (id : Nat)
  | emptyMatch (state : String)
  deriving DecidableEq, Inhabited, Repr

/-- The two kinds of input that a pass can be given. -/
inductive ChunkKind where
  | text
  | token
  deriving DecidableEq, Inhabited, Repr

/-- Why a pipeline refuses a call. -/
inductive PipelineError where
  | lexicon (cause : LexiconError)
  | automaton (cause : AutomatonError)
  | chunkMismatch (mode : Mode) (found : ChunkKind)
  | reservedTokenKind (kind : Tag)
  | tableModeMismatch (expected found : Mode)
  | finished
  | poisoned
  deriving DecidableEq, Inhabited, Repr

/-! ## Messages -/

namespace LexiconError

/-- The text shown to the user. -/
def message : LexiconError → String
  | invalidKind => "Lexeme type tag must be a non-empty string"
  | reservedKind kind => s!"Lexeme type tag {quote kind} is reserved"
  | missingDefault => "No default lexeme configured"
  | lexemeBeforeDefault kind => s!"Lexeme '{kind}' added before the default lexeme"
  | duplicateDefault existing => s!"Default lexeme is already set to '{existing}'"
  | missingPattern kind => s!"Lexeme '{kind}' has no pattern"
  | unexpectedPattern kind => s!"Default lexeme '{kind}' cannot have a pattern"
  | nullablePattern kind => s!"Lexeme '{kind}' can match an empty symbol sequence"
  | patternModeMismatch kind mode reason => s!"Lexeme '{kind}': {reason} in {mode.name} mode"
  | emptySymbol kind => s!"Lexeme '{kind}' has an empty pattern symbol"
  | reservedSymbol kind symbol => s!"Lexeme '{kind}' uses the reserved symbol {quote symbol}"
  | invalidNotation written reason => s!"Invalid pattern notation {quote written}: {reason}"
  | invalidMode written =>
    s!"Invalid mode {quote written}, expected \"character\" or \"token\""
  | frozen => "Lexicon is frozen: lexemes cannot change after compilation"

/-- A stable name for the cause. -/
def code : LexiconError → String
  | invalidKind => "lexicon::invalid_kind"
  | reservedKind _ => "lexicon::reserved_kind"
  | missingDefault => "lexicon::missing_default"
  | lexemeBeforeDefault _ => "lexicon::lexeme_before_default"
  | duplicateDefault _ => "lexicon::duplicate_default"
  | missingPattern _ => "lexicon::missing_pattern"
  | unexpectedPattern _ => "lexicon::unexpected_pattern"
  | nullablePattern _ => "lexicon::nullable_pattern"
  | patternModeMismatch .. => "lexicon::pattern_mode_mismatch"
  | emptySymbol _ => "lexicon::empty_symbol"
  | reservedSymbol .. => "lexicon::reserved_symbol"
  | invalidNotation .. => "lexicon::invalid_notation"
  | invalidMode _ => "lexicon::invalid_mode"
  | frozen => "lexicon::frozen"

/-- What to do about it, where there is something to say. -/
def help? : LexiconError → Option String
  | missingDefault | lexemeBeforeDefault _ =>
    some "set the default lexeme before adding any other lexeme"
  | nullablePattern _ => some "make at least one element of every alternative non-optional"
  | _ => none

end LexiconError

namespace AutomatonError

/-- The text shown to the user. -/
def message : AutomatonError → String
  | noTransition state tag => s!"No transition out of state '{state}' matches symbol {quote tag}"
  | unknownState id => s!"State {id} is not part of the state table"
  | unknownLexeme id => s!"Lexeme {id} is not part of the lexicon"
  | emptyMatch state => s!"Accept action in state '{state}' fired with an empty history"

/-- A stable name for the cause. -/
def code : AutomatonError → String
  | noTransition .. => "engine::no_transition"
  | unknownState _ => "engine::unknown_state"
  | unknownLexeme _ => "engine::unknown_lexeme"
  | emptyMatch _ => "engine::empty_match"

/-- What to do about it, where there is something to say. -/
def help? : AutomatonError → Option String
  | noTransition .. => some "every compiled state must end with a catch-all transition"
  | _ => none

end AutomatonError

/-- The name of a kind of input. -/
def ChunkKind.name : ChunkKind → String
  | text => "text"
  | token => "token"

namespace PipelineError

/-- The text shown to the user. An error of another layer keeps its own. -/
def message : PipelineError → String
  | lexicon cause => cause.message
  | automaton cause => cause.message
  | chunkMismatch mode found => s!"A {mode.name} mode pipeline cannot consume a {found.name} chunk"
  | reservedTokenKind kind =>
    s!"Upstream token kind {quote kind} is reserved for the end-of-stream sentinel"
  | tableModeMismatch expected found =>
    s!"State table was compiled for {found.name} mode but the pipeline is in {expected.name} mode"
  | finished => "Pipeline already flushed its end of stream"
  | poisoned => "Pipeline stopped after an internal consistency failure"

/-- A stable name for the cause. An error of another layer keeps its own. -/
def code : PipelineError → String
  | lexicon cause => cause.code
  | automaton cause => cause.code
  | chunkMismatch .. => "pipeline::chunk_mismatch"
  | reservedTokenKind _ => "pipeline::reserved_token_kind"
  | tableModeMismatch .. => "pipeline::table_mode_mismatch"
  | finished => "pipeline::finished"
  | poisoned => "pipeline::poisoned"

/-- What to do about it, where there is something to say. -/
def help? : PipelineError → Option String
  | lexicon cause => cause.help?
  | automaton cause => cause.help?
  | _ => none

end PipelineError

end Lexing
