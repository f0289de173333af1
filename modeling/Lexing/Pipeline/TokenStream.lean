import Lexing.Pipeline

/-!
# Tokens on demand

Instead of all at once, the tokens of a sequence of chunks can be asked for one at a time. A chunk
is pulled only when all tokens of the chunks before it have been handed out. After the last chunk
the stream is ended. An error ends the sequence: nothing more is pulled or handed out.
-/

namespace Lexing

/-- A pipeline with chunks that it has not read yet and tokens that nobody has taken yet. -/
structure TokenStream (s : Shape) where
  stage : Pipeline s
  input : List Chunk
  ready : List Token := []
  done : Bool := false

namespace TokenStream

variable {s : Shape}

/-- Tokens of `input`, none of which has been read. -/
def new (stage : Pipeline s) (input : List Chunk) : TokenStream s :=
  { stage, input }

/-- Pulls chunks until a token comes out, there is an error, or the input has ended. -/
def pull (stage : Pipeline s) :
    List Chunk → Option (Except PipelineError Token) × TokenStream s
  | [] =>
    match stage.finish with
    | (.error fault, stage) => (some (.error fault), { stage, input := [], done := true })
    | (.ok [], stage) => (none, { stage, input := [], done := true })
    | (.ok (token :: ready), stage) =>
      (some (.ok token), { stage, input := [], ready, done := true })
  | chunk :: input =>
    match stage.consume chunk with
    | (.error fault, stage) => (some (.error fault), { stage, input, done := true })
    | (.ok [], stage) => pull stage input
    | (.ok (token :: ready), stage) => (some (.ok token), { stage, input, ready })

/-- The next token, an error, or nothing once the sequence has ended. -/
def next? (it : TokenStream s) : Option (Except PipelineError Token) × TokenStream s :=
  match it.ready with
  | token :: ready => (some (.ok token), { it with ready })
  | [] => if it.done then (none, it) else pull it.stage it.input

/-- Stops early: the tokens that are ready, and those that come out when the stream is ended here
if it has not ended yet. -/
def finish (it : TokenStream s) : Except PipelineError (List Token) × Pipeline s :=
  if it.done then
    (.ok it.ready, it.stage)
  else
    match it.stage.finish with
    | (.error fault, stage) => (.error fault, stage)
    | (.ok tokens, stage) => (.ok (it.ready ++ tokens), stage)

end TokenStream

end Lexing
