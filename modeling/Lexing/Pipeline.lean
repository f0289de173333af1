import Lexing.Tokenizer

/-!
# Pipelines

Passes can be chained: every token of the first is a chunk of the second, which has to be in token
mode. A chain is a pass again, so chains nest on either side. How the passes of a pipeline are put
together is its shape, which stays the same while it runs.
-/

namespace Lexing

/-- How a pipeline is put together. -/
inductive Shape where
  | single
  | chain (first second : Shape)
  deriving DecidableEq, Inhabited, Repr

/-- Tokenizers arranged in a shape. -/
inductive Pipeline : Shape → Type where
  | single (t : Tokenizer) : Pipeline .single
  | chain {s₁ s₂ : Shape} (first : Pipeline s₁) (second : Pipeline s₂) : Pipeline (.chain s₁ s₂)

/-- Feeds tokens to a pass, one chunk each, up to the first error. -/
def feedTokens {σ : Type} (consume : σ → Chunk → Except PipelineError (List Token) × σ) (pass : σ) :
    List Token → Except PipelineError (List Token) × σ
  | [] => (.ok [], pass)
  | token :: tokens =>
    match consume pass (.token token) with
    | (.error fault, pass) => (.error fault, pass)
    | (.ok out, pass) =>
      match feedTokens consume pass tokens with
      | (.error fault, pass) => (.error fault, pass)
      | (.ok more, pass) => (.ok (out ++ more), pass)

namespace Pipeline

/-- The kind of chunk that the pipeline takes. -/
def mode : {s : Shape} → Pipeline s → Mode
  | _, single t => t.config.mode
  | _, chain first _ => first.mode

/-- Chains two pipelines, if the second takes tokens. -/
def chain? {s₁ s₂ : Shape} (first : Pipeline s₁) (second : Pipeline s₂) :
    Except PipelineError (Pipeline (.chain s₁ s₂)) :=
  match second.mode with
  | .token => .ok (chain first second)
  | .character => .error (.chunkMismatch .character .token)

/-- Reads one chunk and answers with the tokens that come out at the end. -/
def consume : {s : Shape} → Pipeline s → Chunk → Except PipelineError (List Token) × Pipeline s
  | .single, single t, chunk =>
    let (result, t) := t.consume chunk
    (result, single t)
  | .chain _ s₂, chain first second, chunk =>
    match first.consume chunk with
    | (.error fault, first) => (.error fault, chain first second)
    | (.ok tokens, first) =>
      let (result, second) := feedTokens (consume (s := s₂)) second tokens
      (result, chain first second)

/-- Ends the stream. What the first pass flushes still goes through the second, which is flushed
after that. -/
def finish : {s : Shape} → Pipeline s → Except PipelineError (List Token) × Pipeline s
  | .single, single t =>
    let (result, t) := t.finish
    (result, single t)
  | .chain _ _, chain first second =>
    match first.finish with
    | (.error fault, first) => (.error fault, chain first second)
    | (.ok tokens, first) =>
      match feedTokens consume second tokens with
      | (.error fault, second) => (.error fault, chain first second)
      | (.ok out, second) =>
        match second.finish with
        | (.error fault, second) => (.error fault, chain first second)
        | (.ok more, second) => (.ok (out ++ more), chain first second)

/-- Reads a whole text and ends the stream. -/
def tokenize {s : Shape} (p : Pipeline s) (text : String) :
    Except PipelineError (List Token) × Pipeline s :=
  match p.consume (.text text) with
  | (.error fault, p) => (.error fault, p)
  | (.ok tokens, p) =>
    match p.finish with
    | (.error fault, p) => (.error fault, p)
    | (.ok more, p) => (.ok (tokens ++ more), p)

end Pipeline

end Lexing
