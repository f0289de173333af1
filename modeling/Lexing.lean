import Lexing.Attribute.Description
import Lexing.Json.Stored
import Lexing.Pattern.Notation
import Lexing.Pipeline.TokenStream
import Lexing.StateTable.Diagram
import Lexing.Proofs.Accepted
import Lexing.Proofs.Narrowing
import Lexing.Proofs.Trie
import Lexing.Proofs.StateTable
import Lexing.Proofs.Totality
import Lexing.Proofs.Refinement
import Lexing.Proofs.Conservation
import Lexing.Proofs.Chart
import Lexing.Proofs.Completeness
import Lexing.Proofs.Soundness
import Lexing.Proofs.Lossless
import Lexing.Proofs.Chunking
import Lexing.Proofs.Positions
import Lexing.Proofs.Flush
import Lexing.Proofs.Streams
import Lexing.Proofs.Laziness
import Lexing.Proofs.Calls
import Lexing.Proofs.Nesting
import Lexing.Proofs.Origins
import Lexing.Proofs.Grammar
import Lexing.Proofs.Reading
import Lexing.Proofs.Writing
import Lexing.Proofs.Refusals
import Lexing.Proofs.Hollow
import Lexing.Proofs.Flow
import Lexing.Proofs.Likeness
import Lexing.Proofs.Independence
import Lexing.Proofs.Rejection
import Lexing.Proofs.Extension
import Lexing.Proofs.Registration
import Lexing.Proofs.Rewriting
import Lexing.Proofs.Beginnings
import Lexing.Proofs.Replay
import Lexing.Proofs.Nullability
import Lexing.Proofs.DeadEnds
import Lexing.Proofs.Segments
import Lexing.Proofs.Starts
import Lexing.Proofs.Drafts
import Lexing.Proofs.Names
import Lexing.Proofs.Specials
import Lexing.Proofs.Storage
import Lexing.Proofs.Drawing
import Lexing.Proofs.Layout
