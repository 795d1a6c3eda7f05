import LispSession.Main
import LispSession.Proofs.Symbols.Listing
import LispSession.Proofs.Lexing.Modes
import LispSession.Proofs.Lexing.Positions
import LispSession.Proofs.Lexing.Literals
import LispSession.Proofs.Grammar.Accepts
import LispSession.Proofs.Grammar.Prefix
import LispSession.Proofs.Grammar.Continuation
import LispSession.Proofs.Grammar.Layout
import LispSession.Proofs.Frames.Reclaim
import LispSession.Proofs.Frames.Scopes
import LispSession.Proofs.Frames.Locality
import LispSession.Proofs.Frames.Accounting
import LispSession.Proofs.Depth.Limit
import LispSession.Proofs.Natives.Contract
import LispSession.Proofs.Natives.Equality
import LispSession.Proofs.Natives.Installation
import LispSession.Proofs.Sessions.Strays
import LispSession.Proofs.Sessions.Cells
import LispSession.Proofs.Sessions.References
import LispSession.Proofs.Sessions.Interned
import LispSession.Proofs.Sessions.Calls
import LispSession.Proofs.Rendering.ReadBack
import LispSession.Proofs.Rendering.Unambiguous
import LispSession.Proofs.Console.Batch
import LispSession.Proofs.Console.Chunks
