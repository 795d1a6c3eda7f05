import LispSession.Text.Lines
import LispSession.Session

/-! # The console

Lines are read and evaluated as they complete statements. A line is kept together with
those before it for as long as the text of them all ends in the middle of a statement;
any other text is evaluated as a whole, in the environment that the one before has left,
and what was kept is dropped. -/

namespace LispSession

/-- What the console remembers from line to line. -/
structure Console where
  env : Environment
  /-- The lines that wait for more, each with its end. -/
  pending : String

/-- Why the lines of a stream could not all be read. -/
inductive ReadFailure where
  /-- A line is not text. -/
  | notText

/-- The failure in words. -/
def ReadFailure.message : ReadFailure → String
  | notText => "stream did not contain valid UTF-8"

/-- What has been written, and why reading has stopped if not at the end. -/
structure Transcript where
  output : String
  errors : String
  failure : Option ReadFailure

/-- The evaluation failed because its text ends too early. -/
def Evaluation.isIncomplete (evaluation : Evaluation) : Bool :=
  match evaluation.error with
  | some (.parse e) => e.isIncomplete
  | _ => false

namespace Transcript

/-- Nothing has been written. -/
def empty : Transcript := ⟨"", "", none⟩

/-- Write the lines of an evaluation, and its error. -/
def add (t : Transcript) (evaluation : Evaluation) : Transcript :=
  { t with
    output := evaluation.output.foldl (fun text line => text ++ line ++ "\n") t.output
    errors := match evaluation.error with
      | some e => t.errors ++ e.message ++ "\n"
      | none => t.errors }

end Transcript

namespace Console

/-- No line has been read. -/
def start (interpreter : Interpreter) : Console := ⟨interpreter.environment, ""⟩

/-- Read one line. The result is an evaluation, or nothing where more lines are
    needed. -/
def feed (interpreter : Interpreter) (console : Console) (line : String) :
    Console × Option Evaluation :=
  let text := console.pending ++ line ++ "\n"
  let evaluation := interpreter.evaluate console.env text
  if evaluation.isIncomplete then (⟨evaluation.env, text⟩, none)
  else (⟨evaluation.env, ""⟩, some evaluation)

/-- What is written about lines that wait for more when there are no more. -/
def unfinishedNotice : String := "incomplete input at end of stream"

/-- The notice is due at the end of the lines. -/
def isUnfinished (console : Console) : Bool := !Text.isAllBlank console.pending

/-- Read lines to their end, or to the first one that is not text. -/
def readLines (interpreter : Interpreter) (console : Console) (t : Transcript) :
    List (Option String) → Transcript
  | [] =>
    if console.isUnfinished then { t with errors := t.errors ++ unfinishedNotice ++ "\n" } else t
  | none :: _ => { t with failure := some .notText }
  | some line :: lines =>
    match console.feed interpreter line with
    | (console, none) => console.readLines interpreter t lines
    | (console, some evaluation) => console.readLines interpreter (t.add evaluation) lines

/-- The transcript of a whole stream. -/
def run (interpreter : Interpreter) (bytes : List UInt8) : Transcript :=
  (start interpreter).readLines interpreter .empty (Text.lines bytes)

end Console

end LispSession
