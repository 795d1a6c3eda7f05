import LispSession.Console

/-! # The program

The console on the standard streams: lines are read from the input as they come, values
are written to the output and errors to the error stream. -/

namespace LispSession

/-- The next line of a stream without its end, or nothing at the end of the stream. -/
def nextLine? (input : IO.FS.Stream) : IO (Option String) := do
  let line ← input.getLine
  return ((Text.lines line.toUTF8.toList).head?).join

/-- Write the lines of an evaluation, and its error. -/
def report (output errors : IO.FS.Stream) (evaluation : Evaluation) : IO Unit := do
  for line in evaluation.output do
    output.putStrLn line
  if let some e := evaluation.error then
    errors.putStrLn e.message
  output.flush

/-- Read and evaluate until the input ends. -/
partial def converse (interpreter : Interpreter) (input output errors : IO.FS.Stream)
    (console : Console) : IO Unit := do
  match ← nextLine? input with
  | none =>
    if console.isUnfinished then
      errors.putStrLn Console.unfinishedNotice
  | some line =>
    let (console, evaluation) := console.feed interpreter line
    if let some evaluation := evaluation then
      report output errors evaluation
    converse interpreter input output errors console

/-- Run the console with the configuration that the process environment gives. -/
def runConsole : IO Unit := do
  let setting ← IO.getEnv Config.maxDepthVariable
  let interpreter := Interpreter.ofConfig (Config.ofSetting setting)
  converse interpreter (← IO.getStdin) (← IO.getStdout) (← IO.getStderr)
    (Console.start interpreter)

end LispSession

/-- The program. -/
def main : IO Unit := LispSession.runConsole
