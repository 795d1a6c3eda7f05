import LispSession.Expr.Program
import LispSession.Eval.Evaluate
import LispSession.Native.Standard

/-! # Sessions

An interpreter evaluates texts one after the other, each in the environment that the one
before it has left. A text that is not a program changes nothing but the symbols that
are known; an error in a statement ends that statement alone, unless it is fatal. -/

namespace LispSession

/-! ## Configuration -/

/-- How an interpreter evaluates. -/
structure Config where
  /-- How many calls of closures may be in progress at once. -/
  maxDepth : Nat
  policy : FramePolicy

namespace Config

/-- The limit on calls in progress where none is set. -/
def defaultMaxDepth : Nat := 5000

/-- The configuration where nothing is set. -/
def default : Config := ⟨defaultMaxDepth, .reclaim⟩

/-- The greatest limit that can be set. -/
def greatestMaxDepth : Nat := Nat.pow 2 64 - 1

/-- The name of the variable that sets the limit. -/
def maxDepthVariable : String := "LISP_NOTEBOOK_MAX_DEPTH"

/-- A count in decimal digits, after an optional plus sign. -/
def readCount? (text : String) : Option Nat :=
  let digits := match text.toList with
    | '+' :: rest => rest
    | all => all
  if digits.isEmpty || !digits.all Char.isDigit then none
  else some (Number.digitsValue 0 digits)

/-- The configuration for a setting of the limit. A setting that is no count, zero or too
    great is ignored. -/
def ofSetting (setting : Option String) : Config :=
  match setting.bind readCount? with
  | some depth =>
    if 0 < depth && depth ≤ greatestMaxDepth then { default with maxDepth := depth } else default
  | none => default

end Config

/-! ## Interpreters -/

/-- The native functions that programs can call, and a configuration. -/
structure Interpreter where
  registry : Registry
  config : Config

/-- The result of evaluating one text. -/
structure Evaluation where
  /-- The lines printed, and the text of the value of each statement that succeeded. -/
  output : Array String
  /-- The first error. -/
  error : Option EvalError
  env : Environment

/-- The message of the first error, or nothing. -/
def Evaluation.errorMessage (evaluation : Evaluation) : String :=
  (evaluation.error.map EvalError.message).getD ""

/-- Evaluate statements in order in the global frame, and write the text of each value.
    The first error is kept; a fatal one ends the evaluation. -/
def runStatements (cx : Context) : List Expr → State → Option EvalError →
    State × Option EvalError
  | [], s, first => (s, first)
  | e :: es, s, first =>
    match evaluate cx e .global s with
    | .value value s => runStatements cx es (s.write (s.render value)) first
    | .error error s =>
      if error.isFatal then (s, first.or (some error))
      else runStatements cx es s (first.or (some error))

namespace Interpreter

/-- The interpreter with the standard functions. -/
def ofConfig (config : Config) : Interpreter := ⟨Standard.registry, config⟩

/-- What stays the same throughout an evaluation. -/
def context (interpreter : Interpreter) : Context :=
  ⟨interpreter.registry, interpreter.config.maxDepth, interpreter.config.policy⟩

/-- Add a native function, in place of an earlier one of the same name. -/
def register (interpreter : Interpreter) (native : Native) : Interpreter :=
  { interpreter with registry := interpreter.registry.register native }

/-- An environment with the native functions and nothing else. -/
def environment (interpreter : Interpreter) : Environment :=
  interpreter.registry.install .new

/-- Evaluate a text in an environment, in which the native functions are bound first
    where their names are free. -/
def evaluate (interpreter : Interpreter) (env : Environment) (text : String) : Evaluation :=
  let env := interpreter.registry.install env
  let reading := readProgram env.symbols text
  let env := { env with symbols := reading.symbols }
  match reading.program with
  | .error e => ⟨#[], some (.parse e), env⟩
  | .ok program =>
    let (s, error) := runStatements interpreter.context program ⟨env, #[]⟩ none
    ⟨s.output, error, s.env⟩

/-- Evaluate a text in the environment that is given, or else in a fresh one. -/
def evaluateIn (interpreter : Interpreter) (env : Option Environment) (text : String) :
    Evaluation :=
  interpreter.evaluate (env.getD .new) text

end Interpreter

end LispSession
