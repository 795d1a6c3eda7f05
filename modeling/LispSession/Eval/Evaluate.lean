import LispSession.Native.Registry

/-! # Evaluation

The value of an expression in a frame. Evaluation descends through the parts of an
expression and, at a call of a closure, into the body of a function that has no bound
on its size; only the number of calls that are in progress is bounded. So evaluation is
defined in two layers: within one call it recurs on expressions, with a given way to
enter a further call, and the way to enter calls recurs on how many more are allowed. -/

namespace LispSession

/-- What becomes of the frame of a call that is over. -/
inductive FramePolicy where
  /-- It is dropped, with those above it, unless closures may refer to them. -/
  | reclaim
  /-- It is kept. -/
  | retain
deriving DecidableEq, Repr

/-- The environment at the end of a call that made the given frame. -/
def FramePolicy.leave (policy : FramePolicy) (frame : FrameId) (env : Environment) :
    Environment :=
  match policy with
  | reclaim => env.release frame
  | retain => env

/-- What stays the same throughout an evaluation. -/
structure Context where
  registry : Registry
  /-- How many calls of closures may be in progress at once. -/
  maxDepth : Nat
  policy : FramePolicy

/-- A way to run the body of a function: with the frame it was created in, and its
    arguments, of which there are as many as parameters. -/
abbrev Entry := Lambda → FrameId → List Value → State → Outcome Value

/-- The closure of a function in a frame, which is kept from now on. -/
def closureIn (fn : Lambda) (frame : FrameId) (s : State) : Value × State :=
  (.closure fn frame, { s with env := s.env.capture frame })

/-- The function to apply, and the name by which errors call it. -/
def evalOperator (operator : Operator) (frame : FrameId) (s : State) :
    Outcome (Value × String) :=
  match operator with
  | .variable name =>
    match s.env.lookup? frame name with
    | some callee => .value (callee, s.nameOf name) s
    | none => .error (.unbound (s.nameOf name)) s
  | .lambda fn =>
    let (callee, s) := closureIn fn frame s
    .value (callee, "lambda") s

/-- Call a value with arguments. -/
def call (cx : Context) (enter : Entry) (name : String) (callee : Value) (args : List Value)
    (frame : FrameId) (s : State) : Outcome Value :=
  match callee with
  | .native native => cx.registry.invoke native args frame s
  | .closure fn home =>
    if fn.arity = args.length then enter fn home args s
    else .error (.arity name (.oneOf [fn.arity]) args.length) s
  | other => .error (.notCallable (s.render other)) s

/-- The name that the evaluation of a definition yields. -/
def definedName : String := "ok"

/-- Bind a name in a frame. -/
def bindName (name : Symbol) (value : Value) (frame : FrameId) (s : State) : Outcome Value :=
  let (ok, env) := (s.env.define frame name value).intern definedName
  .value (.symbol ok) { s with env := env }

/-- Change the value of a name, which must be bound. -/
def assignName (name : Symbol) (value : Value) (frame : FrameId) (s : State) :
    Outcome Value :=
  match s.env.assign? frame name value with
  | some env => .value value { s with env := env }
  | none => .error (.unbound (s.nameOf name)) s

mutual

/-- The value of an expression in a frame. -/
def evalExpr (cx : Context) (enter : Entry) : Expr → FrameId → State → Outcome Value
  | .number x, _, s => .value (.number x) s
  | .string text, _, s => .value (.string text) s
  | .boolean b, _, s => .value (.boolean b) s
  | .variable name, frame, s =>
    match s.env.lookup? frame name with
    | some value => .value value s
    | none => .error (.unbound (s.nameOf name)) s
  | .quoted name, _, s => .value (.symbol name) s
  | .data items, _, s => .value (Literal.listValue items) s
  | .cons car cdr, frame, s =>
    match evalExpr cx enter car frame s with
    | .error e s => .error e s
    | .value first s =>
      match evalExpr cx enter cdr frame s with
      | .error e s => .error e s
      | .value second s => .value (.pair first second) s
  | .define name value, frame, s =>
    match evalExpr cx enter value frame s with
    | .error e s => .error e s
    | .value value s => bindName name value frame s
  | .lambda fn, frame, s =>
    let (closure, s) := closureIn fn frame s
    .value closure s
  | .branch condition consequent alternative, frame, s =>
    match evalExpr cx enter condition frame s with
    | .error e s => .error e s
    | .value test s =>
      if test.isTruthy then evalExpr cx enter consequent frame s
      else evalExpr cx enter alternative frame s
  | .sequence body, frame, s => evalBody cx enter body frame s
  | .assign name value, frame, s =>
    match evalExpr cx enter value frame s with
    | .error e s => .error e s
    | .value value s => assignName name value frame s
  | .apply operator arguments, frame, s =>
    match evalOperator operator frame s with
    | .error e s => .error e s
    | .value (callee, name) s =>
      match evalArgs cx enter arguments frame s with
      | .error e s => .error e s
      | .value args s => call cx enter name callee args frame s

/-- The values of arguments, from left to right. -/
def evalArgs (cx : Context) (enter : Entry) :
    List Expr → FrameId → State → Outcome (List Value)
  | [], _, s => .value [] s
  | e :: es, frame, s =>
    match evalExpr cx enter e frame s with
    | .error e s => .error e s
    | .value arg s =>
      match evalArgs cx enter es frame s with
      | .error e s => .error e s
      | .value args s => .value (arg :: args) s

/-- The value of the last of some expressions, all evaluated in order. -/
def evalBody (cx : Context) (enter : Entry) : List Expr → FrameId → State → Outcome Value
  | [], _, s => .value .null s
  | [e], frame, s => evalExpr cx enter e frame s
  | e :: es, frame, s =>
    match evalExpr cx enter e frame s with
    | .error e s => .error e s
    | .value _ s => evalBody cx enter es frame s

end

/-- Run the body of a function in a new frame that binds its parameters, where `more`
    calls are still allowed. -/
def enterAt (cx : Context) : Nat → Entry
  | 0, _, _, _, s => .error (.stackExhausted cx.maxDepth) s
  | more + 1, fn, home, args, s =>
    let (frame, env) := s.env.extend home
    let env := env.defineAll frame fn.params args
    (evalBody cx (enterAt cx more) fn.body frame { s with env := env }).mapEnv
      (cx.policy.leave frame)

/-- The value of a statement in a frame, where no call is in progress. -/
def evaluate (cx : Context) (e : Expr) (frame : FrameId) (s : State) : Outcome Value :=
  evalExpr cx (enterAt cx cx.maxDepth) e frame s

end LispSession
