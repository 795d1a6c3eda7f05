import LispSession.Proofs.Machine.Adequacy

/-!
# Sessions, step by step

A session evaluates texts one after the other, each in the environment that the one
before it has left. `Passes` holds of the states that the machine goes through while it
evaluates the statements of a text.

* `runStatements_preserves`  what every statement keeps holds after all of them
* `Passes.induct`            what holds during every statement holds throughout
* `envAfter_induct`          what every text keeps holds in every session
-/

namespace LispSession

/-- The evaluation of statements, from a state, goes through a state of the machine. -/
inductive Passes (cx : Context) : List Expr → State → Machine → Prop where
  /-- It is met in the first statement. -/
  | first {e : Expr} {es : List Expr} {s : State} {m : Machine}
      (h : Machine.Reaches cx ⟨.eval e .global, [], s⟩ m) : Passes cx (e :: es) s m
  /-- The first statement succeeds, and it is met later. -/
  | later {e : Expr} {es : List Expr} {s s' : State} {v : Value} {m : Machine}
      (hvalue : evaluate cx e .global s = .value v s')
      (h : Passes cx es (s'.write (s'.render v)) m) : Passes cx (e :: es) s m
  /-- The first statement fails without ending the evaluation, and it is met later. -/
  | recovered {e : Expr} {es : List Expr} {s s' : State} {error : EvalError} {m : Machine}
      (herror : evaluate cx e .global s = .error error s') (hfatal : error.isFatal = false)
      (h : Passes cx es s' m) : Passes cx (e :: es) s m

/-- The machine is met in the first of some statements, or after it where it does not end the
    evaluation. -/
theorem passes_cons_iff {cx : Context} {e : Expr} {es : List Expr} {s : State} {m : Machine} :
    Passes cx (e :: es) s m ↔ Machine.Reaches cx ⟨.eval e .global, [], s⟩ m ∨
      (∃ v s', evaluate cx e .global s = .value v s' ∧
        Passes cx es (s'.write (s'.render v)) m) ∨
      ∃ error s', evaluate cx e .global s = .error error s' ∧ error.isFatal = false ∧
        Passes cx es s' m := by
  constructor
  · intro h
    cases h with
    | first h => exact .inl h
    | later hvalue h => exact .inr (.inl ⟨_, _, hvalue, h⟩)
    | recovered herror hfatal h => exact .inr (.inr ⟨_, _, herror, hfatal, h⟩)
  · rintro (h | ⟨v, s', hvalue, h⟩ | ⟨error, s', herror, hfatal, h⟩)
    · exact .first h
    · exact .later hvalue h
    · exact .recovered herror hfatal h

/-- What the evaluation of a statement and the writing of a line keep holds after any
    statements. -/
theorem runStatements_preserves {cx : Context} {P : State → Prop}
    (heval : ∀ e s, P s → P (evaluate cx e .global s).state)
    (hwrite : ∀ (s : State) line, P s → P (s.write line)) (es : List Expr) {s : State}
    (first : Option EvalError) (h : P s) : P (runStatements cx es s first).1 := by
  -- Induction on the statements: a value is written before the next one, an error only noted.
  induction es generalizing s first with
  | nil => exact h
  | cons e es ih =>
    have hs := heval e s h
    simp only [runStatements]
    split
    · rename_i v s' heq
      rw [heq] at hs
      exact ih _ (hwrite s' _ hs)
    · rename_i error s' heq
      rw [heq] at hs
      split
      · exact hs
      · exact ih _ hs

/-- What holds throughout the evaluation of every statement holds throughout the
    evaluation of all of them. -/
theorem Passes.induct {cx : Context} {P : State → Prop} {Q : Machine → Prop}
    (heval : ∀ e s, P s → P (evaluate cx e .global s).state)
    (hwrite : ∀ (s : State) line, P s → P (s.write line))
    (hduring : ∀ e s m, P s → Machine.Reaches cx ⟨.eval e .global, [], s⟩ m → Q m)
    {es : List Expr} {s : State} {m : Machine} (hpasses : Passes cx es s m) (h : P s) :
    Q m := by
  -- Induction on how the machine is come by: the condition holds of the state before each
  -- statement, and so of what the statement passes through.
  induction hpasses with
  | first hreaches => exact hduring _ _ _ h hreaches
  | @later e _ s _ _ _ hvalue _ ih =>
    have hs := heval e s h
    rw [hvalue] at hs
    exact ih (hwrite _ _ hs)
  | @recovered e _ s _ _ _ herror _ _ ih =>
    have hs := heval e s h
    rw [herror] at hs
    exact ih hs

namespace Interpreter

/-- The environment in which the statements of a text start: the native functions are
    bound, and the symbols of the text are known. -/
def prepare (interpreter : Interpreter) (env : Environment) (text : String) : Environment :=
  let env := interpreter.registry.install env
  { env with symbols := (readProgram env.symbols text).symbols }

/-- What is read from a text in an environment. -/
def read (interpreter : Interpreter) (env : Environment) (text : String) :
    Except ParseError (List Expr) :=
  (readProgram (interpreter.registry.install env).symbols text).program

/-- The evaluation of a text goes through a state of the machine. -/
def Passes (interpreter : Interpreter) (env : Environment) (text : String) (m : Machine) : Prop :=
  ∃ program, interpreter.read env text = .ok program ∧
    LispSession.Passes interpreter.context program ⟨interpreter.prepare env text, #[]⟩ m

/-- The state of the machine after some steps of the first statement of a text. -/
def inFirst? (interpreter : Interpreter) (env : Environment) (text : String) (steps : Nat) :
    Option Machine :=
  match interpreter.read env text with
  | .ok (e :: _) =>
    let s : State := ⟨interpreter.prepare env text, #[]⟩
    some (Machine.run interpreter.context steps ⟨.eval e .global, [], s⟩)
  | _ => none

/-- A machine that is found by running the first statement is one that the session passes through.
    -/
theorem passes_of_inFirst? {interpreter : Interpreter} {env : Environment} {text : String}
    {steps : Nat} {m : Machine} (h : interpreter.inFirst? env text steps = some m) :
    interpreter.Passes env text m := by
  simp only [inFirst?] at h
  split at h
  · rename_i e es hread
    exact ⟨e :: es, hread, .first (Option.some.inj h ▸ Machine.reaches_run _ steps _)⟩
  · exact nomatch h

/-- The evaluations of texts one after the other. -/
def session (interpreter : Interpreter) (env : Environment) : List String → List Evaluation
  | [] => []
  | text :: texts =>
    interpreter.evaluate env text :: interpreter.session (interpreter.evaluate env text).env texts

/-- The environment that a session from a fresh one leaves. -/
def envAfter (interpreter : Interpreter) (texts : List String) : Environment :=
  texts.foldl (fun env text => (interpreter.evaluate env text).env) .new

/-- A text that is not a program is evaluated to its error. -/
theorem evaluate_of_error {interpreter : Interpreter} {env : Environment} {text : String}
    {e : ParseError} (h : interpreter.read env text = .error e) :
    interpreter.evaluate env text = ⟨#[], some (.parse e), interpreter.prepare env text⟩ := by
  simp only [read] at h
  simp only [evaluate, h]
  rfl

/-- The evaluation of a program runs its statements. -/
theorem evaluate_of_ok {interpreter : Interpreter} {env : Environment} {text : String}
    {program : List Expr} (h : interpreter.read env text = .ok program) :
    interpreter.evaluate env text =
      let run := runStatements interpreter.context program
        ⟨interpreter.prepare env text, #[]⟩ none
      ⟨run.1.output, run.2, run.1.env⟩ := by
  simp only [read] at h
  simp only [evaluate, h]
  rfl

/-- What the preparation of a text and the evaluation of a statement keep holds after
    the evaluation of a text. -/
theorem evaluate_preserves {interpreter : Interpreter} {P : Environment → Prop}
    (hprepare : ∀ env text, P env → P (interpreter.prepare env text))
    (heval : ∀ e (s : State), P s.env →
      P (LispSession.evaluate interpreter.context e .global s).state.env)
    {env : Environment} (h : P env) (text : String) : P (interpreter.evaluate env text).env := by
  cases hread : interpreter.read env text with
  | error e =>
    rw [evaluate_of_error hread]
    exact hprepare env text h
  | ok program =>
    rw [evaluate_of_ok hread]
    exact runStatements_preserves (P := fun s => P s.env) heval (fun _ _ hs => hs) program none
      (hprepare env text h)

/-- It holds after every session, if it holds of a fresh environment. -/
theorem envAfter_induct {interpreter : Interpreter} {P : Environment → Prop} (hnew : P .new)
    (hprepare : ∀ env text, P env → P (interpreter.prepare env text))
    (heval : ∀ e (s : State), P s.env →
      P (LispSession.evaluate interpreter.context e .global s).state.env)
    (texts : List String) : P (interpreter.envAfter texts) :=
  List.foldlRecOn texts _ hnew fun _ h text _ => evaluate_preserves hprepare heval h text

end Interpreter

end LispSession
