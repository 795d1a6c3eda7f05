import LispSession.Proofs.Machine.Session

/-!
# Sessions, moment by moment

A session is a single run that goes through all of its texts: between two of them there is an
environment and nothing else, and within one the machine is at work on a statement while the
others wait. So what holds at some moment of a session can be compared with what holds at any
later one, in the same statement or in texts that are evaluated much later.

* `Moment.Step`            one step of a session
* `Moment.run_evaluate`    the evaluation of a text is a run
* `Moment.run_envAfter`    so is a session
* `Moment.run_of_passes`   every state that the machine goes through is met in such a run
-/

namespace LispSession

/-- A moment of a session. -/
inductive Moment where
  /-- Between two texts. -/
  | idle (env : Environment)
  /-- In a statement of a text, before the rest of its statements. -/
  | busy (m : Machine) (rest : List Expr)

namespace Moment

/-- The environment of the moment. -/
def env : Moment → Environment
  | idle env => env
  | busy m _ => m.state.env

/-- The moment before some statements. -/
def next : List Expr → State → Moment
  | [], s => idle s.env
  | e :: es, s => busy ⟨.eval e .global, [], s⟩ es

/-- Going to the next statement changes no environment. -/
@[simp] theorem env_next (es : List Expr) (s : State) : (next es s).env = s.env := by
  cases es <;> rfl

/-- One step of a session: a text is read, the machine makes a step, or a statement ends. -/
inductive Step (interpreter : Interpreter) : Moment → Moment → Prop where
  /-- The text is no program. -/
  | refused {env : Environment} {text : String} {e : ParseError}
      (h : interpreter.read env text = .error e) :
      Step interpreter (idle env) (idle (interpreter.prepare env text))
  | begun {env : Environment} {text : String} {program : List Expr}
      (h : interpreter.read env text = .ok program) :
      Step interpreter (idle env) (next program ⟨interpreter.prepare env text, #[]⟩)
  | step {m m' : Machine} (h : m.step interpreter.context = some m') (rest : List Expr) :
      Step interpreter (busy m rest) (busy m' rest)
  /-- The text of the value is written. -/
  | valued (v : Value) (s : State) (rest : List Expr) :
      Step interpreter (busy ⟨.value v, [], s⟩ rest) (next rest (s.write (s.render v)))
  | failed {e : EvalError} (h : e.isFatal = false) (s : State) (rest : List Expr) :
      Step interpreter (busy ⟨.error e, [], s⟩ rest) (next rest s)
  /-- The rest of the statements is given up. -/
  | aborted {e : EvalError} (h : e.isFatal = true) (s : State) (rest : List Expr) :
      Step interpreter (busy ⟨.error e, [], s⟩ rest) (idle s.env)

/-- Some number of steps lead from one moment to another. -/
def Run (interpreter : Interpreter) : Moment → Moment → Prop :=
  Relation.ReflTransGen (Step interpreter)

variable {interpreter : Interpreter}

/-- Runs between moments are composed. -/
theorem Run.trans {p q r : Moment} (hfirst : Run interpreter p q) (hsecond : Run interpreter q r) :
    Run interpreter p r := Relation.ReflTransGen.trans hfirst hsecond

/-- What every step keeps holds after every run. -/
theorem Run.preserves {P : Moment → Prop}
    (hstep : ∀ p q, P p → Step interpreter p q → P q) {p q : Moment}
    (hrun : Run interpreter p q) (h : P p) : P q := by
  induction hrun with
  | refl => exact h
  | tail _ hlast ih => exact hstep _ _ ih hlast

/-! ### Evaluations are runs -/

/-- The machine at work on a statement. -/
private theorem run_of_reaches {m m' : Machine} (h : Machine.Reaches interpreter.context m m')
    (rest : List Expr) : Run interpreter (busy m rest) (busy m' rest) := by
  induction h with
  | refl => exact .refl
  | tail _ hlast ih => exact .tail ih (.step hlast rest)

/-- A statement is evaluated to its outcome. -/
private theorem run_statement (interpreter : Interpreter) (e : Expr) (es : List Expr) (s : State) :
    Run interpreter (next (e :: es) s)
      (busy (Machine.after [] (evaluate interpreter.context e .global s)) es) :=
  run_of_reaches (Machine.reaches_evaluate interpreter.context e .global s) es

/-- A statement that has a value is followed by the others. -/
private theorem run_of_value {e : Expr} {s s' : State} {v : Value}
    (h : evaluate interpreter.context e .global s = .value v s') (es : List Expr) :
    Run interpreter (next (e :: es) s) (next es (s'.write (s'.render v))) := by
  have hrun := run_statement interpreter e es s
  rw [h] at hrun
  exact .tail hrun (.valued v s' es)

/-- A statement that fails is followed by the others, if the error is not fatal. -/
private theorem run_of_error {e : Expr} {s s' : State} {error : EvalError}
    (h : evaluate interpreter.context e .global s = .error error s')
    (hfatal : error.isFatal = false) (es : List Expr) :
    Run interpreter (next (e :: es) s) (next es s') := by
  have hrun := run_statement interpreter e es s
  rw [h] at hrun
  exact .tail hrun (.failed hfatal s' es)

/-- The statements of a program run from the first of them to the idle moment after the last, or to
    the fatal error. -/
private theorem run_runStatements (es : List Expr) (s : State) (first : Option EvalError) :
    Run interpreter (next es s) (idle (runStatements interpreter.context es s first).1.env) := by
  -- Induction on the statements: the run of the first ends where the run of the others begins,
  -- unless its error is fatal.
  induction es generalizing s first with
  | nil => exact .refl
  | cons e es ih =>
    rw [runStatements]
    cases hout : evaluate interpreter.context e .global s with
    | value v s' => exact (run_of_value hout es).trans (ih _ _)
    | error error s' =>
      cases hfatal : error.isFatal with
      | false =>
        simp only [hfatal, Bool.false_eq_true, if_false]
        exact (run_of_error hout hfatal es).trans (ih _ _)
      | true =>
        have hrun := run_statement interpreter e es s
        rw [hout] at hrun
        simp only [hfatal, if_true]
        exact .tail hrun (.aborted hfatal s' es)

/-- The evaluation of a text leads from the environment before it to the one after it. -/
theorem run_evaluate (env : Environment) (text : String) :
    Run interpreter (idle env) (idle (interpreter.evaluate env text).env) := by
  cases hread : interpreter.read env text with
  | error e =>
    rw [Interpreter.evaluate_of_error hread]
    exact .single (.refused hread)
  | ok program =>
    rw [Interpreter.evaluate_of_ok hread]
    exact .head (.begun hread) (run_runStatements program _ none)

/-- A session is a run. -/
theorem run_envAfter (texts : List String) :
    Run interpreter (idle .new) (idle (interpreter.envAfter texts)) :=
  List.foldlRecOn (motive := fun env => Run interpreter (idle .new) (idle env)) texts _ .refl
    fun env h text _ => h.trans (run_evaluate env text)

/-- Every state that the machine goes through in the statements is met in a run. -/
private theorem run_of_passes_next {es : List Expr} {s : State} {m : Machine}
    (h : LispSession.Passes interpreter.context es s m) :
    ∃ rest, Run interpreter (next es s) (busy m rest) := by
  induction h with
  | first hreaches => exact ⟨_, run_of_reaches hreaches _⟩
  | later hvalue _ ih =>
    obtain ⟨rest, hrun⟩ := ih
    exact ⟨rest, (run_of_value hvalue _).trans hrun⟩
  | recovered herror hfatal _ ih =>
    obtain ⟨rest, hrun⟩ := ih
    exact ⟨rest, (run_of_error herror hfatal _).trans hrun⟩

/-- Every state that the machine goes through in a text is met in a run. -/
theorem run_of_passes {env : Environment} {text : String} {m : Machine}
    (h : interpreter.Passes env text m) :
    ∃ rest, Run interpreter (idle env) (busy m rest) := by
  obtain ⟨program, hread, hpasses⟩ := h
  obtain ⟨rest, hrun⟩ := run_of_passes_next hpasses
  exact ⟨rest, .head (.begun hread) hrun⟩

end Moment

end LispSession
