import LispSession.Environment
import LispSession.Eval.Error
import LispSession.Value.Render

/-! # Outcomes

What an evaluation step changes, and how it ends. An outcome holds the state after the
step in either case: what was done before an error stays done. -/

namespace LispSession

/-- What evaluation reads and changes: the environment, and the lines written so far. -/
structure State where
  env : Environment
  output : Array String

namespace State

/-- The name of a symbol. -/
def nameOf (s : State) (symbol : Symbol) : String := s.env.symbols.nameOf symbol

/-- The text of a value. -/
def render (s : State) (value : Value) : String := value.render s.env.symbols

/-- Write a line. -/
def write (s : State) (line : String) : State := { s with output := s.output.push line }

end State

/-- How a step ends, and the state it leaves. -/
inductive Outcome (α : Type) where
  | value (a : α) (s : State)
  | error (e : EvalError) (s : State)

namespace Outcome

variable {α : Type}

/-- The state that is left. -/
def state : Outcome α → State
  | value _ s => s
  | error _ s => s

/-- The outcome of a step that leaves the state as it is. -/
def ofExcept (s : State) : Except EvalError α → Outcome α
  | .ok a => value a s
  | .error e => error e s

/-- The outcome with the environment changed at the end. -/
def mapEnv (f : Environment → Environment) : Outcome α → Outcome α
  | value a s => value a { s with env := f s.env }
  | error e s => error e { s with env := f s.env }

/-- The state after a value. -/
@[simp] theorem state_value (a : α) (s : State) : (value a s).state = s := rfl

/-- The state after an error. -/
@[simp] theorem state_error (e : EvalError) (s : State) :
    (error e s : Outcome α).state = s := rfl

/-- Turning a result into an outcome leaves the state as it is. -/
@[simp] theorem state_ofExcept (s : State) (r : Except EvalError α) :
    (ofExcept s r).state = s := by
  cases r <;> rfl

/-- Changing the environment of an outcome changes that of its state. -/
@[simp] theorem state_mapEnv (f : Environment → Environment) (o : Outcome α) :
    (o.mapEnv f).state = { o.state with env := f o.state.env } := by
  cases o <;> rfl

end Outcome

end LispSession
