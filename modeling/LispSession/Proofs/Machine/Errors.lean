import LispSession.Proofs.Frames.Natives
import LispSession.Proofs.Machine.Session
import LispSession.Proofs.Natives.Contract

/-!
# Errors of evaluation

That a text is no program is found out when it is read. The evaluation of statements fails
for other reasons only, so the error tells whether a text has been evaluated at all. That
the stack is exhausted is found out by a call, so that the error names the limit on calls.

* `Standard.raised_invoke`   native functions
* `Machine.raised_step`      one step of the machine
* `raised_evaluate`          a statement
* `raised_runStatements`     the statements of a program
-/

namespace LispSession

/-- The error comes from evaluation: it is not about the text. -/
def EvalError.Raised : EvalError → Prop
  | .parse _ => False
  | _ => True

/-- The error comes from evaluation where so many calls may be in progress at once. -/
def EvalError.RaisedAt (limit : Nat) : EvalError → Prop
  | .parse _ => False
  | .stackExhausted n => n = limit
  | _ => True

/-- An error raised at a limit is one that evaluation raises. -/
private theorem EvalError.RaisedAt.raised {limit : Nat} {e : EvalError} (h : e.RaisedAt limit) :
    e.Raised := by
  cases e with
  | parse e => exact h
  | _ => trivial

/-- If the outcome is an error, evaluation has raised it. -/
def Outcome.RaisedAt {α : Type} (limit : Nat) : Outcome α → Prop
  | .value _ _ => True
  | .error e _ => e.RaisedAt limit

namespace Standard

/-- No native function fails because of a text, or because the stack is exhausted: it fails by
    its arguments, their number or their types. -/
theorem raised_invoke {limit : Nat} (name : String) (args : List Value) (frame : FrameId)
    (s : State) : (registry.invoke name args frame s).RaisedAt limit := by
  unfold Registry.invoke
  split
  · trivial
  · rename_i native hfind
    split
    · rename_i haccepted
      have hmem := Registry.mem_ofList (List.mem_of_find?_eq_some hfind)
      -- The standard natives compute from their arguments, all but printing.
      obtain hcomputes | rfl := computes_or_print hmem
      · obtain ⟨f, hrun, hf⟩ := hcomputes.run
        rw [hrun, computing]
        cases hresult : f args with
        | ok v => trivial
        | error e =>
          obtain ⟨fault, rfl⟩ := hf args haccepted e hresult
          trivial
      · trivial
    · trivial

end Standard

/-! ### The machine -/

/-- If the control is an error, evaluation has raised it. -/
def Control.RaisedAt (limit : Nat) : Control → Prop
  | .error e => e.RaisedAt limit
  | _ => True

namespace Machine

variable {cx : Context} (hcx : cx.registry = Standard.registry)

/-- An error of an outcome stands under control. -/
private theorem raised_after {o : Outcome Value} (h : o.RaisedAt cx.maxDepth) (tasks : List Task) :
    (after tasks o).control.RaisedAt cx.maxDepth := by
  cases o with
  | value v s => trivial
  | error e s => exact h

/-- Starting a body raises no error. -/
private theorem raised_startBody (frame : FrameId) (tasks : List Task) (s : State)
    (es : List Expr) : (startBody frame tasks s es).control.RaisedAt cx.maxDepth := by
  unfold startBody
  split <;> trivial

include hcx

/-- A call raises an error of its native, of a wrong number of arguments, or of a stack that is
    exhausted. -/
private theorem raised_startCall (callee : Value) (name : String) (args : List Value)
    (frame : FrameId) (tasks : List Task) (s : State) :
    (startCall cx callee name args frame tasks s).control.RaisedAt cx.maxDepth := by
  unfold startCall
  split
  · rw [hcx]
    exact raised_after (Standard.raised_invoke _ args frame s) tasks
  · split
    · unfold enter
      split
      · exact raised_startBody _ _ _ _
      · trivial
    · trivial
  · trivial

/-- With no argument left the call is made, with one left it is evaluated. -/
private theorem raised_startArgs (callee : Value) (name : String) (taken : List Value)
    (frame : FrameId) (tasks : List Task) (s : State) (es : List Expr) :
    (startArgs cx callee name taken frame tasks s es).control.RaisedAt cx.maxDepth := by
  cases es with
  | nil => exact raised_startCall hcx callee name taken frame tasks s
  | cons e es => trivial

/-- Only an unbound name, or a call without arguments, raises an error in the first step of an
    expression. -/
private theorem raised_start (frame : FrameId) (tasks : List Task) (s : State) (e : Expr) :
    (start cx frame tasks s e).control.RaisedAt cx.maxDepth := by
  cases e with
  | «variable» name =>
    simp only [start]
    split <;> trivial
  | sequence body => exact raised_startBody frame tasks s body
  | apply operator arguments =>
    cases operator with
    | «variable» name =>
      simp only [start, evalOperator]
      cases s.env.lookup? frame name with
      | some callee => exact raised_startArgs hcx _ _ _ _ _ _ _
      | none => trivial
    | lambda fn => exact raised_startArgs hcx _ _ _ _ _ _ _
  | _ => trivial

/-- Only an assignment to an unbound name, or a call, raises an error when a task is resumed. -/
private theorem raised_resume (v : Value) (tasks : List Task) (s : State) (task : Task) :
    (resume cx v tasks s task).control.RaisedAt cx.maxDepth := by
  -- The other tasks put a value or an expression under control.
  cases task with
  | assign name frame =>
    simp only [resume, assignName]
    split <;> trivial
  | body rest frame => exact raised_startBody frame tasks s rest
  | argument callee name taken rest frame => exact raised_startArgs hcx _ _ _ _ _ _ _
  | _ => trivial

/-- No step of the machine raises an error about a text, or about another limit. -/
theorem raised_step (m m' : Machine) (h : m.control.RaisedAt cx.maxDepth)
    (hstep : m.step cx = some m') : m'.control.RaisedAt cx.maxDepth := by
  cases step_eq_some_iff.mp hstep with
  | start e frame tasks s => exact raised_start hcx frame tasks s e
  | resume v task tasks s => exact raised_resume hcx v tasks s task
  | unwind => exact h

end Machine

/-- A statement does not fail because of a text, or at another limit. -/
theorem raised_evaluate {cx : Context} (hcx : cx.registry = Standard.registry) (e : Expr)
    (frame : FrameId) (s : State) : (evaluate cx e frame s).RaisedAt cx.maxDepth := by
  have hrun := (Machine.reaches_evaluate cx e frame s).preserves
    (P := fun m => m.control.RaisedAt cx.maxDepth) (Machine.raised_step hcx) trivial
  cases ho : evaluate cx e frame s with
  | value v r => trivial
  | error error r =>
    rw [ho] at hrun
    exact hrun

/-- No more does a program: its first error is one that a statement has raised. -/
theorem raised_runStatements {cx : Context} (hcx : cx.registry = Standard.registry)
    (es : List Expr) (s : State) {first : Option EvalError} (hfirst : ∀ e ∈ first, e.Raised) :
    ∀ e ∈ (runStatements cx es s first).2, e.Raised := by
  induction es generalizing s first with
  | nil => exact hfirst
  | cons e es ih =>
    have hraised := raised_evaluate hcx e .global s
    simp only [runStatements]
    split
    · exact ih _ hfirst
    · rename_i error s' ho
      rw [ho] at hraised
      replace hraised := EvalError.RaisedAt.raised hraised
      -- An earlier error stays the first one.
      have hor : ∀ e ∈ first.or (some error), e.Raised := by
        cases first with
        | none => exact fun _ he => Option.some.inj he ▸ hraised
        | some e => exact hfirst
      split
      · exact hor
      · exact ih _ hor

end LispSession
