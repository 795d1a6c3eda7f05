import LispSession.Proofs.Frames.Natives
import LispSession.Proofs.Frames.WellFormed
import LispSession.Proofs.Machine.Session

/-!
# What every operation keeps

Evaluation changes an environment by a few operations only, and the native functions leave
it as it is. A property of environments that every operation keeps therefore holds after
every evaluation, if it held before. One operation stands apart: a frame is marked only
where a closure is created.

* `Machine.kept_step`            one step of the machine, after the marking of a frame
* `Machine.stable_step`          one step of the machine
* `Environment.Stable.evaluate`  a statement
* `Environment.Stable.install`   binding the native functions
-/

namespace LispSession

namespace Environment

/-- Every operation that evaluation uses keeps the property, the marking of frames apart. -/
structure Kept (P : Environment → Prop) : Prop where
  intern : ∀ env name, P env → P (env.intern name).2
  extend : ∀ env home, P env → P (env.extend home).2
  release : ∀ env frame, P env → P (env.release frame)
  define : ∀ env frame name value, P env → P (env.define frame name value)

/-- Every operation that evaluation uses keeps the property. -/
structure Stable (P : Environment → Prop) : Prop extends Kept P where
  capture : ∀ env frame, P env → P (env.capture frame)

namespace Kept

variable {P : Environment → Prop} (hP : Kept P)

include hP

/-- Binding the parameters of a call keeps what every definition keeps. -/
private theorem defineAll {env : Environment} (h : P env) (frame : FrameId) (names : List Symbol)
    (values : List Value) : P (env.defineAll frame names values) := by
  -- Induction on the names, one definition for each.
  induction names generalizing env values with
  | nil => exact h
  | cons name names ih =>
    cases values with
    | nil => exact h
    | cons value values => exact ih (hP.define env frame name value h) values

/-- Leaving a call keeps what a release keeps. -/
private theorem leave {env : Environment} (h : P env) (policy : FramePolicy) (frame : FrameId) :
    P (policy.leave frame env) := by
  cases policy with
  | reclaim => exact hP.release env frame h
  | retain => exact h

/-- A definition interns the name it answers with after it has bound its own. -/
private theorem bindName {s : State} (h : P s.env) (name : Symbol) (value : Value)
    (frame : FrameId) : P (LispSession.bindName name value frame s).state.env :=
  hP.intern _ _ (hP.define _ _ _ _ h)

/-- An assignment keeps what every definition keeps. -/
private theorem assignName {s : State} (h : P s.env) (name : Symbol) (value : Value)
    (frame : FrameId) : P (LispSession.assignName name value frame s).state.env := by
  unfold LispSession.assignName
  split
  · rename_i env henv
    -- An assignment is a definition in the frame that binds the name.
    obtain ⟨found, _, rfl⟩ := Option.map_eq_some_iff.mp henv
    exact hP.define _ _ _ _ h
  · exact h

end Kept

end Environment

namespace Machine

/-- The frame in which the machine is about to create a closure. -/
def closureFrame? (m : Machine) : Option FrameId :=
  match m.control with
  | .eval (.lambda _) frame => some frame
  | .eval (.apply (.lambda _) _) frame => some frame
  | _ => none

/-- The environment where the frame is marked in which a closure is about to be created. -/
def marked (m : Machine) : Environment :=
  match m.closureFrame? with
  | some frame => m.state.env.capture frame
  | none => m.state.env

variable {P : Environment → Prop} (hP : Environment.Kept P) {cx : Context}
  {tasks : List Task} {s : State}

/-- A machine after an outcome has the state of the outcome. -/
@[simp] theorem state_after (tasks : List Task) (o : Outcome Value) :
    (after tasks o).state = o.state := by
  cases o <;> rfl

/-- Starting a body changes no state. -/
@[simp] theorem state_startBody (frame : FrameId) (tasks : List Task) (s : State)
    (es : List Expr) : (startBody frame tasks s es).state = s := by
  unfold startBody
  split <;> rfl

include hP

/-- Entering a closure makes a frame and binds the parameters in it. -/
private theorem kept_enter (h : P s.env) (fn : Lambda) (home : FrameId) (args : List Value) :
    P (enter cx fn home args tasks s).state.env := by
  unfold enter
  split
  · rw [state_startBody]
    exact hP.defineAll (hP.extend s.env home h) _ _ _
  · exact h

/-- A call changes the environment by entering a closure only: the standard natives leave it as it
    is. -/
private theorem kept_startCall (hcx : cx.registry = Standard.registry) (h : P s.env)
    (callee : Value) (name : String) (args : List Value) (frame : FrameId) :
    P (startCall cx callee name args frame tasks s).state.env := by
  unfold startCall
  split
  · rw [state_after, hcx, Standard.invoke_env]
    exact h
  · split
    · exact kept_enter hP h _ _ args
    · exact h
  · exact h

/-- The environment is changed once the arguments are all there. -/
private theorem kept_startArgs (hcx : cx.registry = Standard.registry) (h : P s.env)
    (callee : Value) (name : String) (taken : List Value) (frame : FrameId) (es : List Expr) :
    P (startArgs cx callee name taken frame tasks s es).state.env := by
  cases es with
  | nil => exact kept_startCall hP hcx h callee name taken frame
  | cons e es => exact h

/-- The first step of an expression keeps what making a closure keeps: it marks the frame, and may
    go on to a call. -/
private theorem kept_start (hcx : cx.registry = Standard.registry) (e : Expr) (frame : FrameId)
    (h : P (marked ⟨.eval e frame, tasks, s⟩)) : P (start cx frame tasks s e).state.env := by
  -- A name is looked up, and the other expressions go into a task: only the last two cases reach
  -- the environment.
  cases e with
  | «variable» name =>
    simp only [start]
    split <;> exact h
  | lambda fn => exact h
  | sequence body =>
    simp only [start, state_startBody]
    exact h
  | apply operator arguments =>
    cases operator with
    | «variable» name =>
      simp only [start, evalOperator]
      cases s.env.lookup? frame name with
      | some callee => exact kept_startArgs hP hcx h _ _ _ _ _
      | none => exact h
    | lambda fn =>
      -- The operator becomes a closure first, whose frame is marked.
      exact kept_startArgs hP hcx (s := (closureIn fn frame s).2) h _ _ _ _ _
  | _ => exact h

/-- A task resumed binds a name, calls, leaves a call, or does nothing to the environment. -/
private theorem kept_resume (hcx : cx.registry = Standard.registry) (h : P s.env) (v : Value)
    (task : Task) : P (resume cx v tasks s task).state.env := by
  cases task with
  | define name frame =>
    simp only [resume, state_after]
    exact hP.bindName h name v frame
  | assign name frame =>
    simp only [resume, state_after]
    exact hP.assignName h name v frame
  | body rest frame =>
    simp only [resume, state_startBody]
    exact h
  | argument callee name taken rest frame => exact kept_startArgs hP hcx h _ _ _ _ _
  | leave frame => exact hP.leave h cx.policy frame
  | _ => exact h

/-- What holds once the closure of a step has marked its frame holds after the step. -/
theorem kept_step (hcx : cx.registry = Standard.registry) (m m' : Machine) (h : P m.marked)
    (hstep : m.step cx = some m') : P m'.state.env := by
  cases step_eq_some_iff.mp hstep with
  | start e frame => exact kept_start hP hcx e frame h
  | resume v task => exact kept_resume hP hcx h v task
  | unwind e task =>
    -- An error drops the frames of the calls that it ends.
    cases task with
    | leave frame => exact hP.leave h cx.policy frame
    | _ => exact h

omit hP

/-- One step of the machine keeps what every operation keeps. -/
theorem stable_step (hP : Environment.Stable P) (hcx : cx.registry = Standard.registry)
    (m m' : Machine) (h : P m.state.env) (hstep : m.step cx = some m') : P m'.state.env := by
  refine kept_step hP.toKept hcx m m' ?_ hstep
  unfold marked
  split
  · exact hP.capture _ _ h
  · exact h

end Machine

namespace Environment.Stable

variable {P : Environment → Prop} (hP : Stable P)

include hP

/-- A statement keeps what every operation keeps. -/
theorem evaluate {cx : Context} (hcx : cx.registry = Standard.registry) (e : Expr)
    (frame : FrameId) {s : State} (h : P s.env) :
    P (LispSession.evaluate cx e frame s).state.env := by
  have hrun := (Machine.reaches_evaluate cx e frame s).preserves
    (P := fun m => P m.state.env) (Machine.stable_step hP hcx) h
  rwa [Machine.state_after] at hrun

/-- Installing a name interns it, and defines it unless it is bound. -/
private theorem installName {env : Environment} (h : P env) (name : String) :
    P (Registry.installName env name) := by
  unfold Registry.installName
  simp only
  split
  · exact hP.intern _ _ h
  · exact hP.define _ _ _ _ (hP.intern _ _ h)

/-- Installing names keeps what installing one of them keeps. -/
private theorem installAll {env : Environment} (h : P env) (names : List String) :
    P (names.foldl Registry.installName env) := by
  induction names generalizing env with
  | nil => exact h
  | cons name names ih => exact ih (hP.installName h name)

/-- Binding the native functions keeps what every operation keeps. -/
theorem install {env : Environment} (h : P env) (registry : Registry) :
    P (registry.install env) := hP.installAll h registry.names

end Environment.Stable

end LispSession
