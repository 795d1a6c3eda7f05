import Mathlib.Logic.Relation
import LispSession.Session

/-!
# The abstract machine

The evaluator recurs on expressions, so the values that it has computed and still needs
live on its own recursion. The machine of this file keeps them in a list of tasks: one
step starts an expression, hands a value to the innermost task, or lets an error pass
it. Every state between two steps can then be spoken about: the values in flight, the
frames that the rest of the evaluation uses, and the calls in progress.

* `step_eval` / `step_value` / `step_error`  what one step does
* `step_eq_some_iff`                         the machine steps by its transitions only
* `Reaches.unique`, `Reaches.ends`           a run that ends has one end
* `reaches_run`                              counting steps makes a run
-/

namespace LispSession

/-- What waits for the value of an expression. -/
inductive Task where
  /-- The second part of a pair is evaluated next. -/
  | consCdr (cdr : Expr) (frame : FrameId)
  /-- The pair is made with its first part. -/
  | consPair (first : Value)
  | define (name : Symbol) (frame : FrameId)
  | branch (consequent alternative : Expr) (frame : FrameId)
  | assign (name : Symbol) (frame : FrameId)
  /-- The value is dropped and the rest of a body evaluated. -/
  | body (rest : List Expr) (frame : FrameId)
  /-- The value is an argument, after those taken and before the rest. -/
  | argument (callee : Value) (name : String) (taken : List Value) (rest : List Expr)
      (frame : FrameId)
  /-- A call is in progress in this frame, and is over then. -/
  | leave (frame : FrameId)

namespace Task

/-- The frames that the task will use. -/
def frames : Task → List FrameId
  | consCdr _ frame | define _ frame | branch _ _ frame | assign _ frame | body _ frame
  | argument _ _ _ _ frame | leave frame => [frame]
  | consPair _ => []

/-- The values that the task holds. -/
def values : Task → List Value
  | consPair first => [first]
  | argument callee _ taken _ _ => callee :: taken
  | _ => []

/-- The frame of the call that the task ends. -/
def call? : Task → Option FrameId
  | leave frame => some frame
  | _ => none

/-- The state after the task is given up because of an error. -/
def unwind (cx : Context) (task : Task) (s : State) : State :=
  match task with
  | leave frame => { s with env := cx.policy.leave frame s.env }
  | _ => s

end Task

/-- The frames of the calls in progress, innermost first. -/
def callsOf (tasks : List Task) : List FrameId := tasks.filterMap Task.call?

/-- With one task more there are no fewer calls in progress. -/
theorem length_callsOf_le_cons (task : Task) (tasks : List Task) :
    (callsOf tasks).length ≤ (callsOf (task :: tasks)).length :=
  ((List.sublist_cons_self task tasks).filterMap Task.call?).length_le

/-- What the machine is about to do. -/
inductive Control where
  | eval (e : Expr) (frame : FrameId)
  | value (v : Value)
  | error (e : EvalError)

namespace Control

/-- The frames that the control will use. -/
def frames : Control → List FrameId
  | eval _ frame => [frame]
  | _ => []

/-- The values that the control holds. -/
def values : Control → List Value
  | value v => [v]
  | _ => []

end Control

/-- A state between two steps of an evaluation. The tasks are kept innermost first. -/
structure Machine where
  control : Control
  tasks : List Task
  state : State

namespace Machine

/-- The frames that the rest of the evaluation uses, those of closures apart. -/
def frames (m : Machine) : List FrameId := m.control.frames ++ m.tasks.flatMap Task.frames

/-- The values in flight: the last one computed, and those that tasks hold. -/
def values (m : Machine) : List Value := m.control.values ++ m.tasks.flatMap Task.values

/-- The frames of the calls in progress. -/
def calls (m : Machine) : List FrameId := callsOf m.tasks

/-- Where an outcome leaves the machine. -/
def after (tasks : List Task) : Outcome Value → Machine
  | .value v s => ⟨.value v, tasks, s⟩
  | .error e s => ⟨.error e, tasks, s⟩

/-- Start the expressions of a body. -/
def startBody (frame : FrameId) (tasks : List Task) (s : State) : List Expr → Machine
  | [] => ⟨.value .null, tasks, s⟩
  | [e] => ⟨.eval e frame, tasks, s⟩
  | e :: es => ⟨.eval e frame, .body es frame :: tasks, s⟩

/-- Start the body of a function in a new frame that binds its parameters, where the
    limit allows one more call. -/
def enter (cx : Context) (fn : Lambda) (home : FrameId) (args : List Value)
    (tasks : List Task) (s : State) : Machine :=
  if (callsOf tasks).length < cx.maxDepth then
    let (frame, env) := s.env.extend home
    startBody frame (.leave frame :: tasks)
      { s with env := env.defineAll frame fn.params args } fn.body
  else ⟨.error (.stackExhausted cx.maxDepth), tasks, s⟩

/-- Call a value with arguments. -/
def startCall (cx : Context) (callee : Value) (name : String) (args : List Value)
    (frame : FrameId) (tasks : List Task) (s : State) : Machine :=
  match callee with
  | .native native => after tasks (cx.registry.invoke native args frame s)
  | .closure fn home =>
    if fn.arity = args.length then enter cx fn home args tasks s
    else ⟨.error (.arity name (.oneOf [fn.arity]) args.length), tasks, s⟩
  | other => ⟨.error (.notCallable (s.render other)), tasks, s⟩

/-- Start the next argument of a call, or the call when there is none. -/
def startArgs (cx : Context) (callee : Value) (name : String) (taken : List Value)
    (frame : FrameId) (tasks : List Task) (s : State) : List Expr → Machine
  | [] => startCall cx callee name taken frame tasks s
  | e :: es => ⟨.eval e frame, .argument callee name taken es frame :: tasks, s⟩

/-- Start an expression. -/
def start (cx : Context) (frame : FrameId) (tasks : List Task) (s : State) : Expr → Machine
  | .number x => ⟨.value (.number x), tasks, s⟩
  | .string text => ⟨.value (.string text), tasks, s⟩
  | .boolean b => ⟨.value (.boolean b), tasks, s⟩
  | .variable name =>
    match s.env.lookup? frame name with
    | some v => ⟨.value v, tasks, s⟩
    | none => ⟨.error (.unbound (s.nameOf name)), tasks, s⟩
  | .quoted name => ⟨.value (.symbol name), tasks, s⟩
  | .data items => ⟨.value (Literal.listValue items), tasks, s⟩
  | .cons car cdr => ⟨.eval car frame, .consCdr cdr frame :: tasks, s⟩
  | .define name value => ⟨.eval value frame, .define name frame :: tasks, s⟩
  | .lambda fn =>
    let (closure, s) := closureIn fn frame s
    ⟨.value closure, tasks, s⟩
  | .branch condition consequent alternative =>
    ⟨.eval condition frame, .branch consequent alternative frame :: tasks, s⟩
  | .sequence body => startBody frame tasks s body
  | .assign name value => ⟨.eval value frame, .assign name frame :: tasks, s⟩
  | .apply operator arguments =>
    match evalOperator operator frame s with
    | .error e s => ⟨.error e, tasks, s⟩
    | .value (callee, name) s => startArgs cx callee name [] frame tasks s arguments

/-- Hand a value to the task that waits for it. -/
def resume (cx : Context) (v : Value) (tasks : List Task) (s : State) : Task → Machine
  | .consCdr cdr frame => ⟨.eval cdr frame, .consPair v :: tasks, s⟩
  | .consPair first => ⟨.value (.pair first v), tasks, s⟩
  | .define name frame => after tasks (bindName name v frame s)
  | .branch consequent alternative frame =>
    ⟨.eval (if v.isTruthy then consequent else alternative) frame, tasks, s⟩
  | .assign name frame => after tasks (assignName name v frame s)
  | .body rest frame => startBody frame tasks s rest
  | .argument callee name taken rest frame =>
    startArgs cx callee name (taken ++ [v]) frame tasks s rest
  | .leave frame => ⟨.value v, tasks, { s with env := cx.policy.leave frame s.env }⟩

/-- One step; nothing once a value or an error has passed all tasks. -/
def step (cx : Context) (m : Machine) : Option Machine :=
  match m.control, m.tasks with
  | .eval e frame, tasks => some (start cx frame tasks m.state e)
  | .value v, task :: tasks => some (resume cx v tasks m.state task)
  | .error e, task :: tasks => some ⟨.error e, tasks, task.unwind cx m.state⟩
  | .value _, [] => none
  | .error _, [] => none

/-- An expression under control is started. -/
@[simp] theorem step_eval (cx : Context) (e : Expr) (frame : FrameId) (tasks : List Task)
    (s : State) : step cx ⟨.eval e frame, tasks, s⟩ = some (start cx frame tasks s e) := rfl

/-- A value under control goes to the task on top. -/
@[simp] theorem step_value (cx : Context) (v : Value) (task : Task) (tasks : List Task)
    (s : State) : step cx ⟨.value v, task :: tasks, s⟩ = some (resume cx v tasks s task) := rfl

/-- An error under control unwinds the task on top. -/
@[simp] theorem step_error (cx : Context) (e : EvalError) (task : Task) (tasks : List Task)
    (s : State) :
    step cx ⟨.error e, task :: tasks, s⟩ = some ⟨.error e, tasks, task.unwind cx s⟩ := rfl

/-- With an outcome under control and no task left, the machine stops. -/
@[simp] theorem step_after_nil (cx : Context) (o : Outcome Value) :
    step cx (after [] o) = none := by
  cases o <;> rfl

/-- The transitions of the machine, one for each kind of control: an expression is started on, a
    value handed to the innermost task, and an error passes it. -/
inductive Transition (cx : Context) : Machine → Machine → Prop where
  | start (e : Expr) (frame : FrameId) (tasks : List Task) (s : State) :
    Transition cx ⟨.eval e frame, tasks, s⟩ (start cx frame tasks s e)
  | resume (v : Value) (task : Task) (tasks : List Task) (s : State) :
    Transition cx ⟨.value v, task :: tasks, s⟩ (resume cx v tasks s task)
  | unwind (e : EvalError) (task : Task) (tasks : List Task) (s : State) :
    Transition cx ⟨.error e, task :: tasks, s⟩ ⟨.error e, tasks, task.unwind cx s⟩

/-- The machine steps by its transitions only, so that an invariant has to be checked for
    these. -/
theorem step_eq_some_iff {cx : Context} {m m' : Machine} :
    m.step cx = some m' ↔ Transition cx m m' := by
  constructor
  · intro h
    obtain ⟨control, tasks, s⟩ := m
    cases control with
    | eval e frame =>
      obtain rfl := Option.some.inj h
      exact .start e frame tasks s
    | value v =>
      cases tasks with
      | nil => exact nomatch h
      | cons task tasks =>
        obtain rfl := Option.some.inj h
        exact .resume v task tasks s
    | error e =>
      cases tasks with
      | nil => exact nomatch h
      | cons task tasks =>
        obtain rfl := Option.some.inj h
        exact .unwind e task tasks s
  · intro h
    cases h <;> rfl

/-- The outcome under control is all that a machine after an outcome adds to its tasks. -/
theorem after_inj {tasks : List Task} {o o' : Outcome Value} (h : after tasks o = after tasks o') :
    o = o' := by
  cases o with
  | value v s =>
    cases o' with
    | value w s' => cases h; rfl
    | error e s' => cases h
  | error e s =>
    cases o' with
    | value w s' => cases h
    | error e' s' => cases h; rfl

/-- Some number of steps lead from one state of the machine to another. -/
def Reaches (cx : Context) : Machine → Machine → Prop :=
  Relation.ReflTransGen fun m m' => m.step cx = some m'

/-- A step and a run after it are a run. -/
theorem Reaches.head {cx : Context} {m₁ m₂ m₃ : Machine} (hstep : m₁.step cx = some m₂)
    (hrun : Reaches cx m₂ m₃) : Reaches cx m₁ m₃ :=
  Relation.ReflTransGen.head hstep hrun

/-- A property that every step keeps holds after every run. -/
theorem Reaches.preserves {cx : Context} {P : Machine → Prop}
    (hstep : ∀ m m', P m → m.step cx = some m' → P m') {m m' : Machine}
    (hrun : Reaches cx m m') (h : P m) : P m' := by
  induction hrun with
  | refl => exact h
  | tail _ hlast ih => exact hstep _ _ ih hlast

/-- The machine does one thing only, so a run that ends has one end. -/
theorem Reaches.unique {cx : Context} {m m₁ m₂ : Machine} (h₁ : Reaches cx m m₁)
    (h₂ : Reaches cx m m₂) (hend₁ : m₁.step cx = none) (hend₂ : m₂.step cx = none) :
    m₁ = m₂ := by
  induction h₁ using Relation.ReflTransGen.head_induction_on with
  | refl =>
    cases h₂ using Relation.ReflTransGen.head_induction_on with
    | refl => rfl
    | head hstep _ => simp [hend₁] at hstep
  -- Both runs go on with the same step.
  | head hstep _ ih =>
    cases h₂ using Relation.ReflTransGen.head_induction_on with
    | refl => simp [hend₂] at hstep
    | head hstep₂ hrun₂ =>
      rw [hstep] at hstep₂
      exact ih (Option.some.inj hstep₂ ▸ hrun₂)

/-- A run can go on to the end that another run has, if there is one. -/
theorem Reaches.ends {cx : Context} {m m₁ m₂ : Machine} (h₁ : Reaches cx m m₁)
    (h₂ : Reaches cx m m₂) (hend : m₂.step cx = none) : Reaches cx m₁ m₂ := by
  induction h₁ with
  | refl => exact h₂
  | tail _ hstep ih =>
    cases ih using Relation.ReflTransGen.head_induction_on with
    | refl => simp [hend] at hstep
    | head hstep' hrest =>
      rw [hstep] at hstep'
      exact Option.some.inj hstep' ▸ hrest

/-- The state of the machine after some steps, or where it ends before. -/
def run (cx : Context) : Nat → Machine → Machine
  | 0, m => m
  | n + 1, m =>
    match m.step cx with
    | some m' => run cx n m'
    | none => m

/-- A run of any length reaches the machine it ends in. -/
theorem reaches_run (cx : Context) (n : Nat) (m : Machine) : Reaches cx m (run cx n m) := by
  induction n generalizing m with
  | zero => exact .refl
  | succ n ih =>
    simp only [run]
    split
    · rename_i m' hstep
      exact .head hstep (ih m')
    · exact .refl

end Machine

end LispSession
