import Mathlib.Data.List.Nodup
import LispSession.Proofs.Depth.Lockstep
import LispSession.Proofs.Machine.Handed

/-!
# Calls

The machine makes a call once the operator and all arguments are evaluated. If what is called
is a closure that takes as many arguments, and the limit on calls is not reached, then a frame
is pushed that binds the parameters to the arguments, and the body of the function is evaluated
in it.

* `Machine.call?`                 the call that the machine is about to make
* `Machine.step_of_call?`         the step that makes it
* `Machine.exists_of_calls_lt`    one call more is in progress only where a closure is called
* `Environment.frames_entered`    the frame of a call binds the parameters to the arguments
* `evalBody_concat`               a body ends with its last expression
* `Machine.reaches_enter`         what becomes of a call that is entered
-/

namespace LispSession

/-! ### The frame of a call -/

/-- A name that is not bound yet is bound after all others. -/
private theorem putBinding_of_not_mem {name : Symbol} {value : Value}
    {bindings : List (Symbol × Value)} (h : name ∉ bindings.map Prod.fst) :
    putBinding name value bindings = bindings ++ [(name, value)] := by
  induction bindings with
  | nil => rfl
  | cons b bindings ih =>
    obtain ⟨other, old⟩ := b
    obtain ⟨hne, hrest⟩ := List.ne_and_not_mem_of_not_mem_cons h
    rw [putBinding, if_neg (Ne.symm hne), ih hrest, List.cons_append]

namespace Environment

/-- The last frame is changed in its place. -/
private theorem modify_push_size (frames : Array Frame) (frame : Frame) (change : Frame → Frame) :
    (frames.push frame).modify frames.size change = frames.push (change frame) := by
  refine Array.ext_getElem? fun i => ?_
  rw [Array.getElem?_modify, Array.getElem?_push, Array.getElem?_push]
  by_cases hi : i = frames.size
  · rw [if_pos hi.symm, if_pos hi, if_pos hi, Option.map_some]
  · rw [if_neg (Ne.symm hi), if_neg hi, if_neg hi]

/-- Different names are bound in the last frame, one after the other. -/
private theorem frames_defineAll_push {env : Environment} {frames : Array Frame}
    {parent : Option FrameId}
    {bindings : List (Symbol × Value)} {names : List Symbol} (values : List Value)
    (henv : env.frames = frames.push ⟨bindings, parent⟩)
    (hnodup : (bindings.map Prod.fst ++ names).Nodup) :
    (env.defineAll ⟨frames.size⟩ names values).frames =
      frames.push ⟨bindings ++ names.zip values, parent⟩ := by
  -- Induction on the names: the bindings of the last frame grow by one at a time, each for a name
  -- that is new there.
  induction names generalizing env values bindings with
  | nil =>
    rw [List.zip_nil_left, List.append_nil]
    exact henv
  | cons name names ih =>
    cases values with
    | nil =>
      rw [List.zip_nil_right, List.append_nil]
      exact henv
    | cons value values =>
      have hnew : name ∉ bindings.map Prod.fst := fun hmem =>
        List.disjoint_of_nodup_append hnodup hmem List.mem_cons_self
      have hdefine : (env.define ⟨frames.size⟩ name value).frames =
          frames.push ⟨bindings ++ [(name, value)], parent⟩ := by
        rw [define, henv, modify_push_size, Frame.put, putBinding_of_not_mem hnew]
      rw [defineAll, ih values hdefine, List.zip_cons_cons, List.append_assoc,
        List.singleton_append]
      rwa [List.map_append, List.map_singleton, List.append_assoc, List.singleton_append]

/-- The frame of a call binds the parameters to the arguments and nothing else, and no other
    frame changes. -/
theorem frames_entered (env : Environment) (home : FrameId) {params : List Symbol}
    (hnodup : params.Nodup) (args : List Value) :
    ((env.extend home).2.defineAll (env.extend home).1 params args).frames =
      env.frames.push ⟨params.zip args, some home⟩ :=
  have hempty : (env.extend home).2.frames = env.frames.push ⟨[], some home⟩ := rfl
  frames_defineAll_push args hempty hnodup

end Environment

/-! ### Bodies -/

/-- The outcome of a body is that of its last expression, once the others are evaluated. -/
theorem evalBody_concat (cx : Context) (enter : Entry) (init : List Expr) (last : Expr)
    (frame : FrameId) (s : State) :
    evalBody cx enter (init ++ [last]) frame s =
      match evalArgs cx enter init frame s with
      | .error e s => .error e s
      | .value _ s => evalExpr cx enter last frame s := by
  -- Induction on the expressions before the last: a body drops their values, an argument list
  -- collects them.
  induction init generalizing s with
  | nil => rw [List.nil_append, evalBody, evalArgs]
  | cons e init ih =>
    obtain ⟨e', es, hes⟩ := List.exists_cons_of_ne_nil (List.append_ne_nil_of_right_ne_nil init
      (List.cons_ne_nil last []))
    rw [List.cons_append, hes, evalBody, evalArgs, ← hes]
    · cases evalExpr cx enter e frame s with
      | error e s => rfl
      | value v s =>
        simp only [ih]
        cases evalArgs cx enter init frame s <;> rfl
    · exact List.cons_ne_nil e' es

/-! ### The machine -/

/-- A call: what is called, by which name, with which arguments and from which frame, what
    waits for its value, and the state in which all that is evaluated. -/
structure Call where
  callee : Value
  name : String
  args : List Value
  frame : FrameId
  tasks : List Task
  state : State

/-- The function that is called, if it is a closure, and the frame that it refers to. -/
def Call.closure? (c : Call) : Option (Lambda × FrameId) :=
  match c.callee with
  | .closure fn home => some (fn, home)
  | _ => none

/-- A callee that is seen as a closure is that closure. -/
theorem Call.callee_of_closure? {c : Call} {fn : Lambda} {home : FrameId}
    (h : c.closure? = some (fn, home)) : c.callee = .closure fn home := by
  unfold closure? at h
  split at h
  · rename_i hcallee
    cases h
    exact hcallee
  · cases h

namespace Machine

variable {cx : Context} {m m' : Machine} {c : Call}

/-- The call that the machine is about to make: no argument is left to evaluate. -/
def call? (m : Machine) : Option Call :=
  match m.control, m.tasks with
  | .eval (.apply operator []) frame, tasks =>
    match evalOperator operator frame m.state with
    | .value (callee, name) s => some ⟨callee, name, [], frame, tasks, s⟩
    | .error _ _ => none
  | .value v, .argument callee name taken [] frame :: tasks =>
    some ⟨callee, name, taken ++ [v], frame, tasks, m.state⟩
  | _, _ => none

/-- A call is about to be made where the operator is evaluated and there are no arguments, or
    where the last of them is. -/
private theorem call?_eq_some (h : m.call? = some c) :
    (∃ operator, m.control = .eval (.apply operator []) c.frame ∧ m.tasks = c.tasks ∧
      c.args = [] ∧ evalOperator operator c.frame m.state = .value (c.callee, c.name) c.state) ∨
    ∃ v taken, m.control = .value v ∧
      m.tasks = .argument c.callee c.name taken [] c.frame :: c.tasks ∧
      c.args = taken ++ [v] ∧ m.state = c.state := by
  obtain ⟨control, tasks, s⟩ := m
  unfold call? at h
  -- A call without arguments is made when its operator is evaluated, any other when its last
  -- argument has a value.
  split at h
  · rename_i operator frame hcontrol
    split at h
    · rename_i hoperator
      cases h
      exact .inl ⟨operator, hcontrol, rfl, rfl, hoperator⟩
    · cases h
  · rename_i hcontrol htasks
    cases h
    exact .inr ⟨_, _, hcontrol, htasks, rfl, rfl⟩
  · cases h

/-- A machine that is about to call makes the call in its next step. -/
theorem step_of_call? (cx : Context) (h : m.call? = some c) :
    m.step cx = some (startCall cx c.callee c.name c.args c.frame c.tasks c.state) := by
  obtain ⟨control, tasks, s⟩ := m
  rcases call?_eq_some h with ⟨operator, hcontrol, htasks, hargs, hoperator⟩ |
    ⟨v, taken, hcontrol, htasks, hargs, hstate⟩
  · simp only at hcontrol htasks hoperator
    rw [hcontrol, htasks, step_eval, start, hoperator, hargs]
    rfl
  · simp only at hcontrol htasks hstate
    rw [hcontrol, htasks, step_value, hargs, hstate]
    rfl

/-- Evaluating an operator changes no frame. -/
private theorem frames_evalOperator {operator : Operator} {frame : FrameId} {s s' : State}
    {found : Value × String} (h : evalOperator operator frame s = .value found s') :
    s'.env.frames = s.env.frames := by
  cases operator with
  | «variable» name =>
    simp only [evalOperator] at h
    split at h
    · cases h
      rfl
    · cases h
  | lambda fn =>
    cases h
    rfl

/-- No frame has changed since the last argument was evaluated, and the same calls are in
    progress. -/
theorem call?_unchanged (h : m.call? = some c) :
    c.state.env.frames = m.state.env.frames ∧ callsOf c.tasks = m.calls := by
  obtain ⟨control, tasks, s⟩ := m
  rcases call?_eq_some h with ⟨operator, -, htasks, -, hoperator⟩ | ⟨v, taken, -, htasks, -, hstate⟩
  · exact ⟨frames_evalOperator hoperator, congrArg callsOf htasks.symm⟩
  · exact ⟨congrArg (fun s => s.env.frames) hstate.symm, (congrArg callsOf htasks).symm⟩

/-- What is called, and what it is called with, was in a value or is the closure just made. -/
theorem functions_of_call? {P : Value → Prop} (hm : m.Functions P)
    (hcreated : ∀ fn home, m.created? = some (fn, home) → P (.closure fn home))
    (h : m.call? = some c) : c.callee.Functions P ∧ ∀ arg ∈ c.args, arg.Functions P := by
  obtain ⟨control, tasks, s⟩ := m
  obtain ⟨henv, hcontrol, htasks⟩ := hm
  rcases call?_eq_some h with ⟨operator, rfl, -, hargs, hoperator⟩ |
    ⟨v, taken, rfl, rfl, hargs, -⟩
  -- A callee found by name comes from the environment, one written as a lambda is made in this
  -- step.
  · refine ⟨?_, hargs ▸ List.forall_mem_nil _⟩
    cases operator with
    | «variable» name =>
      simp only [evalOperator] at hoperator
      split at hoperator
      · rename_i callee hlookup
        exact (Prod.mk.inj (Outcome.value.inj hoperator).1).1 ▸ henv.lookup hlookup
      · cases hoperator
    | lambda fn =>
      have hclosure : Value.closure fn c.frame = c.callee :=
        (Prod.mk.inj (Outcome.value.inj hoperator).1).1
      exact hclosure ▸ hcreated fn c.frame rfl
  -- The task holds the callee and the arguments before the last, which is under control.
  · obtain ⟨hcallee, htaken⟩ := List.forall_mem_cons.mp (htasks _ List.mem_cons_self)
    exact ⟨hcallee, hargs ▸ List.forall_mem_append.mpr ⟨htaken, hcontrol⟩⟩

/-! ### Calls in progress -/

section

variable {tasks : List Task} {s : State}

/-- An expression whose first step is no call leaves the calls under way as they are. -/
private theorem calls_start_of_not_call (e : Expr) (frame : FrameId)
    (h : call? ⟨.eval e frame, tasks, s⟩ = none) :
    (start cx frame tasks s e).calls = callsOf tasks := by
  cases e with
  | «variable» name =>
    simp only [start]
    split <;> rfl
  | sequence body => exact calls_startBody frame tasks s body
  | apply operator arguments =>
    simp only [start]
    cases hoperator : evalOperator operator frame s with
    | error e s' => rfl
    | value found s' =>
      cases arguments with
      | nil =>
        simp only [call?, hoperator] at h
        cases h
      | cons e es => rfl
  | _ => rfl

/-- A task that makes no call leaves the calls under way as they are. -/
private theorem calls_resume_of_not_call (v : Value) (task : Task)
    (h : call? ⟨.value v, task :: tasks, s⟩ = none) :
    (resume cx v tasks s task).calls = callsOf tasks := by
  cases task with
  | define name frame => exact calls_after tasks _
  | assign name frame => exact calls_after tasks _
  | body rest frame => exact calls_startBody frame tasks s rest
  | argument callee name taken rest frame =>
    cases rest with
    | nil => cases h
    | cons e es => rfl
  | _ => rfl

/-- Where no call is made, no call more is in progress after a step. -/
private theorem calls_le_of_not_call (hstep : m.step cx = some m') (h : m.call? = none) :
    m'.calls.length ≤ m.calls.length := by
  -- Only the task that is taken off the stack can take a call with it.
  cases step_eq_some_iff.mp hstep with
  | start e frame => exact Nat.le_of_eq (congrArg List.length (calls_start_of_not_call e frame h))
  | resume v task tasks =>
    rw [calls_resume_of_not_call v task h]
    exact length_callsOf_le_cons task tasks
  | unwind e task tasks => exact length_callsOf_le_cons task tasks

/-- Only the call of a closure with as many arguments as it has parameters adds to the calls in
    progress, and the limit must allow it. -/
private theorem startCall_of_calls_lt {callee : Value} {name : String} {args : List Value}
    {frame : FrameId}
    (h : (callsOf tasks).length < (startCall cx callee name args frame tasks s).calls.length) :
    ∃ fn home, callee = .closure fn home ∧ fn.arity = args.length ∧
      (callsOf tasks).length < cx.maxDepth := by
  -- A native answers at once; a closure is entered if its arguments fit and there is room for one
  -- call more.
  cases callee with
  | native native =>
    rw [startCall, calls_after] at h
    exact absurd h (Nat.lt_irrefl _)
  | closure fn home =>
    simp only [startCall] at h
    split at h
    · rename_i harity
      simp only [enter] at h
      split at h
      · rename_i hroom
        exact ⟨fn, home, rfl, harity, hroom⟩
      · exact absurd h (Nat.lt_irrefl _)
    · exact absurd h (Nat.lt_irrefl _)
  | _ => exact absurd h (Nat.lt_irrefl _)

end

/-- One call more is in progress after a step only where a closure is called. -/
theorem exists_of_calls_lt (hstep : m.step cx = some m')
    (hlt : m.calls.length < m'.calls.length) :
    ∃ c fn home, m.call? = some c ∧ c.callee = .closure fn home ∧ fn.arity = c.args.length ∧
      m.calls.length < cx.maxDepth := by
  cases hcall : m.call? with
  | none => exact absurd hlt (Nat.not_lt.mpr (calls_le_of_not_call hstep hcall))
  | some c =>
    have hstart := step_of_call? cx hcall
    rw [hstep] at hstart
    have hcalls := (call?_unchanged hcall).2
    rw [← hcalls, Option.some.inj hstart] at hlt
    obtain ⟨fn, home, hcallee, harity, hroom⟩ := startCall_of_calls_lt hlt
    exact ⟨c, fn, home, rfl, hcallee, harity, hcalls ▸ hroom⟩

/-- A call of a closure with another number of arguments fails and changes nothing. -/
theorem step_of_arity_ne (cx : Context) (hcall : m.call? = some c) {fn : Lambda} {home : FrameId}
    (hcallee : c.callee = .closure fn home) (harity : fn.arity ≠ c.args.length) :
    m.step cx =
      some ⟨.error (.arity c.name (.oneOf [fn.arity]) c.args.length), c.tasks, c.state⟩ := by
  rw [step_of_call? cx hcall, hcallee, startCall, if_neg harity]

/-- A call of a closure that the limit allows enters its body. -/
theorem step_of_arity_eq (cx : Context) (hcall : m.call? = some c) {fn : Lambda} {home : FrameId}
    (hcallee : c.callee = .closure fn home) (harity : fn.arity = c.args.length) :
    m.step cx = some (enter cx fn home c.args c.tasks c.state) := by
  rw [step_of_call? cx hcall, hcallee, startCall, if_pos harity]

/-! ### A call that is entered -/

section

variable {fn : Lambda} (home : FrameId) (args : List Value) {tasks : List Task} (s : State)
  (hroom : (callsOf tasks).length < cx.maxDepth)

include hroom

/-- To enter a call is to start the body in a new frame, if the limit allows it. -/
private theorem enter_of_room : enter cx fn home args tasks s =
    startBody (s.env.extend home).1 (.leave (s.env.extend home).1 :: tasks)
      { s with env := (s.env.extend home).2.defineAll (s.env.extend home).1 fn.params args }
      fn.body := if_pos hroom

/-- Entering a closure opens a call in the frame that comes next. -/
theorem calls_enter :
    (enter cx fn home args tasks s).calls = ⟨s.env.frames.size⟩ :: callsOf tasks := by
  rw [enter_of_room home args s hroom, calls_startBody]
  rfl

/-- Entering a closure adds one frame, with the parameters bound to the arguments, inside the
    closure's own frame. -/
theorem frames_enter (hnodup : fn.params.Nodup) :
    (enter cx fn home args tasks s).state.env.frames =
      s.env.frames.push ⟨fn.params.zip args, some home⟩ := by
  rw [enter_of_room home args s hroom, state_startBody]
  exact s.env.frames_entered home hnodup args

/-- Entering a closure goes on with the first expression of its body, in the new frame. -/
theorem control_enter {e : Expr} {es : List Expr} (hbody : fn.body = e :: es) :
    (enter cx fn home args tasks s).control = .eval e ⟨s.env.frames.size⟩ := by
  rw [enter_of_room home args s hroom, hbody]
  cases es <;> rfl

/-- The call ends as the last expression of the body does, and leaves its frame. -/
theorem reaches_enter {init : List Expr} {last : Expr} (hbody : fn.body = init ++ [last]) :
    let enterCall := enterAt cx (cx.maxDepth - (callsOf tasks).length - 1)
    let outcome : Outcome Value :=
      match evalArgs cx enterCall init ⟨s.env.frames.size⟩
        (enter cx fn home args tasks s).state with
      | .error e s => .error e s
      | .value _ s' => evalExpr cx enterCall last ⟨s.env.frames.size⟩ s'
    Reaches cx (enter cx fn home args tasks s)
      (after tasks (outcome.mapEnv (cx.policy.leave ⟨s.env.frames.size⟩))) := by
  -- The state that the body is evaluated in, written as the evaluator has it.
  have hstate : (enter cx fn home args tasks s).state =
      { s with env := (s.env.extend home).2.defineAll (s.env.extend home).1 fn.params args } := by
    rw [enter_of_room home args s hroom, state_startBody]
  have hruns := runs_enterAt cx (cx.maxDepth - (callsOf tasks).length - 1 + 1) fn home args tasks
    s (by omega)
  simp only [enterAt, hbody, evalBody_concat] at hruns
  rw [hstate]
  exact hruns

end

end Machine

end LispSession
