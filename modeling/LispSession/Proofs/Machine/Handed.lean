import LispSession.Proofs.Machine.Stable
import LispSession.Proofs.Symbols.Occurrences

/-!
# Functions are handed on

A function is a value like any other: it is bound to names, passed in arguments and put into
lists. But it is made in two places only. Closures are made where a function is evaluated, and
references to native functions where the registry binds its names; all else that evaluation
and the native functions do is to hand functions on. So what holds of each function when it is
made holds of the functions in all values, bound or in flight.

* `Value.Functions`             the functions in a value satisfy a predicate
* `Standard.functions_invoke`   native functions hand on functions
* `Environment.Functions`       the bindings hold such values; what the operations keep
* `Machine.created?`            the closure that a step of the machine makes
* `Machine.functions_step`      one step of the machine hands on functions, but for that one
-/

namespace LispSession

/-! ### Values -/

/-- Every function in the value, a closure or a reference to a native one, satisfies a
    predicate. -/
def Value.Functions (P : Value → Prop) : Value → Prop
  | .pair car cdr => car.Functions P ∧ cdr.Functions P
  | .closure fn frame => P (.closure fn frame)
  | .native name => P (.native name)
  | _ => True

variable {P : Value → Prop}

/-- A weaker condition on functions holds of the same values. -/
private theorem Value.Functions.imp {Q : Value → Prop} (hPQ : ∀ v, P v → Q v) {v : Value}
    (h : v.Functions P) : v.Functions Q := by
  induction v with
  | pair car cdr hcar hcdr => exact ⟨hcar h.1, hcdr h.2⟩
  | closure fn frame => exact hPQ _ h
  | native name => exact hPQ _ h
  | _ => trivial

/-- What holds of the functions of a value holds of the functions of its parts. -/
theorem Value.Functions.of_mem_parts {v w : Value} (h : v.Functions P) (hw : w ∈ v.parts) :
    w.Functions P := by
  -- Induction on the value: a pair has itself as a part, and the parts of both its values.
  induction v with
  | pair car cdr hcar hcdr =>
    rw [parts, List.mem_cons, List.mem_append] at hw
    rcases hw with rfl | hw | hw
    · exact h
    · exact hcar h.1 hw
    · exact hcdr h.2 hw
  | _ => exact List.mem_singleton.mp hw ▸ h

/-- The functions of a list are those of its items. -/
private theorem Value.functions_ofList {vs : List Value} (h : ∀ v ∈ vs, v.Functions P) :
    (Value.ofList vs).Functions P := by
  induction vs with
  | nil => trivial
  | cons v vs ih =>
    obtain ⟨hv, hvs⟩ := List.forall_mem_cons.mp h
    exact ⟨hv, ih hvs⟩

mutual

/-- Quoted data holds no functions. -/
private theorem Literal.functions_toValue : ∀ l : Literal, l.toValue.Functions P
  | .symbol _ | .number _ | .string _ | .boolean _ => trivial
  | .list items => Literal.functions_listValue items

/-- A quoted list holds no function at all. -/
private theorem Literal.functions_listValue : ∀ items : List Literal,
    (Literal.listValue items).Functions P
  | [] => trivial
  | item :: items => ⟨Literal.functions_toValue item, Literal.functions_listValue items⟩

end

/-! ### Native functions -/

/-- The value of a native function holds no functions but those that its arguments hold. -/
def NativeFn.Forwards (run : NativeFn) : Prop :=
  ∀ ⦃P : Value → Prop⦄ ⦃args frame s v s'⦄, (∀ arg ∈ args, arg.Functions P) →
    run args frame s = .value v s' → v.Functions P

namespace Standard

/-- A native that computes its answer from its arguments hands on what the computation takes from
    them. -/
private theorem forwards_computing {f : List Value → Except EvalError Value}
    (hf : ∀ (P : Value → Prop) args v, (∀ arg ∈ args, arg.Functions P) → f args = .ok v →
      v.Functions P) : NativeFn.Forwards (computing f) := by
  intro P args frame s v s' hargs h
  unfold computing at h
  cases hresult : f args with
  | error e =>
    rw [hresult] at h
    cases h
  | ok w =>
    rw [hresult] at h
    cases h
    exact hf P args _ hargs hresult

/-- A value made of data that are no values holds no functions. -/
private theorem functions_map {α : Type} {x : Except EvalError α} {f : α → Value} {v : Value}
    (h : x.map f = .ok v) (hf : ∀ a, (f a).Functions P) : v.Functions P := by
  cases x with
  | error e => cases h
  | ok a =>
    cases h
    exact hf a

/-- A sum is a number. -/
private theorem forwards_add : NativeFn.Forwards (computing add) :=
  forwards_computing fun _ _ _ _ h => functions_map h fun _ => trivial

/-- A product is a number. -/
private theorem forwards_multiply : NativeFn.Forwards (computing multiply) :=
  forwards_computing fun _ _ _ _ h => functions_map h fun _ => trivial

/-- A difference is a number. -/
private theorem forwards_subtract : NativeFn.Forwards (computing subtract) := by
  refine forwards_computing fun P args v _ h => ?_
  -- One argument is negated, two are subtracted.
  unfold subtract at h
  split at h
  · exact functions_map h fun _ => trivial
  · exact functions_map h fun _ => trivial

/-- A quotient or remainder is a number. -/
private theorem forwards_dividing (native : String) (f : Float → Float → Float) :
    NativeFn.Forwards (computing (dividing native f)) := by
  refine forwards_computing fun P args v _ h => ?_
  unfold dividing at h
  split at h
  · cases h
  · split at h
    · cases h
    · cases h
      trivial

/-- A comparison gives a truth value. -/
private theorem forwards_comparing (native : String) (holds : Float → Float → Bool) :
    NativeFn.Forwards (computing (comparing native holds)) :=
  forwards_computing fun _ _ _ _ h => functions_map h fun _ => trivial

/-- A test for a kind of value gives a truth value. -/
private theorem forwards_testing (native : String) (holds : Value → Bool) :
    NativeFn.Forwards (computing (testing native holds)) :=
  forwards_computing fun _ _ _ _ h => functions_map h fun _ => trivial

/-- The equality of values gives a truth value. -/
private theorem forwards_equal : NativeFn.Forwards (computing equal) := by
  refine forwards_computing fun P args v _ h => ?_
  unfold equal at h
  split at h
  · cases h
  · cases h
    trivial

/-- A truth value computed from the arguments holds no function. -/
private theorem forwards_boolean (f : List Value → Bool) :
    NativeFn.Forwards (computing fun args => .ok (.boolean (f args))) := by
  refine forwards_computing fun P args v _ h => ?_
  cases h
  trivial

/-- A list is made of the arguments. -/
private theorem forwards_list : NativeFn.Forwards (computing list) := by
  refine forwards_computing fun P args v hargs h => ?_
  cases h
  exact Value.functions_ofList hargs

/-- The only argument of a native is one of its arguments. -/
private theorem functions_one {native : String} {args : List Value} {v : Value}
    (hargs : ∀ arg ∈ args, arg.Functions P) (h : one native args = .ok v) : v.Functions P := by
  unfold one at h
  split at h
  · cases h
    exact hargs _ List.mem_cons_self
  · cases h

/-- The first part of a pair is handed on from the argument. -/
private theorem forwards_car : NativeFn.Forwards (computing car) := by
  refine forwards_computing fun P args v hargs h => ?_
  unfold car at h
  split at h
  · cases h
  · rename_i hone
    cases h
    exact (functions_one hargs hone).1
  · cases h

/-- The second part of a pair is handed on from the argument. -/
private theorem forwards_cdr : NativeFn.Forwards (computing cdr) := by
  refine forwards_computing fun P args v hargs h => ?_
  unfold cdr at h
  split at h
  · cases h
  · rename_i hone
    cases h
    exact (functions_one hargs hone).2
  · cases h

/-- Printing gives null. -/
private theorem forwards_print : NativeFn.Forwards print := by
  intro P args frame s v s' _ h
  cases h
  trivial

/-- All standard functions hand on what they are given. -/
private theorem forwards_natives : ∀ native ∈ natives, NativeFn.Forwards native.run := by
  simp only [natives, List.forall_mem_cons]
  exact ⟨forwards_add, forwards_subtract, forwards_multiply, forwards_dividing _ _,
    forwards_dividing _ _, forwards_equal, forwards_comparing _ _, forwards_comparing _ _,
    forwards_comparing _ _, forwards_comparing _ _, forwards_boolean _, forwards_boolean _,
    forwards_print, forwards_list, forwards_car, forwards_cdr, forwards_testing _ _,
    forwards_testing _ _, forwards_testing _ _, forwards_testing _ _, forwards_testing _ _,
    List.forall_mem_nil _⟩

/-- A call of a native function hands on what it is given. -/
theorem functions_invoke {name : String} {args : List Value} {frame : FrameId} {s s' : State}
    {v : Value} (hargs : ∀ arg ∈ args, arg.Functions P)
    (h : registry.invoke name args frame s = .value v s') : v.Functions P := by
  unfold Registry.invoke at h
  split at h
  · cases h
  · rename_i native hfind
    split at h
    · exact forwards_natives _ (Registry.mem_ofList (List.mem_of_find?_eq_some hfind)) hargs h
    · cases h

end Standard

/-! ### Environments -/

namespace Environment

/-- A new frame binds nothing. -/
private theorem mem_bindings_extend {env : Environment} {home : FrameId} {b : Symbol × Value}
    (h : b ∈ (env.extend home).2.bindings) : b ∈ env.bindings := by
  obtain ⟨i, frame, hi, hb⟩ := mem_bindings.mp h
  rw [getElem?_extend] at hi
  split at hi
  · cases hi
    exact absurd hb List.not_mem_nil
  · exact mem_bindings.mpr ⟨i, frame, hi, hb⟩

/-- A release adds no binding. -/
private theorem mem_bindings_release {env : Environment} {home : FrameId} {b : Symbol × Value}
    (h : b ∈ (env.release home).bindings) : b ∈ env.bindings := by
  obtain ⟨i, frame, hi, hb⟩ := mem_bindings.mp h
  -- A frame that a release left was there before it.
  rw [getElem?_release] at hi
  split at hi
  · exact mem_bindings.mpr ⟨i, frame, hi, hb⟩
  · cases hi

/-- A definition adds no binding but its own. -/
private theorem mem_bindings_define {env : Environment} {frame : FrameId} {name : Symbol}
    {value : Value} {b : Symbol × Value} (h : b ∈ (env.define frame name value).bindings) :
    b = (name, value) ∨ b ∈ env.bindings := by
  obtain ⟨i, holder, hi, hb⟩ := mem_bindings.mp h
  rw [getElem?_define] at hi
  split at hi
  · obtain ⟨old, hold, rfl⟩ := Option.map_eq_some_iff.mp hi
    exact (mem_putBinding hb).imp_right fun hb => mem_bindings.mpr ⟨i, old, hold, hb⟩
  · exact .inr (mem_bindings.mpr ⟨i, holder, hi, hb⟩)

/-- What a name stands for is bound to it somewhere. -/
private theorem mem_bindings_of_lookup {env : Environment} {frame : FrameId} {name : Symbol}
    {value : Value} (h : env.lookup? frame name = some value) : (name, value) ∈ env.bindings := by
  obtain ⟨found, _, hlocal⟩ := Option.bind_eq_some_iff.mp h
  obtain ⟨holder, hholder, hget⟩ := Option.bind_eq_some_iff.mp hlocal
  exact mem_bindings.mpr ⟨found.index, holder, hholder, Frame.mem_of_get? hget⟩

/-- The functions in the values that are bound satisfy a predicate. -/
def Functions (P : Value → Prop) (env : Environment) : Prop := ∀ b ∈ env.bindings, b.2.Functions P

/-- A new environment binds nothing, so it holds no function. -/
theorem functions_new : Environment.new.Functions P := by
  intro b hb
  simp [bindings, Environment.new] at hb

namespace Functions

variable {env : Environment}

/-- A weaker condition on functions holds of the same environments. -/
theorem imp {Q : Value → Prop} (hPQ : ∀ v, P v → Q v) (h : env.Functions P) : env.Functions Q :=
  fun b hb => (h b hb).imp hPQ

/-- The symbol table holds no function. -/
theorem withSymbols (h : env.Functions P) (table : SymbolTable) :
    Functions P { env with symbols := table } := h

/-- A definition adds its value to the values that are bound. -/
private theorem define (h : env.Functions P) (frame : FrameId) (name : Symbol) {value : Value}
    (hvalue : value.Functions P) : (env.define frame name value).Functions P := by
  intro b hb
  rcases mem_bindings_define hb with rfl | hb
  · exact hvalue
  · exact h b hb

/-- A new frame binds nothing. -/
private theorem extend (h : env.Functions P) (home : FrameId) : (env.extend home).2.Functions P :=
  fun b hb => h b (mem_bindings_extend hb)

/-- Leaving a call binds nothing, whatever becomes of its frame. -/
private theorem leave (h : env.Functions P) (policy : FramePolicy) (frame : FrameId) :
    (policy.leave frame env).Functions P := by
  cases policy with
  | reclaim => exact fun b hb => h b (mem_bindings_release hb)
  | retain => exact h

/-- Binding the parameters adds the arguments to the values that are bound. -/
private theorem defineAll (h : env.Functions P) (frame : FrameId) (names : List Symbol)
    {values : List Value} (hvalues : ∀ value ∈ values, value.Functions P) :
    (env.defineAll frame names values).Functions P := by
  -- Induction on the names, one definition for each; a missing argument ends the loop.
  induction names generalizing env values with
  | nil => exact h
  | cons name names ih =>
    cases values with
    | nil => exact h
    | cons value values =>
      obtain ⟨hvalue, hvalues⟩ := List.forall_mem_cons.mp hvalues
      exact ih (h.define frame name hvalue) hvalues

/-- A value that is looked up is bound somewhere. -/
theorem lookup (h : env.Functions P) {frame : FrameId} {name : Symbol} {value : Value}
    (hlookup : env.lookup? frame name = some value) : value.Functions P :=
  h _ (mem_bindings_of_lookup hlookup)

/-- The registry binds names of its functions only. -/
theorem install (h : env.Functions P) {registry : Registry}
    (hnames : ∀ name ∈ registry.names, P (.native name)) : (registry.install env).Functions P := by
  unfold Registry.install
  generalize registry.names = names at hnames
  -- Induction on the names: each one is interned, which binds nothing, and then bound to its
  -- native.
  induction names generalizing env with
  | nil => exact h
  | cons name names ih =>
    obtain ⟨hname, hnames⟩ := List.forall_mem_cons.mp hnames
    refine ih ?_ hnames
    have hintern : (env.intern name).2.Functions P := h
    unfold Registry.installName
    simp only
    split
    · exact h
    · exact hintern.define .global _ hname

end Functions

end Environment

/-! ### The machine -/

/-- The functions in the values that a task holds satisfy a predicate. -/
def Task.Functions (P : Value → Prop) (task : Task) : Prop := ∀ v ∈ task.values, v.Functions P

namespace Machine

/-- The functions in all values, bound or in flight, satisfy a predicate. -/
structure Functions (P : Value → Prop) (m : Machine) : Prop where
  env : m.state.env.Functions P
  control : ∀ v ∈ m.control.values, v.Functions P
  tasks : ∀ task ∈ m.tasks, task.Functions P

/-- A weaker condition on functions holds of the same machines. -/
theorem Functions.imp {Q : Value → Prop} (hPQ : ∀ v, P v → Q v) {m : Machine}
    (h : m.Functions P) : m.Functions Q where
  env := h.env.imp hPQ
  control v hv := (h.control v hv).imp hPQ
  tasks task htask v hv := (h.tasks task htask v hv).imp hPQ

/-- The closure that the machine is about to make, by its function and its frame. -/
def created? (m : Machine) : Option (Lambda × FrameId) :=
  match m.control with
  | .eval (.lambda fn) frame => some (fn, frame)
  | .eval (.apply (.lambda fn) _) frame => some (fn, frame)
  | _ => none

/-- The control evaluates a function, or applies one that stands in the operator's place. -/
theorem control_of_created? {m : Machine} {fn : Lambda} {frame : FrameId}
    (h : m.created? = some (fn, frame)) :
    m.control = .eval (.lambda fn) frame ∨
      ∃ args, m.control = .eval (.apply (.lambda fn) args) frame := by
  unfold created? at h
  split at h
  · rename_i hcontrol
    cases h
    exact .inl hcontrol
  · rename_i hcontrol
    cases h
    exact .inr ⟨_, hcontrol⟩
  · cases h

/-- The closure that a step makes is made over the frame that counts as the step's closure frame. -/
theorem closureFrame?_of_created? {m : Machine} {fn : Lambda} {frame : FrameId}
    (h : m.created? = some (fn, frame)) : m.closureFrame? = some frame := by
  unfold closureFrame?
  rcases control_of_created? h with hcontrol | ⟨args, hcontrol⟩ <;> rw [hcontrol]

/-- The closure that a step makes is made over a frame under control. -/
theorem mem_frames_of_created? {m : Machine} {fn : Lambda} {frame : FrameId}
    (h : m.created? = some (fn, frame)) : frame ∈ m.control.frames := by
  rcases control_of_created? h with hcontrol | ⟨args, hcontrol⟩ <;>
    exact hcontrol ▸ List.mem_singleton_self frame

section

variable {cx : Context} {tasks : List Task} {s : State}

/-- A machine after an outcome holds what its environment, its tasks and the outcome's value hold.
    -/
private theorem functions_after {o : Outcome Value} (henv : o.state.env.Functions P)
    (htasks : ∀ task ∈ tasks, task.Functions P) (hvalue : ∀ v s, o = .value v s → v.Functions P) :
    (after tasks o).Functions P := by
  cases o with
  | value v s => exact ⟨henv, List.forall_mem_singleton.mpr (hvalue v s rfl), htasks⟩
  | error e s => exact ⟨henv, List.forall_mem_nil _, htasks⟩

variable (henv : s.env.Functions P) (htasks : ∀ task ∈ tasks, task.Functions P)

include henv htasks

/-- A value under control is held beside the environment and the tasks. -/
private theorem functions_value {v : Value} (hv : v.Functions P) :
    Functions P ⟨.value v, tasks, s⟩ :=
  ⟨henv, List.forall_mem_singleton.mpr hv, htasks⟩

/-- An error under control holds nothing. -/
private theorem functions_error (e : EvalError) : Functions P ⟨.error e, tasks, s⟩ :=
  ⟨henv, List.forall_mem_nil _, htasks⟩

/-- An expression under control holds nothing: only values are looked at. -/
private theorem functions_eval (e : Expr) (frame : FrameId) :
    Functions P ⟨.eval e frame, tasks, s⟩ :=
  ⟨henv, List.forall_mem_nil _, htasks⟩

/-- An expression whose value a task waits for. -/
private theorem functions_eval_cons {task : Task} (htask : task.Functions P) (e : Expr)
    (frame : FrameId) : Functions P ⟨.eval e frame, task :: tasks, s⟩ :=
  ⟨henv, List.forall_mem_nil _, List.forall_mem_cons.mpr ⟨htask, htasks⟩⟩

/-- Starting a body puts no new value in the machine. -/
private theorem functions_startBody (frame : FrameId) (es : List Expr) :
    (startBody frame tasks s es).Functions P := by
  -- The empty body gives null; a body with more than one expression leaves the rest as a task.
  match es with
  | [] => exact ⟨henv, List.forall_mem_singleton.mpr trivial, htasks⟩
  | [e] => exact functions_eval henv htasks e frame
  | e :: e' :: es =>
    have htask : Task.Functions P (.body (e' :: es) frame) := List.forall_mem_nil _
    exact functions_eval_cons henv htasks htask e frame

/-- Entering a closure binds its arguments, which the machine held, and leaves a task that holds
    nothing. -/
private theorem functions_enter (fn : Lambda) (home : FrameId) {args : List Value}
    (hargs : ∀ arg ∈ args, arg.Functions P) : (enter cx fn home args tasks s).Functions P := by
  simp only [enter]
  split
  · have hbound := (henv.extend home).defineAll (s.env.extend home).1 fn.params hargs
    have hleave : Task.Functions P (.leave (s.env.extend home).1) := List.forall_mem_nil _
    exact functions_startBody (s := ⟨_, s.output⟩) hbound
      (List.forall_mem_cons.mpr ⟨hleave, htasks⟩) _ _
  · exact functions_error henv htasks _

/-- A call is given values that the machine held: a closure binds them, a native answers from them.
    -/
private theorem functions_startCall (hcx : cx.registry = Standard.registry) (callee : Value)
    (name : String) {args : List Value} (hargs : ∀ arg ∈ args, arg.Functions P) (frame : FrameId) :
    (startCall cx callee name args frame tasks s).Functions P := by
  cases callee with
  | native native =>
    simp only [startCall, hcx]
    refine functions_after ?_ htasks fun v s' h => Standard.functions_invoke hargs h
    rw [Standard.invoke_env]
    exact henv
  | closure fn home =>
    simp only [startCall]
    split
    · exact functions_enter henv htasks fn home hargs
    · exact functions_error henv htasks _
  | _ => exact functions_error henv htasks _

/-- Starting the arguments keeps the callee and the arguments taken so far in a task. -/
private theorem functions_startArgs (hcx : cx.registry = Standard.registry) {callee : Value}
    (hcallee : callee.Functions P) (name : String) {taken : List Value}
    (htaken : ∀ arg ∈ taken, arg.Functions P) (frame : FrameId) (es : List Expr) :
    (startArgs cx callee name taken frame tasks s es).Functions P := by
  cases es with
  | nil => exact functions_startCall henv htasks hcx callee name htaken frame
  | cons e es =>
    have htask : Task.Functions P (.argument callee name taken es frame) :=
      List.forall_mem_cons.mpr ⟨hcallee, htaken⟩
    exact functions_eval_cons henv htasks htask e frame

/-- Starting an expression makes at most one closure. -/
private theorem functions_start (hcx : cx.registry = Standard.registry) (e : Expr) (frame : FrameId)
    (hcreated : ∀ fn home, created? ⟨.eval e frame, tasks, s⟩ = some (fn, home) →
      P (.closure fn home)) : (start cx frame tasks s e).Functions P := by
  have hnone : ∀ v ∈ ([] : List Value), v.Functions P := List.forall_mem_nil _
  cases e with
  | number | string | boolean | quoted =>
    exact ⟨henv, List.forall_mem_singleton.mpr trivial, htasks⟩
  | data items => exact functions_value henv htasks (Literal.functions_listValue items)
  | «variable» name =>
    simp only [start]
    cases hlookup : s.env.lookup? frame name with
    | some v => exact functions_value henv htasks (henv.lookup hlookup)
    | none => exact functions_error henv htasks _
  -- The frame of a new closure is marked, which changes no binding.
  | lambda fn => exact ⟨henv, List.forall_mem_singleton.mpr (hcreated fn frame rfl), htasks⟩
  | sequence body => exact functions_startBody henv htasks frame body
  | cons | define | branch | assign =>
    exact ⟨henv, hnone, List.forall_mem_cons.mpr ⟨hnone, htasks⟩⟩
  | apply operator arguments =>
    cases operator with
    | «variable» name =>
      simp only [start, evalOperator]
      cases hlookup : s.env.lookup? frame name with
      | some v =>
        exact functions_startArgs henv htasks hcx (henv.lookup hlookup) _ hnone frame arguments
      | none => exact functions_error henv htasks _
    | lambda fn =>
      have hclosure : (closureIn fn frame s).1.Functions P := hcreated fn frame rfl
      exact functions_startArgs (s := (closureIn fn frame s).2) henv htasks hcx hclosure _ hnone
        frame arguments

/-- A task resumed with a value puts no value into the machine that neither of them held. -/
private theorem functions_resume (hcx : cx.registry = Standard.registry) {v : Value}
    (hv : v.Functions P) {task : Task} (htask : task.Functions P) :
    (resume cx v tasks s task).Functions P := by
  -- One case for each task: what it held, and the value it is resumed with, go where the task puts
  -- them.
  cases task with
  | consCdr cdr frame =>
    have hpair : Task.Functions P (.consPair v) := List.forall_mem_singleton.mpr hv
    exact functions_eval_cons henv htasks hpair cdr frame
  | consPair first =>
    exact functions_value henv htasks ⟨List.forall_mem_singleton.mp htask, hv⟩
  | define name frame =>
    have hbound : (bindName name v frame s).state.env.Functions P := henv.define frame name hv
    refine functions_after hbound htasks fun w s' h => ?_
    cases h
    trivial
  | branch consequent alternative frame => exact functions_eval henv htasks _ frame
  | assign name frame =>
    simp only [resume, assignName]
    cases hassign : s.env.assign? frame name v with
    | some env =>
      obtain ⟨found, _, rfl⟩ := Option.map_eq_some_iff.mp hassign
      exact ⟨henv.define found name hv, List.forall_mem_singleton.mpr hv, htasks⟩
    | none => exact functions_error henv htasks _
  | body rest frame => exact functions_startBody henv htasks frame rest
  | argument callee name taken rest frame =>
    obtain ⟨hcallee, htaken⟩ := List.forall_mem_cons.mp htask
    have htaken' := List.forall_mem_append.mpr ⟨htaken, List.forall_mem_singleton.mpr hv⟩
    exact functions_startArgs henv htasks hcx hcallee name htaken' frame rest
  | leave frame =>
    exact functions_value (s := ⟨_, s.output⟩) (henv.leave cx.policy frame) htasks hv

end

/-- What holds of the functions in all values holds of them after a step of the machine, if it
    holds of the closure that the step makes. -/
theorem functions_step {cx : Context} (hcx : cx.registry = Standard.registry) {m m' : Machine}
    (h : m.Functions P)
    (hcreated : ∀ fn home, m.created? = some (fn, home) → P (.closure fn home))
    (hstep : m.step cx = some m') : m'.Functions P := by
  obtain ⟨henv, hcontrol, htasks⟩ := h
  cases step_eq_some_iff.mp hstep with
  | start e frame => exact functions_start henv htasks hcx e frame hcreated
  | resume v =>
    obtain ⟨htask, htasks⟩ := List.forall_mem_cons.mp htasks
    exact functions_resume henv htasks hcx (List.forall_mem_singleton.mp hcontrol) htask
  | unwind e task tasks s =>
    have htasks' := (List.forall_mem_cons.mp htasks).2
    -- An error drops the frames of the calls that it ends.
    cases task with
    | leave frame =>
      exact functions_error (s := ⟨_, s.output⟩) (henv.leave cx.policy frame) htasks' e
    | _ => exact functions_error henv htasks' e

end Machine

end LispSession
