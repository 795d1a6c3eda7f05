import LispSession.Proofs.Grammar.WellFormed
import LispSession.Proofs.Machine.Handed

/-!
# The code that is evaluated

All that the machine evaluates is a part of a statement that was read, or of the body of a
function that is called, which was such a part itself. So if the statements are well formed,
then so is every expression that the machine ever comes to: each function that is made a
closure has parameters that differ, and a body.

* `Machine.Coded`       the expressions to evaluate are well formed
* `Machine.coded_step`  one step of the machine keeps that
-/

namespace LispSession

/-- The expressions that the task will evaluate. -/
def Task.exprs : Task → List Expr
  | consCdr cdr _ => [cdr]
  | branch consequent alternative _ => [consequent, alternative]
  | body rest _ | argument _ _ _ rest _ => rest
  | _ => []

/-- The expression that the machine is about to evaluate. -/
def Control.exprs : Control → List Expr
  | eval e _ => [e]
  | _ => []

/-- A closure has a function that is well formed. -/
def Value.Formed : Value → Prop
  | .closure fn _ => fn.WellFormed
  | _ => True

/-- The expressions of a well-formed list are well-formed. -/
theorem AllWellFormed.forall_mem {es : List Expr} (h : AllWellFormed es) :
    ∀ e ∈ es, e.WellFormed := fun _ => h.of_mem

/-- The body of a well-formed lambda is a list of well-formed expressions, and not empty. -/
theorem Lambda.WellFormed.body {fn : Lambda} (h : fn.WellFormed) :
    fn.body ≠ [] ∧ ∀ e ∈ fn.body, e.WellFormed := by
  cases fn with
  | mk params body => exact ⟨h.2.1, h.2.2.forall_mem⟩

/-- The parameters of a well-formed lambda are distinct. -/
theorem Lambda.WellFormed.nodup {fn : Lambda} (h : fn.WellFormed) : fn.params.Nodup := by
  cases fn with
  | mk params body => exact h.1

/-- The expressions that the task will evaluate are well formed. -/
def Task.Coded (task : Task) : Prop := ∀ e ∈ task.exprs, e.WellFormed

namespace Machine

/-- All expressions that the machine will evaluate are well formed, those in closures apart. -/
structure Coded (m : Machine) : Prop where
  control : ∀ e ∈ m.control.exprs, e.WellFormed
  tasks : ∀ task ∈ m.tasks, task.Coded

/-- What becomes a closure is well formed. -/
theorem Coded.created {m : Machine} (h : m.Coded) {fn : Lambda} {home : FrameId}
    (hcreated : m.created? = some (fn, home)) : fn.WellFormed := by
  have hcontrol := h.control
  rcases control_of_created? hcreated with heq | ⟨args, heq⟩
  · rw [heq] at hcontrol
    have hlambda : (Expr.lambda fn).WellFormed := List.forall_mem_singleton.mp hcontrol
    exact hlambda
  · rw [heq] at hcontrol
    exact (List.forall_mem_singleton.mp hcontrol).1

section

variable {cx : Context} {tasks : List Task} (htasks : ∀ task ∈ tasks, task.Coded) (s : State)

include htasks

/-- There is nothing to evaluate but what tasks will. -/
private theorem coded_of_exprs_eq_nil {control : Control} (hcontrol : control.exprs = []) :
    Coded ⟨control, tasks, s⟩ :=
  ⟨hcontrol ▸ List.forall_mem_nil _, htasks⟩

/-- An outcome under control is no code. -/
private theorem coded_after (o : Outcome Value) : (after tasks o).Coded := by
  cases o <;> exact coded_of_exprs_eq_nil htasks _ rfl

/-- A well-formed expression under control is well-formed code. -/
theorem coded_eval {e : Expr} (he : e.WellFormed) (frame : FrameId) :
    Coded ⟨.eval e frame, tasks, s⟩ :=
  ⟨List.forall_mem_singleton.mpr he, htasks⟩

/-- An expression whose value a task waits for. -/
private theorem coded_eval_cons {e : Expr} (he : e.WellFormed) (frame : FrameId) {task : Task}
    (htask : task.Coded) : Coded ⟨.eval e frame, task :: tasks, s⟩ :=
  coded_eval (List.forall_mem_cons.mpr ⟨htask, htasks⟩) s he frame

/-- A body of well-formed expressions stays well-formed code, under control and in the task for the
    rest. -/
private theorem coded_startBody (frame : FrameId) {es : List Expr} (hes : ∀ e ∈ es, e.WellFormed) :
    (startBody frame tasks s es).Coded := by
  match es with
  | [] => exact coded_of_exprs_eq_nil htasks s rfl
  | [e] => exact coded_eval htasks s (List.forall_mem_singleton.mp hes) frame
  | e :: e' :: es =>
    obtain ⟨he, hrest⟩ := List.forall_mem_cons.mp hes
    have htask : Task.Coded (.body (e' :: es) frame) := hrest
    exact coded_eval_cons htasks s he frame htask

/-- A call evaluates the body of a closure. -/
private theorem coded_startCall {callee : Value} (hcallee : callee.Functions Value.Formed)
    (name : String) (args : List Value) (frame : FrameId) :
    (startCall cx callee name args frame tasks s).Coded := by
  cases callee with
  | native native => exact coded_after htasks _
  | closure fn home =>
    have hfn : fn.WellFormed := hcallee
    simp only [startCall]
    split
    · simp only [enter]
      split
      · have hleave : Task.Coded (.leave (s.env.extend home).1) := List.forall_mem_nil _
        exact coded_startBody (List.forall_mem_cons.mpr ⟨hleave, htasks⟩) _ _ hfn.body.2
      · exact coded_of_exprs_eq_nil htasks s rfl
    · exact coded_of_exprs_eq_nil htasks s rfl
  | _ => exact coded_of_exprs_eq_nil htasks s rfl

/-- Well-formed arguments stay well-formed code while the call takes them one by one. -/
private theorem coded_startArgs {callee : Value} (hcallee : callee.Functions Value.Formed)
    (name : String)
    (taken : List Value) (frame : FrameId) {es : List Expr} (hes : ∀ e ∈ es, e.WellFormed) :
    (startArgs cx callee name taken frame tasks s es).Coded := by
  cases es with
  | nil => exact coded_startCall htasks s hcallee name taken frame
  | cons e es =>
    obtain ⟨he, hrest⟩ := List.forall_mem_cons.mp hes
    have htask : Task.Coded (.argument callee name taken es frame) := hrest
    exact coded_eval_cons htasks s he frame htask

/-- The first step of a well-formed expression leaves well-formed code: its parts, or the body of a
    closure. -/
private theorem coded_start (henv : s.env.Functions Value.Formed) {e : Expr} (he : e.WellFormed)
    (frame : FrameId) : (start cx frame tasks s e).Coded := by
  -- The parts of an expression go under control and into a task; what is answered at once leaves no
  -- code.
  cases e with
  | number | string | boolean | quoted | data | lambda =>
    exact coded_of_exprs_eq_nil htasks _ rfl
  | «variable» name =>
    simp only [start]
    split <;> exact coded_of_exprs_eq_nil htasks s rfl
  | cons car cdr =>
    have htask : Task.Coded (.consCdr cdr frame) := List.forall_mem_singleton.mpr he.2
    exact coded_eval_cons htasks s he.1 frame htask
  | define name value =>
    have hvalue : value.WellFormed := he
    have htask : Task.Coded (.define name frame) := List.forall_mem_nil _
    exact coded_eval_cons htasks s hvalue frame htask
  | assign name value =>
    have hvalue : value.WellFormed := he
    have htask : Task.Coded (.assign name frame) := List.forall_mem_nil _
    exact coded_eval_cons htasks s hvalue frame htask
  | branch condition consequent alternative =>
    obtain ⟨hcondition, hconsequent, halternative⟩ := he
    have htask : Task.Coded (.branch consequent alternative frame) :=
      List.forall_mem_cons.mpr ⟨hconsequent, List.forall_mem_singleton.mpr halternative⟩
    exact coded_eval_cons htasks s hcondition frame htask
  | sequence body => exact coded_startBody htasks s frame he.2.forall_mem
  | apply operator arguments =>
    obtain ⟨hoperator, harguments⟩ := he
    cases operator with
    | «variable» name =>
      simp only [start, evalOperator]
      cases hlookup : s.env.lookup? frame name with
      -- The callee comes from the environment, where all closures are well-formed.
      | some callee =>
        exact coded_startArgs htasks s (henv.lookup hlookup) _ [] frame harguments.forall_mem
      | none => exact coded_of_exprs_eq_nil htasks s rfl
    | lambda fn =>
      have hclosure : (closureIn fn frame s).1.Functions Value.Formed := hoperator
      exact coded_startArgs htasks _ hclosure _ [] frame harguments.forall_mem

/-- A task resumed with any value leaves well-formed code, since the task was. -/
private theorem coded_resume {task : Task} (htask : task.Coded)
    (hvalues : task.Functions Value.Formed) (v : Value) :
    (resume cx v tasks s task).Coded := by
  cases task with
  | consCdr cdr frame =>
    have hpair : Task.Coded (.consPair v) := List.forall_mem_nil _
    exact coded_eval_cons htasks s (List.forall_mem_singleton.mp htask) frame hpair
  | consPair | leave => exact coded_of_exprs_eq_nil htasks _ rfl
  | define name frame => exact coded_after htasks (bindName name v frame s)
  | assign name frame => exact coded_after htasks (assignName name v frame s)
  | branch consequent alternative frame =>
    obtain ⟨hconsequent, halternative⟩ := List.forall_mem_cons.mp htask
    simp only [resume]
    split
    · exact coded_eval htasks s hconsequent frame
    · exact coded_eval htasks s (List.forall_mem_singleton.mp halternative) frame
  | body rest frame => exact coded_startBody htasks s frame htask
  | argument callee name taken rest frame =>
    exact coded_startArgs htasks s (hvalues callee List.mem_cons_self) name _ frame htask

end

/-- One step of the machine keeps the code well formed, if that in closures is. -/
theorem coded_step {cx : Context} {m m' : Machine} (h : m.Coded)
    (hfunctions : m.Functions Value.Formed) (hstep : m.step cx = some m') : m'.Coded := by
  obtain ⟨hcontrol, htasks⟩ := h
  cases step_eq_some_iff.mp hstep with
  | start e frame tasks s =>
    exact coded_start htasks s hfunctions.env (List.forall_mem_singleton.mp hcontrol) frame
  | resume v task tasks s =>
    obtain ⟨htask, htasks⟩ := List.forall_mem_cons.mp htasks
    exact coded_resume htasks s htask (hfunctions.tasks task List.mem_cons_self) v
  | unwind => exact coded_of_exprs_eq_nil (List.forall_mem_cons.mp htasks).2 _ rfl

end Machine

end LispSession
