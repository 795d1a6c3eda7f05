import LispSession.Proofs.Machine.Adequacy

/-!
# Where the machine evaluates

The machine evaluates in the frame of the innermost call in progress, and where no call is
in progress in the frame of the statement. The tasks that wait for a call to end go on in
the frame of the call around it.

* `inPlace_step`     one step of the machine keeps to this
* `inPlace_reaches`  every run does
-/

namespace LispSession

/-- The frame of the innermost call in progress, or the given one where there is none. -/
def currentFrame (root : FrameId) (tasks : List Task) : FrameId := (callsOf tasks).headD root

/-- Every task that ends no call goes on in the frame of the innermost call around it. -/
def TasksInPlace (root : FrameId) : List Task → Prop
  | [] => True
  | task :: tasks =>
    (task.call? = none → ∀ frame ∈ task.frames, frame = currentFrame root tasks) ∧
      TasksInPlace root tasks

/-- A task that ends no call leaves the frame as it is. -/
private theorem currentFrame_cons {root : FrameId} {task : Task} (h : task.call? = none)
    (tasks : List Task) : currentFrame root (task :: tasks) = currentFrame root tasks := by
  simp only [currentFrame, callsOf, List.filterMap_cons, h]

/-- Nothing is said about the frame of a call that ends. -/
private theorem TasksInPlace.leave {root : FrameId} {tasks : List Task}
    (h : TasksInPlace root tasks)
    (frame : FrameId) : TasksInPlace root (.leave frame :: tasks) := by
  refine ⟨fun hcall => ?_, h⟩
  cases hcall

namespace Machine

/-- The machine evaluates in the frame of the innermost call. -/
structure InPlace (root : FrameId) (m : Machine) : Prop where
  control : ∀ frame ∈ m.control.frames, frame = currentFrame root m.tasks
  tasks : TasksInPlace root m.tasks

variable {cx : Context} {root frame : FrameId} {tasks : List Task} {s : State}

/-- An expression under control in the current frame is in place. -/
private theorem inPlace_eval {e : Expr} (hframe : frame = currentFrame root tasks)
    (htasks : TasksInPlace root tasks) : InPlace root ⟨.eval e frame, tasks, s⟩ :=
  ⟨fun _ h => List.mem_singleton.mp h ▸ hframe, htasks⟩

/-- An outcome under control names no frame to be evaluated in. -/
private theorem inPlace_after (o : Outcome Value) (htasks : TasksInPlace root tasks) :
    InPlace root (after tasks o) := by
  cases o with
  | value v s => exact ⟨List.forall_mem_nil _, htasks⟩
  | error e s => exact ⟨List.forall_mem_nil _, htasks⟩

/-- An expression is evaluated, and one more task waits for it in the same frame. -/
private theorem inPlace_push {e : Expr} {task : Task} (hcall : task.call? = none)
    (hframes : ∀ other ∈ task.frames, other = frame) (hframe : frame = currentFrame root tasks)
    (htasks : TasksInPlace root tasks) : InPlace root ⟨.eval e frame, task :: tasks, s⟩ :=
  inPlace_eval (hframe.trans (currentFrame_cons hcall tasks).symm)
    ⟨fun _ other hother => (hframes other hother).trans hframe, htasks⟩

/-- A body is evaluated in the frame of the tasks it is started on. -/
private theorem inPlace_startBody (hframe : frame = currentFrame root tasks)
    (htasks : TasksInPlace root tasks) (es : List Expr) :
    InPlace root (startBody frame tasks s es) := by
  match es with
  | [] => exact inPlace_after (.value .null s) htasks
  | [e] => exact inPlace_eval hframe htasks
  | e :: e' :: es => exact inPlace_push rfl (fun _ h => List.mem_singleton.mp h) hframe htasks

/-- A call is in place whatever frame it is made from. -/
private theorem inPlace_startCall (htasks : TasksInPlace root tasks) (callee : Value)
    (name : String) (args : List Value) (frame : FrameId) :
    InPlace root (startCall cx callee name args frame tasks s) := by
  unfold startCall
  split
  · exact inPlace_after _ htasks
  · split
    · unfold enter
      split
      -- The body is evaluated in the frame of the call that it is part of.
      · exact inPlace_startBody rfl (htasks.leave _) _
      · exact inPlace_after (.error _ s) htasks
    · exact inPlace_after (.error _ s) htasks
  · exact inPlace_after (.error _ s) htasks

/-- The arguments of a call are evaluated in the frame that the call is made from. -/
private theorem inPlace_startArgs (hframe : frame = currentFrame root tasks)
    (htasks : TasksInPlace root tasks) (callee : Value) (name : String) (taken : List Value)
    (es : List Expr) : InPlace root (startArgs cx callee name taken frame tasks s es) := by
  cases es with
  | nil => exact inPlace_startCall htasks callee name taken frame
  | cons e es => exact inPlace_push rfl (fun _ h => List.mem_singleton.mp h) hframe htasks

/-- Starting an expression in the current frame leaves the machine in place. -/
private theorem inPlace_start (hframe : frame = currentFrame root tasks)
    (htasks : TasksInPlace root tasks) (e : Expr) : InPlace root (start cx frame tasks s e) := by
  -- An expression with parts pushes a task in its own frame and goes on there; the others are
  -- answered at once.
  cases e with
  | number | string | boolean | quoted | data | lambda =>
    exact ⟨List.forall_mem_nil _, htasks⟩
  | «variable» name =>
    simp only [start]
    split
    · exact ⟨List.forall_mem_nil _, htasks⟩
    · exact ⟨List.forall_mem_nil _, htasks⟩
  | cons | define | branch | assign =>
    exact inPlace_push rfl (fun _ h => List.mem_singleton.mp h) hframe htasks
  | sequence body => exact inPlace_startBody hframe htasks body
  | apply operator arguments =>
    simp only [start]
    split
    · exact ⟨List.forall_mem_nil _, htasks⟩
    · exact inPlace_startArgs hframe htasks _ _ _ arguments

/-- Resuming a task leaves the machine in place, since the task was. -/
private theorem inPlace_resume {task : Task} (htasks : TasksInPlace root (task :: tasks))
    (v : Value) : InPlace root (resume cx v tasks s task) := by
  obtain ⟨hhere, hrest⟩ := htasks
  -- A task that goes on evaluating does so in its own frame, which is the current one.
  cases task with
  | consCdr cdr frame =>
    have hframe := hhere rfl frame List.mem_cons_self
    exact inPlace_push rfl (List.forall_mem_nil _) hframe hrest
  | branch consequent alternative frame =>
    exact inPlace_eval (hhere rfl frame List.mem_cons_self) hrest
  | body rest frame => exact inPlace_startBody (hhere rfl frame List.mem_cons_self) hrest rest
  | argument callee name taken rest frame =>
    exact inPlace_startArgs (hhere rfl frame List.mem_cons_self) hrest _ _ _ rest
  | define name frame => exact inPlace_after (bindName name v frame s) hrest
  | assign name frame => exact inPlace_after (assignName name v frame s) hrest
  | consPair | leave => exact ⟨List.forall_mem_nil _, hrest⟩

/-- One step of the machine keeps to the frame of the innermost call. -/
theorem inPlace_step (m m' : Machine) (h : m.InPlace root) (hstep : m.step cx = some m') :
    m'.InPlace root := by
  obtain ⟨hcontrol, htasks⟩ := h
  cases step_eq_some_iff.mp hstep with
  | start e frame => exact inPlace_start (hcontrol frame List.mem_cons_self) htasks e
  | resume v => exact inPlace_resume htasks v
  | unwind => exact ⟨List.forall_mem_nil _, htasks.2⟩

/-- Every run of the machine from a statement keeps to it. -/
theorem inPlace_reaches {e : Expr} {m : Machine}
    (hrun : Reaches cx ⟨.eval e frame, [], s⟩ m) : m.InPlace frame :=
  hrun.preserves inPlace_step (inPlace_eval rfl trivial)

end Machine

end LispSession
