import LispSession.Proofs.Frames.Natives
import LispSession.Proofs.Frames.WellFormed
import LispSession.Proofs.Machine.Session

/-!
# No dangling frames

While an evaluation runs, closures are not only in bindings: there are those among the
arguments that are evaluated already, in the first part of a pair, and in the value just
computed. All of them refer to marked frames, so that none of them loses its frame when
a call is over. The frames that the rest of the evaluation uses need not be marked, but
those that it uses after a call were made before the frame of that call.

* `TasksFit`            the tasks refer only to frames that are there when they need them
* `wellFormed_step`     one step of the machine keeps the invariant
* `wellFormed_reaches`  every run of the machine does
* `no_dangling_frame`   all that holds at every step of every session
-/

namespace LispSession

/-- How many frames are there for the tasks after this one: when the task ends a call,
    only those made before the call. -/
def Task.limit (n : Nat) : Task → Nat
  | leave frame => frame.index
  | _ => n

/-- Each task uses only frames that are there when its turn comes, and the closures in
    the values that tasks hold refer to marked frames. -/
def TasksFit (pinned : Nat) : Nat → List Task → Prop
  | _, [] => True
  | n, task :: tasks =>
    (∀ frame ∈ task.frames, frame.index < n) ∧ (∀ v ∈ task.values, v.Below pinned) ∧
      TasksFit pinned (task.limit n) tasks

/-- More frames and more marked frames do no harm. -/
private theorem TasksFit.mono {p q m n : Nat} (hpq : p ≤ q) (hmn : m ≤ n) {tasks : List Task}
    (h : TasksFit p m tasks) : TasksFit q n tasks := by
  induction tasks generalizing m n with
  | nil => trivial
  | cons task tasks ih =>
    obtain ⟨hframes, hvalues, hrest⟩ := h
    refine ⟨?_, ?_, ?_⟩
    · intro frame hframe
      exact Nat.lt_of_lt_of_le (hframes frame hframe) hmn
    · intro v hv
      exact (hvalues v hv).mono hpq
    -- How many frames are there after a call does not depend on how many there are in it.
    · cases task with
      | leave frame => exact ih (Nat.le_refl _) hrest
      | _ => exact ih hmn hrest

/-- Every task uses frames that are there now. -/
theorem TasksFit.lt_of_mem {p n : Nat} {tasks : List Task} (h : TasksFit p n tasks)
    {frame : FrameId} (hframe : frame ∈ tasks.flatMap Task.frames) : frame.index < n := by
  -- The tasks further down were there before the frames of those above them.
  induction tasks generalizing n with
  | nil => exact nomatch hframe
  | cons task tasks ih =>
    obtain ⟨hframes, _, hrest⟩ := h
    rcases List.mem_append.mp hframe with hframe | hframe
    · exact hframes frame hframe
    · have hlt := ih hrest hframe
      cases task with
      | leave home => exact Nat.lt_trans hlt (hframes home List.mem_cons_self)
      | _ => exact hlt

/-- A value that a task holds refers to marked frames. -/
theorem TasksFit.below_of_mem {p n : Nat} {tasks : List Task} (h : TasksFit p n tasks)
    {v : Value} (hv : v ∈ tasks.flatMap Task.values) : v.Below p := by
  induction tasks generalizing n with
  | nil => exact nomatch hv
  | cons task tasks ih =>
    obtain ⟨_, hvalues, hrest⟩ := h
    rcases List.mem_append.mp hv with hv | hv
    · exact hvalues v hv
    · exact ih hrest hv

namespace Machine

/-- The invariant of the machine. -/
structure WellFormed (m : Machine) : Prop where
  env : m.state.env.WellFormed
  control_frames : ∀ frame ∈ m.control.frames, frame.index < m.state.env.frames.size
  control_values : ∀ v ∈ m.control.values, v.Below m.state.env.pinned
  tasks : TasksFit m.state.env.pinned m.state.env.frames.size m.tasks

variable {cx : Context} {frame : FrameId} {tasks : List Task} {s : State}

/-- The machine about to evaluate in a frame that is there is well formed. -/
theorem wellFormed_eval {e : Expr} (henv : s.env.WellFormed)
    (hframe : frame.index < s.env.frames.size)
    (htasks : TasksFit s.env.pinned s.env.frames.size tasks) :
    WellFormed ⟨.eval e frame, tasks, s⟩ :=
  ⟨henv, fun _ h => List.mem_singleton.mp h ▸ hframe, List.forall_mem_nil _, htasks⟩

/-- The machine with a value that refers to marked frames is well formed. -/
private theorem wellFormed_value {v : Value} (henv : s.env.WellFormed) (hv : v.Below s.env.pinned)
    (htasks : TasksFit s.env.pinned s.env.frames.size tasks) :
    WellFormed ⟨.value v, tasks, s⟩ :=
  ⟨henv, List.forall_mem_nil _, fun _ h => List.mem_singleton.mp h ▸ hv, htasks⟩

/-- The machine with an error is well formed. -/
private theorem wellFormed_error {e : EvalError} (henv : s.env.WellFormed)
    (htasks : TasksFit s.env.pinned s.env.frames.size tasks) :
    WellFormed ⟨.error e, tasks, s⟩ :=
  ⟨henv, List.forall_mem_nil _, List.forall_mem_nil _, htasks⟩

/-- One more task that does not end a call. -/
private theorem tasksFit_cons {p n : Nat} {task : Task}
    (hframes : ∀ frame ∈ task.frames, frame.index < n) (hvalues : ∀ v ∈ task.values, v.Below p)
    (hlimit : task.limit n = n) (htasks : TasksFit p n tasks) : TasksFit p n (task :: tasks) :=
  ⟨hframes, hvalues, hlimit.symm ▸ htasks⟩

/-! ### Bodies and calls -/

/-- The machine is well formed when it starts on a body. -/
private theorem wellFormed_startBody (henv : s.env.WellFormed)
    (hframe : frame.index < s.env.frames.size)
    (htasks : TasksFit s.env.pinned s.env.frames.size tasks) (es : List Expr) :
    (startBody frame tasks s es).WellFormed := by
  match es with
  | [] => exact wellFormed_value henv trivial htasks
  | [e] => exact wellFormed_eval henv hframe htasks
  | e :: e' :: es =>
    refine wellFormed_eval henv hframe (tasksFit_cons ?_ (List.forall_mem_nil _) rfl htasks)
    exact fun _ h => List.mem_singleton.mp h ▸ hframe

/-- The machine is well formed when it enters a function. -/
private theorem wellFormed_enter (henv : s.env.WellFormed)
    (htasks : TasksFit s.env.pinned s.env.frames.size tasks) {home : FrameId}
    (hhome : home.index < s.env.pinned) {args : List Value}
    (hargs : ∀ arg ∈ args, arg.Below s.env.pinned) (fn : Lambda) :
    (enter cx fn home args tasks s).WellFormed := by
  simp only [enter]
  split
  · have hsize : s.env.frames.size < (s.env.extend home).2.frames.size := by
      rw [Environment.size_extend]
      exact Nat.lt_succ_self _
    have hextend := henv.extend (Nat.lt_of_lt_of_le hhome henv.pinned_le)
    refine wellFormed_startBody (hextend.defineAll _ _ hargs) ?_ ?_ _
    · rw [Environment.size_defineAll]
      exact hsize
    · refine ⟨fun other hother => ?_, List.forall_mem_nil _, ?_⟩
      · rw [Environment.size_defineAll, List.mem_singleton.mp hother]
        exact hsize
      -- The frames that the caller's tasks use were made before the new one.
      · rw [Environment.pinned_defineAll]
        exact htasks
  · exact wellFormed_error henv htasks

/-- The machine is well formed when it calls a value. -/
private theorem wellFormed_startCall (hregistry : cx.registry = Standard.registry)
    (henv : s.env.WellFormed) (htasks : TasksFit s.env.pinned s.env.frames.size tasks)
    {callee : Value} (hcallee : callee.Below s.env.pinned) {args : List Value}
    (hargs : ∀ arg ∈ args, arg.Below s.env.pinned) (name : String) (frame : FrameId) :
    (startCall cx callee name args frame tasks s).WellFormed := by
  cases callee with
  | closure fn home =>
    simp only [startCall]
    split
    · exact wellFormed_enter henv htasks hcallee hargs fn
    · exact wellFormed_error henv htasks
  | native native =>
    -- A native function leaves the environment alone, and its result refers to nothing new.
    have hsame := Standard.invoke_env native args frame s
    simp only [startCall, hregistry]
    cases hinvoke : Standard.registry.invoke native args frame s with
    | value v s' =>
      have hv := Standard.below_of_invoke hargs hinvoke
      rw [hinvoke, Outcome.state_value] at hsame
      rw [← hsame] at henv htasks hv
      exact wellFormed_value henv hv htasks
    | error e s' =>
      rw [hinvoke, Outcome.state_error] at hsame
      rw [← hsame] at henv htasks
      exact wellFormed_error henv htasks
  | _ => exact wellFormed_error henv htasks

/-- The machine is well formed when it starts on the next argument, or on the call after the last.
    -/
private theorem wellFormed_startArgs (hregistry : cx.registry = Standard.registry)
    (henv : s.env.WellFormed) (hframe : frame.index < s.env.frames.size)
    (htasks : TasksFit s.env.pinned s.env.frames.size tasks)
    {callee : Value} (hcallee : callee.Below s.env.pinned) {taken : List Value}
    (htaken : ∀ arg ∈ taken, arg.Below s.env.pinned) (name : String) (es : List Expr) :
    (startArgs cx callee name taken frame tasks s es).WellFormed := by
  cases es with
  | nil => exact wellFormed_startCall hregistry henv htasks hcallee htaken name frame
  | cons e es =>
    refine wellFormed_eval henv hframe (tasksFit_cons ?_ ?_ rfl htasks)
    · exact fun _ h => List.mem_singleton.mp h ▸ hframe
    · exact fun v hv => (List.mem_cons.mp hv).elim (fun h => h ▸ hcallee) (htaken v)

/-! ### One step -/

/-- A closure is made in a frame that is there, and marks it. -/
theorem wellFormed_closureIn (henv : s.env.WellFormed)
    (hframe : frame.index < s.env.frames.size)
    (htasks : TasksFit s.env.pinned s.env.frames.size tasks) (fn : Lambda) :
    WellFormed ⟨.value (closureIn fn frame s).1, tasks, (closureIn fn frame s).2⟩ :=
  wellFormed_value (henv.capture hframe) (s.env.lt_pinned_capture frame)
    (htasks.mono (s.env.pinned_le_capture frame) (Nat.le_refl _))

/-- The machine is well formed when it starts on an expression. -/
private theorem wellFormed_start (hregistry : cx.registry = Standard.registry)
    (henv : s.env.WellFormed) (hframe : frame.index < s.env.frames.size)
    (htasks : TasksFit s.env.pinned s.env.frames.size tasks) (e : Expr) :
    (start cx frame tasks s e).WellFormed := by
  have hhere : ∀ other ∈ [frame], other.index < s.env.frames.size :=
    fun _ h => List.mem_singleton.mp h ▸ hframe
  have hnone : ∀ v ∈ ([] : List Value), v.Below s.env.pinned := List.forall_mem_nil _
  -- What is left for later is a task with this frame, if anything is.
  cases e with
  | number | string | boolean | quoted => exact wellFormed_value henv trivial htasks
  | data items => exact wellFormed_value henv (Literal.below_listValue _ items) htasks
  | «variable» name =>
    simp only [start]
    cases hlookup : s.env.lookup? frame name with
    | some v => exact wellFormed_value henv (henv.below_lookup hlookup) htasks
    | none => exact wellFormed_error henv htasks
  | lambda fn => exact wellFormed_closureIn henv hframe htasks fn
  | sequence body => exact wellFormed_startBody henv hframe htasks body
  | cons | define | branch | assign =>
    exact wellFormed_eval henv hframe (tasksFit_cons hhere hnone rfl htasks)
  | apply operator arguments =>
    cases operator with
    | «variable» name =>
      simp only [start, evalOperator]
      cases hlookup : s.env.lookup? frame name with
      | some v =>
        exact wellFormed_startArgs hregistry henv hframe htasks (henv.below_lookup hlookup) hnone
          _ arguments
      | none => exact wellFormed_error henv htasks
    | lambda fn =>
      -- The mark may have gone up, so that the invariant is that of the new state.
      have hclosure := wellFormed_closureIn henv hframe htasks fn
      have hnone : ∀ v ∈ ([] : List Value), v.Below (closureIn fn frame s).2.env.pinned :=
        List.forall_mem_nil _
      exact wellFormed_startArgs hregistry hclosure.env hframe hclosure.tasks
        (hclosure.control_values _ List.mem_cons_self) hnone _ arguments

/-- The frames and the mark after a call is over, where the frame of the call was there. -/
private theorem tasksFit_leave
    (htasks : TasksFit s.env.pinned s.env.frames.size (.leave frame :: tasks))
    (policy : FramePolicy) :
    (policy.leave frame s.env).pinned = s.env.pinned ∧
      TasksFit s.env.pinned (policy.leave frame s.env).frames.size tasks := by
  obtain ⟨hframes, _, hrest⟩ := htasks
  have hframe := hframes frame List.mem_cons_self
  cases policy with
  -- Dropping frames keeps the marked ones and those made before the call.
  | reclaim =>
    refine ⟨rfl, hrest.mono (Nat.le_refl _) ?_⟩
    simp only [FramePolicy.leave, Environment.size_release, Task.limit]
    omega
  | retain => exact ⟨rfl, hrest.mono (Nat.le_refl _) (Nat.le_of_lt hframe)⟩

/-- The machine is well formed when it hands a value to the next task. -/
private theorem wellFormed_resume (hregistry : cx.registry = Standard.registry)
    (henv : s.env.WellFormed) {v : Value} (hv : v.Below s.env.pinned) {task : Task}
    (htasks : TasksFit s.env.pinned s.env.frames.size (task :: tasks)) :
    (resume cx v tasks s task).WellFormed := by
  obtain ⟨hframes, hvalues, hrest⟩ := id htasks
  -- The frames and values of the task are accounted for; the mark only moves at captures.
  cases task with
  | consCdr cdr frame =>
    have hframe := hframes frame List.mem_cons_self
    exact wellFormed_eval henv hframe
      (tasksFit_cons (List.forall_mem_nil _) (fun _ h => List.mem_singleton.mp h ▸ hv) rfl hrest)
  | consPair first => exact wellFormed_value henv ⟨hvalues first List.mem_cons_self, hv⟩ hrest
  | define name frame =>
    refine wellFormed_value ((henv.define frame name hv).intern _) trivial ?_
    show TasksFit s.env.pinned (s.env.define frame name v).frames.size tasks
    rw [Environment.size_define]
    exact hrest
  | branch consequent alternative frame =>
    exact wellFormed_eval henv (hframes frame List.mem_cons_self) hrest
  | assign name frame =>
    simp only [resume, assignName]
    cases hassign : s.env.assign? frame name v with
    | some env =>
      obtain ⟨found, _, rfl⟩ := Option.map_eq_some_iff.mp hassign
      refine wellFormed_value (henv.define found name hv) hv ?_
      rw [Environment.size_define]
      exact hrest
    | none => exact wellFormed_error henv hrest
  | body rest frame => exact wellFormed_startBody henv (hframes frame List.mem_cons_self) hrest rest
  | argument callee name taken rest frame =>
    refine wellFormed_startArgs hregistry henv (hframes frame List.mem_cons_self) hrest
      (hvalues callee List.mem_cons_self) (fun arg harg => ?_) name rest
    rcases List.mem_append.mp harg with harg | harg
    · exact hvalues arg (List.mem_cons_of_mem _ harg)
    · exact List.mem_singleton.mp harg ▸ hv
  | leave frame =>
    obtain ⟨hpinned, hfit⟩ := tasksFit_leave htasks cx.policy
    exact wellFormed_value (henv.leave cx.policy frame) (hpinned.symm ▸ hv) (hpinned.symm ▸ hfit)

/-- The machine is well formed when an error passes a task. -/
private theorem wellFormed_unwind (henv : s.env.WellFormed) {task : Task}
    (htasks : TasksFit s.env.pinned s.env.frames.size (task :: tasks)) (e : EvalError) :
    WellFormed ⟨.error e, tasks, task.unwind cx s⟩ := by
  cases task with
  | leave frame =>
    obtain ⟨hpinned, hfit⟩ := tasksFit_leave htasks cx.policy
    exact wellFormed_error (henv.leave cx.policy frame) (hpinned.symm ▸ hfit)
  | _ => exact wellFormed_error henv htasks.2.2

/-- One step of the machine keeps the invariant. -/
theorem wellFormed_step (hregistry : cx.registry = Standard.registry) {m m' : Machine}
    (h : m.WellFormed) (hstep : m.step cx = some m') : m'.WellFormed := by
  obtain ⟨henv, hframes, hvalues, htasks⟩ := h
  cases step_eq_some_iff.mp hstep with
  | start e frame =>
    exact wellFormed_start hregistry henv (hframes frame List.mem_cons_self) htasks e
  | resume v => exact wellFormed_resume hregistry henv (hvalues v List.mem_cons_self) htasks
  | unwind e => exact wellFormed_unwind henv htasks e

/-- Every run of the machine from a statement keeps the invariant. -/
theorem wellFormed_reaches (hregistry : cx.registry = Standard.registry)
    (henv : s.env.WellFormed) {e : Expr} {m : Machine}
    (hreaches : Reaches cx ⟨.eval e .global, [], s⟩ m) : m.WellFormed :=
  hreaches.preserves (fun _ _ => wellFormed_step hregistry)
    (wellFormed_eval henv henv.size_pos trivial)

/-- The environment after a statement is well formed again. -/
theorem wellFormed_evaluate (hregistry : cx.registry = Standard.registry)
    (henv : s.env.WellFormed) (e : Expr) : (evaluate cx e .global s).state.env.WellFormed := by
  have h := (wellFormed_reaches hregistry henv (reaches_evaluate cx e .global s)).env
  cases hout : evaluate cx e .global s with
  | value v s' => rw [hout] at h; exact h
  | error e s' => rw [hout] at h; exact h

end Machine

/-- The frame of a call in progress is used at its end. -/
theorem mem_frames_of_mem_calls {tasks : List Task} {frame : FrameId}
    (h : frame ∈ callsOf tasks) : frame ∈ tasks.flatMap Task.frames := by
  obtain ⟨task, htask, hcall⟩ := List.mem_filterMap.mp h
  refine List.mem_flatMap.mpr ⟨task, htask, ?_⟩
  cases task with
  | leave home => exact List.mem_singleton.mpr (Option.some.inj hcall).symm
  | _ => exact nomatch hcall

namespace Interpreter

/-- An environment that is prepared for a text stays well formed. -/
theorem wellFormed_prepare (interpreter : Interpreter) {env : Environment}
    (h : env.WellFormed) (text : String) : (interpreter.prepare env text).WellFormed :=
  (h.install interpreter.registry).withSymbols _

/-- The environment is well formed after every session. -/
theorem wellFormed_envAfter (config : Config) (texts : List String) :
    ((ofConfig config).envAfter texts).WellFormed :=
  envAfter_induct Environment.wellFormed_new (fun _ text h => wellFormed_prepare _ h text)
    (fun e _ h => Machine.wellFormed_evaluate rfl h e) texts

/-- Between any two texts of a session from a fresh environment, the environment is well
    formed. At every step of the evaluation of the next text, whatever has failed before,
    it is so too; the closures in flight refer to marked frames, the frame of every call
    in progress is there, and so is every frame that a walk outward reads from one that
    the evaluation uses. -/
theorem no_dangling_frame (config : Config) (texts : List String) :
    ((ofConfig config).envAfter texts).WellFormed ∧
      ∀ (text : String) (m : Machine),
        (ofConfig config).Passes ((ofConfig config).envAfter texts) text m →
          m.state.env.WellFormed ∧
            (∀ v ∈ m.values, v.Below m.state.env.pinned) ∧
            (∀ frame ∈ m.calls, frame.index < m.state.env.frames.size) ∧
            ∀ frame ∈ m.frames, ∀ (name : Symbol) (i : Nat),
              m.state.env.Reads name frame.index i → i < m.state.env.frames.size := by
  have henv := wellFormed_envAfter config texts
  refine ⟨henv, fun text m ⟨program, _, hpasses⟩ => ?_⟩
  -- Statements keep the invariant between them, and steps keep it within them.
  have hm : m.WellFormed := hpasses.induct (P := fun s => s.env.WellFormed)
    (fun e _ hs => Machine.wellFormed_evaluate rfl hs e) (fun _ _ hs => hs)
    (fun _ _ _ hs hreaches => Machine.wellFormed_reaches rfl hs hreaches)
    (wellFormed_prepare _ henv text)
  have hframes : ∀ frame ∈ m.frames, frame.index < m.state.env.frames.size := by
    intro frame hframe
    rcases List.mem_append.mp hframe with hframe | hframe
    · exact hm.control_frames frame hframe
    · exact hm.tasks.lt_of_mem hframe
  refine ⟨hm.env, ?_, ?_, ?_⟩
  · intro v hv
    rcases List.mem_append.mp hv with hv | hv
    · exact hm.control_values v hv
    · exact hm.tasks.below_of_mem hv
  · intro frame hframe
    exact hframes frame (List.mem_append_right _ (mem_frames_of_mem_calls hframe))
  · intro frame hframe name i hreads
    exact hm.env.lt_size_of_reads (hframes frame hframe) hreads

/-- In the call of a function that returns a function: the closure that it has just
    made refers to the frame of the call in progress. -/
theorem no_dangling_frame_in_call :
    ∃ m : Machine, m.calls = [⟨1⟩] ∧ m.values.length = 1 ∧
      (ofConfig .default).Passes
        ((ofConfig .default).envAfter ["(define (f x) (lambda (y) x))"]) "(f 'a)" m ∧
      (∀ v ∈ m.values, v.Below m.state.env.pinned) ∧
      ∀ frame ∈ m.calls, frame.index < m.state.env.frames.size := by
  -- The call is found among the first few states of the machine.
  have hrun : (((ofConfig .default).inFirst?
      ((ofConfig .default).envAfter ["(define (f x) (lambda (y) x))"]) "(f 'a)" 4).any
      fun m => m.calls = [⟨1⟩] ∧ m.values.length = 1) = true := by decide +kernel
  obtain ⟨m, hm, hshape⟩ := (Option.any_eq_true _ _).mp hrun
  obtain ⟨hcalls, hvalues⟩ := of_decide_eq_true hshape
  have hpasses := passes_of_inFirst? hm
  obtain ⟨_, hbelow, hthere, _⟩ := (no_dangling_frame .default _).2 _ m hpasses
  exact ⟨m, hcalls, hvalues, hpasses, hbelow, hthere⟩

end Interpreter

end LispSession
