import LispSession.Proofs.Frames.Relocation

/-!
# Reclaiming frames is unobservable

Two machines run side by side: one drops the frames of calls that are over, the other
keeps all frames. The first gives an old place to a new frame where the second takes a
new place, so at each step the frames of the first stand at other places in the second,
by a renaming that grows with every call. Since no step of the first one refers to a
frame that was dropped, the renaming carries every step over.

* `relocated_step`      one step of both machines
* `relocated_evaluate`  one statement
* `relocated_session`   all texts of a session
* `session_reclaim_eq_session_retain`  what a user sees of the two sessions is the same
-/

namespace LispSession

/-- The task with its frames and closures moved. -/
def Task.relocate (r : Nat → Nat) : Task → Task
  | consCdr cdr frame => consCdr cdr (frame.relocate r)
  | consPair first => consPair (first.relocate r)
  | define name frame => define name (frame.relocate r)
  | branch consequent alternative frame => branch consequent alternative (frame.relocate r)
  | assign name frame => assign name (frame.relocate r)
  | body rest frame => body rest (frame.relocate r)
  | argument callee name taken rest frame =>
    argument (callee.relocate r) name (taken.map (Value.relocate r)) rest (frame.relocate r)
  | leave frame => leave (frame.relocate r)

/-- The control with its frame and closures moved. -/
def Control.relocate (r : Nat → Nat) : Control → Control
  | eval e frame => eval e (frame.relocate r)
  | value v => value (v.relocate r)
  | error e => error e

/-- Moving frames leaves the number of calls in progress. -/
@[simp] theorem length_callsOf_relocate (r : Nat → Nat) (tasks : List Task) :
    (callsOf (tasks.map (Task.relocate r))).length = (callsOf tasks).length := by
  induction tasks with
  | nil => rfl
  | cons task tasks ih =>
    simp only [callsOf, List.map_cons, List.filterMap_cons] at ih ⊢
    cases task with
    | leave frame => simp only [Task.relocate, Task.call?, List.length_cons, ih]
    | _ => exact ih

/-- Values that refer to frames below a bound are moved by what happens to those. -/
private theorem Value.map_relocate_congr {n : Nat} {r r' : Nat → Nat} (hr : ∀ i < n, r i = r' i)
    {vs : List Value} (h : ∀ v ∈ vs, v.Below n) :
    vs.map (Value.relocate r) = vs.map (Value.relocate r') :=
  List.map_congr_left fun v hv => relocate_congr hr (h v hv)

/-- Two moves that agree on the frames that are there move tasks alike. -/
private theorem TasksFit.relocate_congr {p n : Nat} {r r' : Nat → Nat} (hr : ∀ i < n, r i = r' i)
    (hp : p ≤ n) {k : Nat} (hk : k ≤ n) {tasks : List Task} (h : TasksFit p k tasks) :
    tasks.map (Task.relocate r) = tasks.map (Task.relocate r') := by
  induction tasks generalizing k with
  | nil => rfl
  | cons task tasks ih =>
    obtain ⟨hframes, hvalues, hrest⟩ := h
    -- The tasks after the end of a call use still fewer frames.
    have hlimit : task.limit k ≤ n := by
      cases task with
      | leave frame => exact Nat.le_of_lt (Nat.lt_of_lt_of_le (hframes _ List.mem_cons_self) hk)
      | _ => exact hk
    have hframe : ∀ frame ∈ task.frames, frame.relocate r = frame.relocate r' :=
      fun frame hmem => by
        simp only [FrameId.relocate, hr _ (Nat.lt_of_lt_of_le (hframes frame hmem) hk)]
    have hvalue : ∀ v ∈ task.values, v.relocate r = v.relocate r' :=
      fun v hv => Value.relocate_congr hr ((hvalues v hv).mono hp)
    have htask : task.relocate r = task.relocate r' := by
      cases task with
      | consPair first => simp only [Task.relocate, hvalue first List.mem_cons_self]
      | argument callee name taken rest frame =>
        simp only [Task.relocate, hframe frame List.mem_cons_self,
          hvalue callee List.mem_cons_self,
          List.map_congr_left fun v hv => hvalue v (List.mem_cons_of_mem _ hv)]
      | consCdr cdr frame => simp only [Task.relocate, hframe frame List.mem_cons_self]
      | define name frame => simp only [Task.relocate, hframe frame List.mem_cons_self]
      | branch e e' frame => simp only [Task.relocate, hframe frame List.mem_cons_self]
      | assign name frame => simp only [Task.relocate, hframe frame List.mem_cons_self]
      | body rest frame => simp only [Task.relocate, hframe frame List.mem_cons_self]
      | leave frame => simp only [Task.relocate, hframe frame List.mem_cons_self]
    rw [List.map_cons, List.map_cons, htask, ih hlimit hrest]

/-- The same scopes in other places, and the same lines written. -/
structure State.Relocated (r : Nat → Nat) (s s' : State) : Prop where
  env : Environment.Relocated r s.env s'.env
  output : s'.output = s.output

namespace State.Relocated

variable {r : Nat → Nat} {s s' : State}

/-- A symbol has the same name in both states. -/
private theorem nameOf (h : State.Relocated r s s') (symbol : Symbol) :
    s'.nameOf symbol = s.nameOf symbol := by
  simp only [State.nameOf, h.env.symbols]

/-- A value is shown alike in both states. -/
private theorem render (h : State.Relocated r s s') (v : Value) :
    s'.render (v.relocate r) = s.render v := by
  simp only [State.render, h.env.symbols, Value.render_relocate]

/-- Writing a line keeps the states the same. -/
private theorem write (h : State.Relocated r s s') (line : String) :
    State.Relocated r (s.write line) (s'.write line) :=
  ⟨h.env, by simp only [State.write, h.output]⟩

/-- At the end of a call the frames made since may be dropped from the first alone. -/
private theorem leave (h : State.Relocated r s s') (frame frame' : FrameId) :
    State.Relocated r { s with env := FramePolicy.reclaim.leave frame s.env }
      { s' with env := FramePolicy.retain.leave frame' s'.env } :=
  ⟨h.env.release frame, h.output⟩

end State.Relocated

/-- The same outcome with all frames moved. -/
inductive Outcome.Relocated (r : Nat → Nat) : Outcome Value → Outcome Value → Prop where
  | value {v : Value} {s s' : State} (h : State.Relocated r s s') :
    Relocated r (.value v s) (.value (v.relocate r) s')
  | error {e : EvalError} {s s' : State} (h : State.Relocated r s s') :
    Relocated r (.error e s) (.error e s')

/-- The context of an interpreter with the standard native functions. -/
abbrev Context.standard (maxDepth : Nat) (policy : FramePolicy) : Context :=
  ⟨Standard.registry, maxDepth, policy⟩

namespace Machine

/-- The same state of the machine with all frames moved. -/
structure Relocated (r : Nat → Nat) (m m' : Machine) : Prop where
  control : m'.control = m.control.relocate r
  tasks : m'.tasks = m.tasks.map (Task.relocate r)
  state : State.Relocated r m.state m'.state

variable {r : Nat → Nat} {s s' : State} {maxDepth : Nat} {frame : FrameId} {tasks : List Task}

/-- Both machines start alike on a body. -/
private theorem relocated_startBody (h : State.Relocated r s s') (frame : FrameId)
    (tasks : List Task) (es : List Expr) :
    Relocated r (startBody frame tasks s es)
      (startBody (frame.relocate r) (tasks.map (Task.relocate r)) s' es) := by
  match es with
  | [] => exact ⟨rfl, rfl, h⟩
  | [e] => exact ⟨rfl, rfl, h⟩
  | e :: e' :: es => exact ⟨rfl, rfl, h⟩

/-- A call makes a frame in both machines; the renaming maps one to the other. -/
private theorem relocated_enter (h : State.Relocated r s s') (hwf : s.env.WellFormed)
    (htasks : TasksFit s.env.pinned s.env.frames.size tasks) {home : FrameId}
    (hhome : home.index < s.env.pinned) {args : List Value}
    (hargs : ∀ arg ∈ args, arg.Below s.env.pinned) (fn : Lambda) :
    ∃ r', Relocated r' (enter (.standard maxDepth .reclaim) fn home args tasks s)
      (enter (.standard maxDepth .retain) fn (home.relocate r) (args.map (Value.relocate r))
        (tasks.map (Task.relocate r)) s') := by
  simp only [enter, length_callsOf_relocate]
  split
  · have hhome' := Nat.lt_of_lt_of_le hhome hwf.pinned_le
    -- The new frame is the last one on both sides, and all others keep their places.
    let r' : Nat → Nat := fun i => if i = s.env.frames.size then s'.env.frames.size else r i
    have hagree : ∀ i < s.env.frames.size, r i = r' i :=
      fun i hi => (if_neg (Nat.ne_of_lt hi)).symm
    have hnew : (⟨s'.env.frames.size⟩ : FrameId) = FrameId.relocate r' ⟨s.env.frames.size⟩ := by
      simp only [FrameId.relocate, r', if_true]
    -- What is in flight refers to the others only.
    have htasks' := htasks.relocate_congr hagree hwf.pinned_le (Nat.le_refl _)
    have hargs' := Value.map_relocate_congr hagree
      fun arg harg => (hargs arg harg).mono hwf.pinned_le
    have hthere : s.env.frames.size < (s.env.extend home).2.frames.size := by
      rw [Environment.size_extend]
      exact Nat.lt_succ_self _
    have hextend : Environment.Relocated r' (s.env.extend home).2
        (s'.env.extend (home.relocate r)).2 := h.env.extend hwf hhome'
    have hstate : State.Relocated r'
        ⟨(s.env.extend home).2.defineAll ⟨s.env.frames.size⟩ fn.params args, s.output⟩
        ⟨(s'.env.extend (home.relocate r)).2.defineAll (FrameId.relocate r' ⟨s.env.frames.size⟩)
          fn.params (args.map (Value.relocate r')), s'.output⟩ :=
      ⟨hextend.defineAll hthere fn.params args, h.output⟩
    have hbody := relocated_startBody hstate ⟨s.env.frames.size⟩
      (.leave ⟨s.env.frames.size⟩ :: tasks) fn.body
    rw [List.map_cons, Task.relocate, ← htasks', ← hargs', ← hnew] at hbody
    exact ⟨r', hbody⟩
  · exact ⟨r, rfl, rfl, h⟩

/-- Both machines call a value alike. -/
private theorem relocated_startCall (h : State.Relocated r s s') (hwf : s.env.WellFormed)
    (htasks : TasksFit s.env.pinned s.env.frames.size tasks) {callee : Value}
    (hcallee : callee.Below s.env.pinned) {args : List Value}
    (hargs : ∀ arg ∈ args, arg.Below s.env.pinned) (name : String) (frame : FrameId) :
    ∃ r', Relocated r' (startCall (.standard maxDepth .reclaim) callee name args frame tasks s)
      (startCall (.standard maxDepth .retain) (callee.relocate r) name
        (args.map (Value.relocate r)) (frame.relocate r) (tasks.map (Task.relocate r)) s') := by
  have hrender := h.render callee
  cases callee with
  | closure fn home =>
    simp only [Value.relocate, startCall, List.length_map]
    split
    · exact relocated_enter h hwf htasks hcallee hargs fn
    · exact ⟨r, rfl, rfl, h⟩
  | native native =>
    -- A native function leaves both environments as they are and yields the same.
    have hsame := Standard.invoke_env native args frame s
    have hinvoke := Standard.invoke_relocate r native args frame (frame.relocate r) s s'.env
      h.env.symbols
    have hs' : { s with env := s'.env } = s' := by
      rw [← h.output]
    rw [hs'] at hinvoke
    simp only [Value.relocate, startCall, hinvoke]
    refine ⟨r, ?_⟩
    cases hout : Standard.registry.invoke native args frame s with
    | value v t =>
      rw [hout, Outcome.state_value] at hsame
      exact ⟨rfl, rfl, hsame ▸ h.env, rfl⟩
    | error e t =>
      rw [hout, Outcome.state_error] at hsame
      exact ⟨rfl, rfl, hsame ▸ h.env, rfl⟩
  | _ => exact ⟨r, congrArg (fun text => Control.error (.notCallable text)) hrender, rfl, h⟩

/-- Both machines start alike on the next argument, or on the call after the last. -/
private theorem relocated_startArgs (h : State.Relocated r s s') (hwf : s.env.WellFormed)
    (htasks : TasksFit s.env.pinned s.env.frames.size tasks) {callee : Value}
    (hcallee : callee.Below s.env.pinned) {taken : List Value}
    (htaken : ∀ arg ∈ taken, arg.Below s.env.pinned) (name : String) (frame : FrameId)
    (es : List Expr) :
    ∃ r', Relocated r'
      (startArgs (.standard maxDepth .reclaim) callee name taken frame tasks s es)
      (startArgs (.standard maxDepth .retain) (callee.relocate r) name
        (taken.map (Value.relocate r)) (frame.relocate r) (tasks.map (Task.relocate r)) s' es) := by
  cases es with
  | nil => exact relocated_startCall h hwf htasks hcallee htaken name frame
  | cons e es => exact ⟨r, rfl, rfl, h⟩

/-! ### One step -/

/-- Both machines start alike on an expression. -/
private theorem relocated_start (h : State.Relocated r s s') (hwf : s.env.WellFormed)
    (hframe : frame.index < s.env.frames.size)
    (htasks : TasksFit s.env.pinned s.env.frames.size tasks) (e : Expr) :
    ∃ r', Relocated r' (start (.standard maxDepth .reclaim) frame tasks s e)
      (start (.standard maxDepth .retain) (frame.relocate r) (tasks.map (Task.relocate r)) s'
        e) := by
  have hnone : ∀ v ∈ ([] : List Value), v.Below s.env.pinned := List.forall_mem_nil _
  have hcapture := h.env.capture frame (frame.relocate r)
  -- No frame is made or left here, except where a call without arguments starts at once.
  cases e with
  | data items =>
    exact ⟨r, congrArg Control.value (Literal.listValue_relocate r items).symm, rfl, h⟩
  | «variable» name =>
    simp only [start, h.env.lookup hwf hframe, h.nameOf]
    cases s.env.lookup? frame name with
    | some v => exact ⟨r, rfl, rfl, h⟩
    | none => exact ⟨r, rfl, rfl, h⟩
  | lambda fn => exact ⟨r, rfl, rfl, hcapture, h.output⟩
  | sequence body => exact ⟨r, relocated_startBody h frame tasks body⟩
  | apply operator arguments =>
    cases operator with
    | «variable» name =>
      simp only [start, evalOperator, h.env.lookup hwf hframe, h.nameOf]
      cases hlookup : s.env.lookup? frame name with
      | some v =>
        exact relocated_startArgs h hwf htasks (hwf.below_lookup hlookup) hnone _ frame arguments
      | none => exact ⟨r, rfl, rfl, h⟩
    | lambda fn =>
      have hclosure := wellFormed_closureIn hwf hframe htasks fn
      -- The function marks its frame before the arguments are evaluated.
      have hnone' : ∀ v ∈ ([] : List Value), v.Below (closureIn fn frame s).2.env.pinned :=
        List.forall_mem_nil _
      have hstate : State.Relocated r (closureIn fn frame s).2
        (closureIn fn (frame.relocate r) s').2 := ⟨hcapture, h.output⟩
      exact relocated_startArgs hstate hclosure.env hclosure.tasks
        (hclosure.control_values _ List.mem_cons_self) hnone' _ frame arguments
  | _ => exact ⟨r, rfl, rfl, h⟩

/-- Both machines hand a value alike to the next task. -/
private theorem relocated_resume (h : State.Relocated r s s') (hwf : s.env.WellFormed) {v : Value}
    (hv : v.Below s.env.pinned) {task : Task}
    (htasks : TasksFit s.env.pinned s.env.frames.size (task :: tasks)) :
    ∃ r', Relocated r' (resume (.standard maxDepth .reclaim) v tasks s task)
      (resume (.standard maxDepth .retain) (v.relocate r) (tasks.map (Task.relocate r)) s'
        (task.relocate r)) := by
  obtain ⟨hframes, hvalues, hrest⟩ := id htasks
  cases task with
  | define name frame =>
    have hdefine := h.env.define (hframes frame List.mem_cons_self) name v
    obtain ⟨hok, henv⟩ := hdefine.intern definedName
    exact ⟨r, congrArg (fun ok => Control.value (.symbol ok)) hok, rfl, henv, h.output⟩
  | branch consequent alternative frame =>
    simp only [resume, Task.relocate, Value.isTruthy_relocate]
    exact ⟨r, rfl, rfl, h⟩
  | assign name frame =>
    simp only [resume, assignName, Task.relocate, Environment.assign?,
      h.env.binder hwf (hframes frame List.mem_cons_self), h.nameOf]
    -- The walk outward finds the same frame on both sides.
    cases hbinder : s.env.binder? frame name with
    | some found =>
      exact ⟨r, rfl, rfl, h.env.define (Environment.lt_size_of_binder hbinder) name v, h.output⟩
    | none => exact ⟨r, rfl, rfl, h⟩
  | body rest frame => exact ⟨r, relocated_startBody h frame tasks rest⟩
  | argument callee name taken rest frame =>
    have htaken : ∀ arg ∈ taken ++ [v], arg.Below s.env.pinned := fun arg harg =>
      (List.mem_append.mp harg).elim (fun h => hvalues arg (List.mem_cons_of_mem _ h))
        (fun h => List.mem_singleton.mp h ▸ hv)
    have hmap : taken.map (Value.relocate r) ++ [v.relocate r] =
        (taken ++ [v]).map (Value.relocate r) := by
      rw [List.map_append, List.map_singleton]
    simp only [resume, Task.relocate, hmap]
    exact relocated_startArgs h hwf hrest (hvalues callee List.mem_cons_self) htaken name frame
      rest
  | leave frame => exact ⟨r, rfl, rfl, h.leave frame (frame.relocate r)⟩
  | _ => exact ⟨r, rfl, rfl, h⟩

/-- An error passes a task alike in both machines. -/
private theorem relocated_unwind (h : State.Relocated r s s') (task : Task) :
    State.Relocated r (task.unwind (.standard maxDepth .reclaim) s)
      ((task.relocate r).unwind (.standard maxDepth .retain) s') := by
  cases task with
  | leave frame => exact h.leave frame (frame.relocate r)
  | _ => exact h

/-- A step of one machine is matched by a step of the other. -/
theorem relocated_step {m m' m₁ : Machine} (h : Relocated r m m') (hwf : m.WellFormed)
    (hstep : m.step (.standard maxDepth .reclaim) = some m₁) :
    ∃ m₁' r', m'.step (.standard maxDepth .retain) = some m₁' ∧ Relocated r' m₁ m₁' := by
  obtain ⟨_, _, s'⟩ := m'
  obtain ⟨rfl, rfl, h⟩ := h
  obtain ⟨henv, hframes, hvalues, htasks⟩ := hwf
  cases step_eq_some_iff.mp hstep with
  | start e frame =>
    obtain ⟨r', hr'⟩ := relocated_start h henv (hframes frame List.mem_cons_self) htasks e
    exact ⟨_, r', rfl, hr'⟩
  | resume v =>
    obtain ⟨r', hr'⟩ := relocated_resume h henv (hvalues v List.mem_cons_self) htasks
    exact ⟨_, r', rfl, hr'⟩
  | unwind e task => exact ⟨_, r, rfl, rfl, rfl, relocated_unwind h task⟩

/-- A run of one machine is matched by a run of the other, step by step. -/
private theorem relocated_reaches {m m' m₁ : Machine} (h : Relocated r m m') (hwf : m.WellFormed)
    (hrun : Reaches (.standard maxDepth .reclaim) m m₁) :
    ∃ m₁' r', Reaches (.standard maxDepth .retain) m' m₁' ∧ Relocated r' m₁ m₁' := by
  -- Each step needs the invariant of the first machine, so it is carried along.
  suffices m₁.WellFormed ∧
      ∃ m₁' r', Reaches (.standard maxDepth .retain) m' m₁' ∧ Relocated r' m₁ m₁' from this.2
  induction hrun with
  | refl => exact ⟨hwf, m', r, .refl, h⟩
  | tail _ hlast ih =>
    obtain ⟨hwf₁, m₁', r₁, hrun', h₁⟩ := ih
    obtain ⟨m₂', r₂, hlast', h₂⟩ := relocated_step h₁ hwf₁ hlast
    exact ⟨wellFormed_step rfl hwf₁ hlast, m₂', r₂, hrun'.tail hlast', h₂⟩

/-- Where one machine ends, so does the other. -/
private theorem Relocated.step_eq_none {m m' : Machine} (h : Relocated r m m') {cx cx' : Context}
    (hend : m.step cx = none) : m'.step cx' = none := by
  obtain ⟨control, tasks, s⟩ := m
  obtain ⟨_, _, s'⟩ := m'
  obtain ⟨rfl, rfl, h⟩ := h
  cases control with
  | eval e frame => exact nomatch hend
  | value v =>
    cases tasks with
    | nil => rfl
    | cons task tasks => exact nomatch hend
  | error e =>
    cases tasks with
    | nil => rfl
    | cons task tasks => exact nomatch hend

/-- Machines that have ended with outcomes that are the same have the same outcomes. -/
private theorem Relocated.outcome {o o' : Outcome Value}
    (h : Relocated r (after [] o) (after [] o')) : o.Relocated r o' := by
  obtain ⟨hcontrol, _, hstate⟩ := h
  cases o with
  | value v s =>
    cases o' with
    | value v' s' =>
      obtain rfl := Control.value.inj hcontrol
      exact .value hstate
    | error e' s' => exact nomatch hcontrol
  | error e s =>
    cases o' with
    | value v' s' => exact nomatch hcontrol
    | error e' s' =>
      obtain rfl := Control.error.inj hcontrol
      exact .error hstate

/-- A statement ends alike in both machines. -/
theorem relocated_evaluate (h : State.Relocated r s s') (hwf : s.env.WellFormed) (e : Expr) :
    ∃ r', (evaluate (.standard maxDepth .reclaim) e .global s).Relocated r'
      (evaluate (.standard maxDepth .retain) e .global s') := by
  have hglobal : FrameId.global.relocate r = .global := congrArg FrameId.mk h.env.global
  have hstart : Relocated r ⟨.eval e .global, [], s⟩ ⟨.eval e .global, [], s'⟩ :=
    ⟨by rw [Control.relocate, hglobal], rfl, h⟩
  obtain ⟨m', r', hrun', hr'⟩ := relocated_reaches hstart (wellFormed_eval hwf hwf.size_pos trivial)
    (reaches_evaluate (.standard maxDepth .reclaim) e .global s)
  have hend := hrun'.unique (reaches_evaluate (.standard maxDepth .retain) e .global s')
    (hr'.step_eq_none (step_after_nil (.standard maxDepth .reclaim) _)) (step_after_nil _ _)
  exact ⟨r', Relocated.outcome (hend ▸ hr')⟩

end Machine

/-! ### Sessions -/

variable {maxDepth : Nat}

/-- Statements run one after the other write the same lines and fail alike. -/
private theorem relocated_runStatements (es : List Expr) {r : Nat → Nat} {s s' : State}
    (h : State.Relocated r s s') (hwf : s.env.WellFormed) (first : Option EvalError) :
    ∃ r', State.Relocated r' (runStatements (.standard maxDepth .reclaim) es s first).1
        (runStatements (.standard maxDepth .retain) es s' first).1 ∧
      (runStatements (.standard maxDepth .retain) es s' first).2 =
        (runStatements (.standard maxDepth .reclaim) es s first).2 := by
  -- Statement by statement; each may move the frames anew.
  induction es generalizing r s s' first with
  | nil => exact ⟨r, h, rfl⟩
  | cons e es ih =>
    obtain ⟨r', hr'⟩ : ∃ r', (evaluate (.standard maxDepth .reclaim) e .global s).Relocated r'
      (evaluate (.standard maxDepth .retain) e .global s') := Machine.relocated_evaluate h hwf e
    have hwf' : (evaluate (.standard maxDepth .reclaim) e .global s).state.env.WellFormed :=
      Machine.wellFormed_evaluate rfl hwf e
    simp only [runStatements]
    generalize evaluate (.standard maxDepth .reclaim) e .global s = o at hr' hwf' ⊢
    generalize evaluate (.standard maxDepth .retain) e .global s' = o' at hr' ⊢
    cases hr' with
    | @value v t t' ht =>
      simp only [ht.render]
      exact ih (ht.write _) hwf' first
    | @error error t t' ht =>
      simp only
      split
      · exact ⟨r', ht, rfl⟩
      · exact ih ht hwf' _

namespace Interpreter

/-- The limit and the treatment of frames are all that a configuration decides. -/
private theorem context_ofConfig (maxDepth : Nat) (policy : FramePolicy) :
    (ofConfig ⟨maxDepth, policy⟩).context = .standard maxDepth policy := rfl

/-- Both environments are prepared alike for a text, which is read alike. -/
private theorem relocated_prepare (interpreter : Interpreter) {r : Nat → Nat}
    {env env' : Environment}
    (h : Environment.Relocated r env env') (hwf : env.WellFormed) (text : String) :
    Environment.Relocated r (interpreter.prepare env text) (interpreter.prepare env' text) ∧
      interpreter.read env' text = interpreter.read env text := by
  have hinstall := h.install hwf interpreter.registry
  refine ⟨?_, ?_⟩
  · simp only [prepare, hinstall.symbols]
    exact hinstall.withSymbols _
  · simp only [read, hinstall.symbols]

/-- One text is evaluated alike, and leaves the same scopes in other places. -/
theorem relocated_evaluate (maxDepth : Nat) {r : Nat → Nat} {env env' : Environment}
    (h : Environment.Relocated r env env') (hwf : env.WellFormed) (text : String) :
    ∃ r', Environment.Relocated r' ((ofConfig ⟨maxDepth, .reclaim⟩).evaluate env text).env
        ((ofConfig ⟨maxDepth, .retain⟩).evaluate env' text).env ∧
      ((ofConfig ⟨maxDepth, .retain⟩).evaluate env' text).output =
        ((ofConfig ⟨maxDepth, .reclaim⟩).evaluate env text).output ∧
      ((ofConfig ⟨maxDepth, .retain⟩).evaluate env' text).error =
        ((ofConfig ⟨maxDepth, .reclaim⟩).evaluate env text).error := by
  obtain ⟨hprepare, hread⟩ := (ofConfig ⟨maxDepth, .reclaim⟩).relocated_prepare h hwf text
  have hread' : (ofConfig ⟨maxDepth, .retain⟩).read env' text =
    (ofConfig ⟨maxDepth, .reclaim⟩).read env text := hread
  -- The text is refused in both environments, or read as the same program.
  cases hprogram : (ofConfig ⟨maxDepth, .reclaim⟩).read env text with
  | error e =>
    rw [evaluate_of_error hprogram, evaluate_of_error (hread'.trans hprogram)]
    exact ⟨r, hprepare, rfl, rfl⟩
  | ok program =>
    rw [evaluate_of_ok hprogram, evaluate_of_ok (hread'.trans hprogram), context_ofConfig,
      context_ofConfig]
    have hwf' := wellFormed_prepare (ofConfig ⟨maxDepth, .reclaim⟩) hwf text
    have hstate : State.Relocated r ⟨(ofConfig ⟨maxDepth, .reclaim⟩).prepare env text, #[]⟩
      ⟨(ofConfig ⟨maxDepth, .retain⟩).prepare env' text, #[]⟩ := ⟨hprepare, rfl⟩
    obtain ⟨r', hr', herror⟩ := relocated_runStatements program hstate hwf' none
    exact ⟨r', hr'.env, hr'.output, herror⟩

end Interpreter

/-- The global bindings as a user sees them: names and texts of values. -/
def Environment.globals (env : Environment) : List (String × String) :=
  ((env.frames[FrameId.global.index]?).map fun frame =>
    frame.bindings.map fun b => (env.symbols.nameOf b.1, b.2.render env.symbols)).getD []

/-- The global bindings are shown alike in both environments. -/
private theorem Environment.Relocated.globals {r : Nat → Nat} {env env' : Environment}
    (h : Environment.Relocated r env env') (hwf : env.WellFormed) :
    env'.globals = env.globals := by
  -- The global frame is moved to the global frame.
  have hpos := hwf.size_pos
  have hhere : env.frames[0]? = some env.frames[0] := Array.getElem?_eq_getElem hpos
  have hthere := h.frames hhere
  rw [h.global] at hthere
  simp only [Environment.globals, FrameId.global, hhere, hthere, Option.map_some, Option.getD_some,
    Frame.relocate, List.map_map, Function.comp_def, h.symbols, Value.render_relocate]

/-- What a user sees of the evaluation of a text. -/
structure Observation where
  output : Array String
  error : Option EvalError
  errorMessage : String
  globals : List (String × String)

/-- The lines of an evaluation, its error with the message, and the global bindings
    afterwards. -/
def Evaluation.observe (evaluation : Evaluation) : Observation :=
  ⟨evaluation.output, evaluation.error, evaluation.errorMessage, evaluation.env.globals⟩

namespace Interpreter

/-- All texts of a session are answered alike, frames of calls that are over being kept or not. -/
theorem relocated_session (texts : List String) {r : Nat → Nat} {env env' : Environment}
    (h : Environment.Relocated r env env') (hwf : env.WellFormed) :
    ((ofConfig ⟨maxDepth, .retain⟩).session env' texts).map Evaluation.observe =
      ((ofConfig ⟨maxDepth, .reclaim⟩).session env texts).map Evaluation.observe := by
  -- Text by text, from environments that are the same but for where frames are.
  induction texts generalizing r env env' with
  | nil => rfl
  | cons text texts ih =>
    obtain ⟨r', henv, houtput, herror⟩ := relocated_evaluate maxDepth h hwf text
    have hwf' : ((ofConfig ⟨maxDepth, .reclaim⟩).evaluate env text).env.WellFormed :=
      evaluate_preserves (P := Environment.WellFormed) (fun _ text h => wellFormed_prepare _ h text)
        (fun e _ h => Machine.wellFormed_evaluate rfl h e) hwf text
    have hobserve : ((ofConfig ⟨maxDepth, .retain⟩).evaluate env' text).observe =
        ((ofConfig ⟨maxDepth, .reclaim⟩).evaluate env text).observe := by
      simp only [Evaluation.observe, Evaluation.errorMessage, houtput, herror,
        henv.globals hwf']
    simp only [session, List.map_cons, hobserve, ih henv hwf']

/-- Reclaiming frames is unobservable: in every session from a fresh environment, the
    lines, the error and the message of each evaluation and the texts of all global
    bindings after it are those of the interpreter that never drops a frame. -/
theorem session_reclaim_eq_session_retain (maxDepth : Nat) (texts : List String) :
    ((ofConfig ⟨maxDepth, .reclaim⟩).session .new texts).map Evaluation.observe =
      ((ofConfig ⟨maxDepth, .retain⟩).session .new texts).map Evaluation.observe :=
  (relocated_session texts Environment.relocated_new Environment.wellFormed_new).symm

end Interpreter

end LispSession
