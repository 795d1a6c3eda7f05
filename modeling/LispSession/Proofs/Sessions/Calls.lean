import LispSession.Proofs.Machine.Calls
import LispSession.Proofs.Sessions.Closures
import LispSession.Proofs.Sessions.References

/-!
# Calls start from exactly their parameters

The frame of a call is the last one, and whatever was there before it is gone: places of
frames are used again once calls are over. It starts from nothing but the parameters all the
same. The parameters differ, there is an argument for each of them, and no closure that was
ever made, no other call and no other frame refers to the new frame's place.

* `Moment.functions_below`             closures refer to frames that are marked
* `Moment.begins_of_call`              how a call of a closure begins
* `Moment.call_starts_from_parameters` every call of a closure that takes place
-/

namespace LispSession

/-! ### What the frame of a call binds -/

/-- Where names differ, each is bound to the value at its place. -/
private theorem Frame.get?_zip {params : List Symbol} (hnodup : params.Nodup) (args : List Value)
    (parent : Option FrameId) (name : Symbol) (value : Value) :
    Frame.get? ⟨params.zip args, parent⟩ name = some value ↔
      ∃ i : Nat, params[i]? = some name ∧ args[i]? = some value := by
  unfold Frame.get?
  -- Induction on the parameters, with the position moved by one; a parameter met earlier would be
  -- repeated.
  induction params generalizing args with
  | nil => simp
  | cons param params ih =>
    cases args with
    | nil => simp
    | cons arg args =>
      obtain ⟨hparam, hnodup⟩ := List.nodup_cons.mp hnodup
      simp only [List.zip_cons_cons, List.lookup_cons]
      by_cases hname : name = param
      · subst hname
        rw [beq_self_eq_true]
        constructor
        · intro h
          exact ⟨0, rfl, h⟩
        · rintro ⟨i, hi, hvalue⟩
          cases i with
          | zero => exact hvalue
          | succ i =>
            rw [List.getElem?_cons_succ] at hi
            exact absurd (List.mem_of_getElem? hi) hparam
      · rw [beq_eq_false_iff_ne.mpr hname]
        refine (ih hnodup args).trans ⟨fun ⟨i, hi⟩ => ⟨i + 1, hi⟩, ?_⟩
        rintro ⟨i, hi, hvalue⟩
        cases i with
        | zero => exact absurd (Option.some.inj hi).symm hname
        | succ i => exact ⟨i, hi, hvalue⟩

/-! ### Closures refer to frames that are there -/

/-- Only closures refer to frames. -/
private theorem Value.functions_below_iff {n : Nat} {v : Value} :
    v.Functions (Below n) ↔ v.Below n := by
  induction v with
  | pair car cdr hcar hcdr => exact and_congr hcar hcdr
  | _ => exact Iff.rfl

namespace Moment

variable {config : Config} {p : Moment} {P : Value → Prop}

/-- At a well-formed moment all closures are made over frames below the mark. -/
theorem functions_below (h : p.WellFormed) : p.Functions (Value.Below p.env.pinned) := by
  have henv : p.env.Functions (Value.Below p.env.pinned) := by
    intro b hb
    obtain ⟨i, frame, hi, hb⟩ := Environment.mem_bindings.mp hb
    exact Value.functions_below_iff.mpr (h.env.below hi hb)
  cases p with
  | idle env => exact henv
  | busy m rest =>
    obtain ⟨-, -, hcontrol, htasks⟩ := h
    refine ⟨henv, fun v hv => Value.functions_below_iff.mpr (hcontrol v hv), ?_⟩
    intro task htask v hv
    exact Value.functions_below_iff.mpr
      (htasks.below_of_mem (List.mem_flatMap.mpr ⟨task, htask, hv⟩))

/-- The functions in all values satisfy a predicate, those in parts of values among them. -/
private theorem Functions.of_mem_values (h : p.Functions P) {v : Value} (hv : v ∈ p.values) :
    v.Functions P := by
  obtain ⟨w, hw, hv⟩ := List.mem_flatMap.mp hv
  refine Value.Functions.of_mem_parts ?_ hv
  rcases List.mem_append.mp hw with hw | hw
  · cases p with
    | idle env => cases hw
    | busy m rest => exact Functions.held h w hw
  · obtain ⟨b, hb, rfl⟩ := List.mem_map.mp hw
    exact h.env b hb

/-! ### Calls -/

/-- A step from one state of the machine to another begins a call of a closure, whose body
    starts in a new frame. -/
structure Begins (interpreter : Interpreter) (env : Environment) (m m' : Machine)
    (rest : List Expr) (c : Call) (fn : Lambda) (home frame : FrameId) : Prop where
  arity : c.args.length = fn.params.length
  /-- The call is in progress in the frame, on top of the calls before it. -/
  calls : m'.calls = frame :: m.calls
  /-- The function was evaluated in the frame around the new one. -/
  made : Makes interpreter (idle env) (busy m rest) fn home
  /-- The new frame is the only change to the frames. -/
  frames : m'.state.env.frames = m.state.env.frames.push ⟨fn.params.zip c.args, some home⟩
  index : frame.index = m.state.env.frames.size
  nodup : fn.params.Nodup
  /-- It binds each parameter to its argument, and nothing else. -/
  binds : ∀ name value, m'.state.env.local? frame name = some value ↔
    ∃ i : Nat, fn.params[i]? = some name ∧ c.args[i]? = some value
  /-- No closure that is bound or in flight, before or after the step, refers to it. -/
  not_home : ∀ fn' home',
    .closure fn' home' ∈ (busy m rest).values ++ (busy m' rest).values → home' ≠ frame
  /-- Nor does any other closure that has been made, wherever it is held. -/
  not_made : ∀ p fn' home', Run interpreter (idle env) p → Run interpreter p (busy m rest) →
    p.created? = some (fn', home') → home' ≠ frame
  /-- No other call uses it, and nothing else that is yet to be evaluated. -/
  not_used : frame ∉ m.calls ∧ frame ∉ m.frames
  not_parent : ∀ (i : Nat) other,
    m'.state.env.frames[i]? = some other → other.parent ≠ some frame
  /-- The first expression of the body comes next, in the frame. -/
  first : ∃ first, fn.body.head? = some first ∧ m'.control = .eval first frame
  /-- The call ends as the last expression of the body does, once the others are evaluated. -/
  last : ∃ init last, fn.body = init ++ [last] ∧
    let enter := enterAt interpreter.context
      (interpreter.context.maxDepth - m.calls.length - 1)
    let outcome : Outcome Value :=
      match evalArgs interpreter.context enter init frame m'.state with
      | .error e s => .error e s
      | .value _ s => evalExpr interpreter.context enter last frame s
    Machine.Reaches interpreter.context m'
      (Machine.after c.tasks (outcome.mapEnv (interpreter.context.policy.leave frame)))

/-- All frames that are used are there. -/
private theorem WellFormed.lt_size_of_mem_frames {m : Machine} {rest : List Expr}
    (h : (busy m rest).WellFormed) :
    ∀ frame ∈ m.frames, frame.index < m.state.env.frames.size := by
  obtain ⟨-, hcontrol, -, htasks⟩ := h
  exact List.forall_mem_append.mpr ⟨hcontrol, fun _ => htasks.lt_of_mem⟩

variable {m m' : Machine} {rest : List Expr} {c : Call} {fn : Lambda} {home : FrameId}

/-- Closures refer to frames that are there before the step, also those after it. -/
private theorem below_size_step (hm : (busy m rest).WellFormed)
    (hstep : m.step (Interpreter.ofConfig config).context = some m') :
    (busy m rest).Functions (Value.Below m.state.env.frames.size) ∧
      (busy m' rest).Functions (Value.Below m.state.env.frames.size) := by
  have hbefore : (busy m rest).Functions (Value.Below m.state.env.frames.size) :=
    (functions_below hm).imp fun _ => Value.Below.mono hm.env.pinned_le
  refine ⟨hbefore, Machine.functions_step (Interpreter.registry_context config) hbefore ?_ hstep⟩
  exact fun fn home hcreated => hm.lt_size_of_created hcreated

variable {env : Environment} (henv : env = .new ∨ env = (Interpreter.ofConfig config).environment)
  (hrun : Run (Interpreter.ofConfig config) (idle env) (busy m rest))

include henv hrun

/-- A closure that is called was made before, or just now. -/
private theorem made_of_call
    (hcall : m.call? = some c) (hcallee : c.callee = .closure fn home) :
    fn.WellFormed ∧ Makes (Interpreter.ofConfig config) (idle env) (busy m rest) fn home := by
  obtain ⟨hm, hmade, hcoded⟩ := made_of_run henv hrun
  have hcreated : ∀ fn home, m.created? = some (fn, home) →
      Made (Interpreter.ofConfig config) (idle env) (busy m rest) (.closure fn home) :=
    fun fn home hcreated => ⟨Coded.created hcoded hcreated, busy m rest, hrun, hcreated, .refl,
      fun r hr => lt_size_of_created hr hm hcreated⟩
  have hfunctions := (Machine.functions_of_call? hmade hcreated hcall).1
  rw [hcallee] at hfunctions
  exact hfunctions

/-- A call of a closure with as many arguments as parameters begins, if the limit allows it. -/
theorem begins_of_call
    (hstep : m.step (Interpreter.ofConfig config).context = some m') (hcall : m.call? = some c)
    (hcallee : c.callee = .closure fn home) (harity : fn.arity = c.args.length)
    (hroom : m.calls.length < (Interpreter.ofConfig config).context.maxDepth) :
    Begins (Interpreter.ofConfig config) env m m' rest c fn home ⟨m.state.env.frames.size⟩ := by
  obtain ⟨hfn, hmakes⟩ := made_of_call henv hrun hcall hcallee
  have hm : (busy m rest).WellFormed := (made_of_run henv hrun).1
  have hm' : (busy m' rest).WellFormed := wellFormed_step (.step hstep rest) hm
  obtain ⟨hbefore, hafter⟩ := below_size_step hm hstep
  -- The step enters the call, and nothing has changed since its arguments were evaluated.
  obtain ⟨hframes, hcalls⟩ := Machine.call?_unchanged hcall
  have hsize : c.state.env.frames.size = m.state.env.frames.size := congrArg Array.size hframes
  rw [← hcalls] at hroom
  have henter := Machine.step_of_arity_eq (Interpreter.ofConfig config).context hcall hcallee
    harity
  rw [hstep] at henter
  obtain rfl := Option.some.inj henter
  have hentered := Machine.frames_enter home c.args c.state hroom hfn.nodup
  rw [hframes] at hentered
  have hlater : ∀ frame : FrameId, frame.index < m.state.env.frames.size →
      frame ≠ ⟨m.state.env.frames.size⟩ :=
    fun frame hlt heq => absurd (congrArg FrameId.index heq) (Nat.ne_of_lt hlt)
  have hunused : ⟨m.state.env.frames.size⟩ ∉ m.frames :=
    fun hmem => hlater _ (hm.lt_size_of_mem_frames _ hmem) rfl
  obtain ⟨init, last, hconcat⟩ := (List.eq_nil_or_concat fn.body).resolve_left hfn.body.1
  have hbody : fn.body = init ++ [last] := hconcat.trans List.concat_eq_append
  obtain ⟨first, others, hfirst⟩ := List.exists_cons_of_ne_nil hfn.body.1
  exact {
    arity := harity.symm
    calls := by rw [Machine.calls_enter home c.args c.state hroom, hsize, hcalls]
    made := hmakes
    frames := hentered
    index := rfl
    nodup := hfn.nodup
    binds := by
      intro name value
      rw [← Frame.get?_zip hfn.nodup c.args (some home), Environment.local?, hentered,
        Array.getElem?_push_size]
      rfl
    not_home := by
      intro fn' home' hmem
      refine hlater home' ?_
      rcases List.mem_append.mp hmem with hmem | hmem
      · exact hbefore.of_mem_values hmem
      · exact hafter.of_mem_values hmem
    not_made := by
      intro p fn' home' hp hrest hcreated
      exact hlater home' (lt_size_of_created hrest (made_of_run henv hp).1 hcreated)
    not_used := ⟨fun hmem => hunused (List.mem_append_right _ (mem_frames_of_mem_calls hmem)),
      hunused⟩
    not_parent := by
      intro i other hother hparent
      have hlt := hm'.env.parent_lt hother hparent
      have hi := (Array.getElem?_eq_some_iff.mp hother).1
      rw [hentered, Array.size_push] at hi
      exact hlater _ (by omega) rfl
    first := by
      have hcontrol := Machine.control_enter home c.args c.state hroom hfirst
      rw [hsize] at hcontrol
      exact ⟨first, congrArg List.head? hfirst, hcontrol⟩
    last := by
      have hreaches := Machine.reaches_enter home c.args c.state hroom hbody
      rw [hsize, hcalls] at hreaches
      exact ⟨init, last, hbody, hreaches⟩ }

omit henv hrun

/-- Every call of a closure that takes place in a session from a fresh environment starts from
    exactly its parameters: its frame is new to everything that is there, lies in the frame in
    which the function was evaluated, and binds each parameter to its argument and nothing else.
    A call with another number of arguments fails, and leaves the frames and the calls in
    progress as they were when the arguments were evaluated. -/
theorem call_starts_from_parameters (config : Config) {env : Environment}
    (henv : env = .new ∨ env = (Interpreter.ofConfig config).environment)
    {m m' : Machine} {rest : List Expr}
    (hrun : Run (Interpreter.ofConfig config) (idle env) (busy m rest))
    (hstep : m.step (Interpreter.ofConfig config).context = some m') :
    (m.calls.length < m'.calls.length → ∃ c fn home frame, m.call? = some c ∧
      c.callee = .closure fn home ∧
        Begins (Interpreter.ofConfig config) env m m' rest c fn home frame) ∧
    ∀ c fn home, m.call? = some c → c.callee = .closure fn home →
      c.args.length ≠ fn.params.length →
        m' = ⟨.error (.arity c.name (.oneOf [fn.params.length]) c.args.length), c.tasks, c.state⟩ ∧
        c.state.env.frames = m.state.env.frames ∧ m'.calls = m.calls := by
  constructor
  -- With one call more than before, the step has entered a closure.
  · intro hlt
    obtain ⟨c, fn, home, hcall, hcallee, harity, hroom⟩ := Machine.exists_of_calls_lt hstep hlt
    exact ⟨c, fn, home, _, hcall, hcallee,
      begins_of_call henv hrun hstep hcall hcallee harity hroom⟩
  -- A wrong number of arguments is found before anything else is done.
  · intro c fn home hcall hcallee harity
    have hfails := Machine.step_of_arity_ne (Interpreter.ofConfig config).context hcall hcallee
      (Ne.symm harity)
    rw [hstep] at hfails
    obtain rfl := Option.some.inj hfails
    obtain ⟨hframes, hcalls⟩ := Machine.call?_unchanged hcall
    exact ⟨rfl, hframes, hcalls⟩

/-- A function that another one returned is called with one argument, and with two. -/
theorem call_starts_from_parameters_returned :
    let interpreter := Interpreter.ofConfig .default
    let env := interpreter.envAfter ["(define (f x) (lambda (y) x))", "(define g (f 'a))"]
    (∃ m m' rest, interpreter.Passes env "(g 'b)" m ∧
      Run interpreter (idle .new) (busy m rest) ∧
      m.step interpreter.context = some m' ∧ m.calls.length < m'.calls.length ∧
      ∃ c fn home frame, m.call? = some c ∧ c.callee = .closure fn home ∧
        Begins interpreter .new m m' rest c fn home frame) ∧
    ∃ m m' rest, interpreter.Passes env "(g 'b 'c)" m ∧
      Run interpreter (idle .new) (busy m rest) ∧ m.step interpreter.context = some m' ∧
      ∃ c fn home, m.call? = some c ∧ c.callee = .closure fn home ∧
        c.args.length ≠ fn.params.length ∧
        m' = ⟨.error (.arity c.name (.oneOf [fn.params.length]) c.args.length), c.tasks,
          c.state⟩ := by
  intro interpreter env
  -- The moments come from running the machine a few steps into the text, which is evaluated here.
  have hrun : ∀ {text : String} {m : Machine}, interpreter.Passes env text m →
      ∃ rest, Run interpreter (idle .new) (busy m rest) := fun hpasses =>
    (run_of_passes hpasses).imp fun _ hrest => (run_envAfter _).trans hrest
  have hone : ((interpreter.inFirst? env "(g 'b)" 2).any fun m =>
      (m.step interpreter.context).any fun m' => m.calls.length < m'.calls.length) = true := by
    decide +kernel
  have htwo : ((interpreter.inFirst? env "(g 'b 'c)" 4).any fun m =>
      m.call?.any fun c => c.closure?.any fun closure =>
        c.args.length ≠ closure.1.params.length) = true := by decide +kernel
  constructor
  · obtain ⟨m, hm, hstep⟩ := (Option.any_eq_true _ _).mp hone
    obtain ⟨m', hstep, hlt⟩ := (Option.any_eq_true _ _).mp hstep
    have hpasses := Interpreter.passes_of_inFirst? hm
    obtain ⟨rest, hrest⟩ := hrun hpasses
    have hlt := of_decide_eq_true hlt
    exact ⟨m, m', rest, hpasses, hrest, hstep, hlt,
      (call_starts_from_parameters .default (.inl rfl) hrest hstep).1 hlt⟩
  · obtain ⟨m, hm, hcall⟩ := (Option.any_eq_true _ _).mp htwo
    obtain ⟨c, hcall, hclosure⟩ := (Option.any_eq_true _ _).mp hcall
    obtain ⟨⟨fn, home⟩, hclosure, harity⟩ := (Option.any_eq_true _ _).mp hclosure
    have hcallee := Call.callee_of_closure? hclosure
    have harity := of_decide_eq_true harity
    have hpasses := Interpreter.passes_of_inFirst? hm
    obtain ⟨rest, hrest⟩ := hrun hpasses
    have hstep := Machine.step_of_call? interpreter.context hcall
    exact ⟨m, _, rest, hpasses, hrest, hstep, c, fn, home, hcall, hcallee, harity,
      ((call_starts_from_parameters .default (.inl rfl) hrest hstep).2 c fn home hcall hcallee
        harity).1⟩

end Moment

end LispSession
