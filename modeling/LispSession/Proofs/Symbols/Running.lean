import LispSession.Proofs.Machine.Session
import LispSession.Proofs.Symbols.Natives

/-!
# Running with other symbols

Two machines that are alike stay alike: each step of one is a step of the other, and the
only names that are interned on the way are interned in both. So statements that are alike
have alike values or the same error, write the same lines and leave alike environments.

* `Machine.step_alike`    one step of both machines
* `Machine.reaches_alike` a run of both machines
* `evaluate_alike`        one statement
* `runStatements_alike`   the statements of a program
-/

namespace LispSession

/-! ### Machines -/

/-- Tasks of the same shape whose symbols belong together. -/
inductive Task.Alike (same : Symbol → Symbol → Prop) : Task → Task → Prop where
  | consCdr {cdr cdr' : Expr} (h : cdr.Alike same cdr') (frame : FrameId) :
    Alike same (.consCdr cdr frame) (.consCdr cdr' frame)
  | consPair {first first' : Value} (h : first.Alike same first') :
    Alike same (.consPair first) (.consPair first')
  | define {a a' : Symbol} (h : same a a') (frame : FrameId) :
    Alike same (.define a frame) (.define a' frame)
  | branch {e₁ e₂ e₁' e₂' : Expr} (h₁ : e₁.Alike same e₁') (h₂ : e₂.Alike same e₂')
      (frame : FrameId) : Alike same (.branch e₁ e₂ frame) (.branch e₁' e₂' frame)
  | assign {a a' : Symbol} (h : same a a') (frame : FrameId) :
    Alike same (.assign a frame) (.assign a' frame)
  | body {rest rest' : List Expr} (h : List.Forall₂ (Expr.Alike same) rest rest')
      (frame : FrameId) : Alike same (.body rest frame) (.body rest' frame)
  | argument {callee callee' : Value} {taken taken' : List Value} {rest rest' : List Expr}
      (hcallee : callee.Alike same callee') (name : String)
      (htaken : List.Forall₂ (Value.Alike same) taken taken')
      (hrest : List.Forall₂ (Expr.Alike same) rest rest') (frame : FrameId) :
    Alike same (.argument callee name taken rest frame) (.argument callee' name taken' rest' frame)
  | leave (frame : FrameId) : Alike same (.leave frame) (.leave frame)

/-- Tasks stay alike when more symbols belong together. -/
private theorem Task.Alike.mono {same same' : Symbol → Symbol → Prop}
    (hsame : ∀ a b, same a b → same' a b) {task task' : Task} (h : task.Alike same task') :
    task.Alike same' task' := by
  cases h with
  | consCdr h frame => exact .consCdr (h.mono hsame) frame
  | consPair h => exact .consPair (h.mono hsame)
  | define h frame => exact .define (hsame _ _ h) frame
  | branch h₁ h₂ frame => exact .branch (h₁.mono hsame) (h₂.mono hsame) frame
  | assign h frame => exact .assign (hsame _ _ h) frame
  | body h frame => exact .body (Expr.Alike.mono_list hsame h) frame
  | argument hcallee name htaken hrest frame =>
    exact .argument (hcallee.mono hsame) name (htaken.imp fun _ _ hv => hv.mono hsame)
      (Expr.Alike.mono_list hsame hrest) frame
  | leave frame => exact .leave frame

/-- The same calls are in progress. -/
private theorem callsOf_eq {same : Symbol → Symbol → Prop} {tasks tasks' : List Task}
    (h : List.Forall₂ (Task.Alike same) tasks tasks') : callsOf tasks = callsOf tasks' := by
  induction h with
  | nil => rfl
  | cons htask _ ih =>
    simp only [callsOf, List.filterMap_cons] at ih ⊢
    cases htask <;> simp only [Task.call?, ih]

/-- Controls of the same shape whose symbols belong together. -/
inductive Control.Alike (same : Symbol → Symbol → Prop) : Control → Control → Prop where
  | eval {e e' : Expr} (h : e.Alike same e') (frame : FrameId) :
    Alike same (.eval e frame) (.eval e' frame)
  | value {v v' : Value} (h : v.Alike same v') : Alike same (.value v) (.value v')
  | error (e : EvalError) : Alike same (.error e) (.error e)

namespace Machine

/-- Machines that differ in their symbols, and in lines written before, alone. -/
structure Alike (before : Array String) (m m' : Machine) : Prop where
  state : m.state.Alike before m'.state
  control : m.control.Alike (m.state.Same m'.state) m'.control
  tasks : List.Forall₂ (Task.Alike (m.state.Same m'.state)) m.tasks m'.tasks

/-- Machines that are alike and whose tables have grown alike since these states. -/
structure Follow (before : Array String) (s s' : State) (m m' : Machine) : Prop where
  alike : m.Alike before m'
  grown : s.Grown s' m.state m'.state

section

variable {cx : Context} {before : Array String} {s s' : State} {tasks tasks' : List Task}

/-- What has grown from later states has grown from earlier ones. -/
private theorem Follow.of_grown {r r' : State} {m m' : Machine} (hgrown : s.Grown s' r r')
    (h : Follow before r r' m m') : Follow before s s' m m' :=
  ⟨h.alike, hgrown.trans h.grown⟩

variable (hs : s.Alike before s')
  (htasks : List.Forall₂ (Task.Alike (s.Same s')) tasks tasks')

include htasks

/-- Machines after alike outcomes are alike. -/
private theorem follow_after {o o' : Outcome Value} (h : o.Alike before s s' o') :
    Follow before s s' (after tasks o) (after tasks' o') := by
  cases h with
  | value hr hgrown hv =>
    exact ⟨⟨hr, .value hv, htasks.imp fun _ _ ht => ht.mono fun _ _ => hgrown.same⟩, hgrown⟩
  | error hr hgrown e =>
    exact ⟨⟨hr, .error e, htasks.imp fun _ _ ht => ht.mono fun _ _ => hgrown.same⟩, hgrown⟩

include hs

/-- Machines with alike values under control are alike. -/
private theorem follow_value {v v' : Value} (hv : v.Alike (s.Same s') v') :
    Follow before s s' ⟨.value v, tasks, s⟩ ⟨.value v', tasks', s'⟩ :=
  ⟨⟨hs, .value hv, htasks⟩, .refl _ _⟩

/-- Machines with the same error under control are alike. -/
private theorem follow_error (e : EvalError) :
    Follow before s s' ⟨.error e, tasks, s⟩ ⟨.error e, tasks', s'⟩ :=
  ⟨⟨hs, .error e, htasks⟩, .refl _ _⟩

/-- Machines with alike expressions under control are alike. -/
private theorem follow_eval {e e' : Expr} (he : e.Alike (s.Same s') e') (frame : FrameId) :
    Follow before s s' ⟨.eval e frame, tasks, s⟩ ⟨.eval e' frame, tasks', s'⟩ :=
  ⟨⟨hs, .eval he frame, htasks⟩, .refl _ _⟩

/-- Starting alike bodies keeps machines alike. -/
private theorem follow_startBody {es es' : List Expr}
    (hes : List.Forall₂ (Expr.Alike (s.Same s')) es es') (frame : FrameId) :
    Follow before s s' (startBody frame tasks s es) (startBody frame tasks' s' es') := by
  match hes with
  | .nil => exact follow_value hs htasks .null
  | .cons he .nil => exact follow_eval hs htasks he frame
  | .cons he (.cons he' hrest) =>
    exact follow_eval hs (.cons (.body (.cons he' hrest) frame) htasks) he frame

/-- Entering alike closures keeps machines alike. -/
private theorem follow_enter {fn fn' : Lambda} (hfn : fn.Alike (s.Same s') fn') (home : FrameId)
    {args args' : List Value} (hargs : List.Forall₂ (Value.Alike (s.Same s')) args args') :
    Follow before s s' (enter cx fn home args tasks s) (enter cx fn' home args' tasks' s') := by
  simp only [enter, callsOf_eq htasks]
  split
  · -- The parameters are bound in a new frame, which has the same place in both.
    have hbound := (hs.env.extend home).defineAll (s.env.extend home).1 hfn.params hargs
    rw [hs.env.fst_extend_eq home] at hbound ⊢
    have hgrown : s.Grown s'
        { s with env := (s.env.extend home).2.defineAll (s'.env.extend home).1 fn.params args }
        { s' with
          env := (s'.env.extend home).2.defineAll (s'.env.extend home).1 fn'.params args' } := by
      simp only [State.Grown, Environment.symbols_defineAll]
      exact .refl _ _
    refine .of_grown hgrown (follow_startBody ?_ (.cons (.leave _) ?_) ?_ _)
    · exact ⟨hbound, hs.output⟩
    · exact htasks.imp fun _ _ ht => ht.mono fun _ _ => hgrown.same
    · exact hfn.body.imp fun _ _ he => he.mono fun _ _ => hgrown.same
  · exact follow_error hs htasks _

/-- Calling alike values with alike arguments keeps machines alike. -/
private theorem follow_startCall (hcx : cx.registry = Standard.registry) {callee callee' : Value}
    (hcallee : callee.Alike (s.Same s') callee') (name : String) {args args' : List Value}
    (hargs : List.Forall₂ (Value.Alike (s.Same s')) args args') (frame : FrameId) :
    Follow before s s' (startCall cx callee name args frame tasks s)
      (startCall cx callee' name args' frame tasks' s') := by
  have hshown := State.render_eq hcallee
  cases hcallee with
  | native native =>
    -- The registry looks a function up by its name, which is the same in both.
    simp only [startCall, hcx]
    exact follow_after htasks (Standard.invoke_alike native frame hs hargs)
  | closure hfn home =>
    simp only [startCall, hfn.arity_eq, hargs.length_eq]
    split
    · exact follow_enter hs htasks hfn home hargs
    · exact follow_error hs htasks _
  | _ =>
    simp only [startCall, hshown]
    exact follow_error hs htasks _

/-- Taking the arguments of a call keeps machines alike. -/
private theorem follow_startArgs (hcx : cx.registry = Standard.registry) {callee callee' : Value}
    (hcallee : callee.Alike (s.Same s') callee') (name : String) {taken taken' : List Value}
    (htaken : List.Forall₂ (Value.Alike (s.Same s')) taken taken') {es es' : List Expr}
    (hes : List.Forall₂ (Expr.Alike (s.Same s')) es es') (frame : FrameId) :
    Follow before s s' (startArgs cx callee name taken frame tasks s es)
      (startArgs cx callee' name taken' frame tasks' s' es') := by
  cases hes with
  | nil => exact follow_startCall hs htasks hcx hcallee name htaken frame
  | cons he hes =>
    exact follow_eval hs (.cons (.argument hcallee name htaken hes frame) htasks) he frame

/-- A closure refers to the same frame in both. -/
private theorem follow_closureIn {fn fn' : Lambda} (hfn : fn.Alike (s.Same s') fn')
    (frame : FrameId) :
    Follow before s s' ⟨.value (closureIn fn frame s).1, tasks, (closureIn fn frame s).2⟩
      ⟨.value (closureIn fn' frame s').1, tasks', (closureIn fn' frame s').2⟩ :=
  ⟨⟨⟨hs.env.capture frame, hs.output⟩, .value (.closure hfn frame), htasks⟩, .refl _ _⟩

/-- Starting alike expressions keeps machines alike. -/
private theorem follow_start (hcx : cx.registry = Standard.registry) {e e' : Expr}
    (he : e.Alike (s.Same s') e') (frame : FrameId) :
    Follow before s s' (start cx frame tasks s e) (start cx frame tasks' s' e') := by
  -- One case for each form: names have alike values or none, and parts go into alike tasks.
  cases he with
  | number x => exact follow_value hs htasks (.number x)
  | string text => exact follow_value hs htasks (.string text)
  | boolean b => exact follow_value hs htasks (.boolean b)
  | «variable» ha =>
    have hlookup := hs.env.lookup ha frame
    simp only [start, State.nameOf_eq ha]
    generalize s.env.lookup? frame _ = found at hlookup
    generalize s'.env.lookup? frame _ = found' at hlookup
    cases hlookup with
    | some hv => exact follow_value hs htasks hv
    | none => exact follow_error hs htasks _
  | quoted ha => exact follow_value hs htasks (.symbol ha)
  | data h => exact follow_value hs htasks (Literal.Alike.listValue h)
  | cons hcar hcdr => exact follow_eval hs (.cons (.consCdr hcdr frame) htasks) hcar frame
  | define ha he => exact follow_eval hs (.cons (.define ha frame) htasks) he frame
  | lambda hfn => exact follow_closureIn hs htasks hfn frame
  | branch h₁ h₂ h₃ => exact follow_eval hs (.cons (.branch h₂ h₃ frame) htasks) h₁ frame
  | sequence h => exact follow_startBody hs htasks h frame
  | assign ha he => exact follow_eval hs (.cons (.assign ha frame) htasks) he frame
  | apply hop hes =>
    cases hop with
    | «variable» ha =>
      have hlookup := hs.env.lookup ha frame
      simp only [start, evalOperator, State.nameOf_eq ha]
      generalize s.env.lookup? frame _ = found at hlookup
      generalize s'.env.lookup? frame _ = found' at hlookup
      cases hlookup with
      | some hv => exact follow_startArgs hs htasks hcx hv _ .nil hes frame
      | none => exact follow_error hs htasks _
    | @lambda fn fn' hfn =>
      -- The closure is made first, which moves the mark of both.
      have hcapture : State.Alike before (closureIn fn frame s).2 (closureIn fn' frame s').2 :=
        ⟨hs.env.capture frame, hs.output⟩
      have hfollow :=
        follow_startArgs hcapture htasks hcx (.closure hfn frame) "lambda" .nil hes frame
      exact ⟨hfollow.alike, hfollow.grown⟩

omit htasks in
/-- A definition interns the same name in both. -/
private theorem bindName_alike {a a' : Symbol} (ha : s.Same s' a a') {v v' : Value}
    (hv : v.Alike (s.Same s') v') (frame : FrameId) :
    (bindName a v frame s).Alike before s s' (bindName a' v' frame s') :=
  .value ⟨(hs.env.define frame ha hv).intern definedName, hs.output⟩ (.intern _ _ definedName)
    (.symbol (SymbolTable.same_intern _ _ definedName))

omit htasks in
/-- Assigning alike values to symbols that belong together gives alike outcomes. -/
private theorem assignName_alike {a a' : Symbol} (ha : s.Same s' a a') {v v' : Value}
    (hv : v.Alike (s.Same s') v') (frame : FrameId) :
    (assignName a v frame s).Alike before s s' (assignName a' v' frame s') := by
  simp only [assignName, Environment.assign?, hs.env.binder_eq ha, State.nameOf_eq ha]
  cases s'.env.binder? frame a' with
  | none => exact .error hs (.refl _ _) _
  | some found => exact .value ⟨hs.env.define found ha hv, hs.output⟩ (.refl _ _) hv

omit htasks in
/-- What becomes of the frame of a call that is over. -/
private theorem leave_alike (policy : FramePolicy) (frame : FrameId) :
    State.Alike before { s with env := policy.leave frame s.env }
        { s' with env := policy.leave frame s'.env } ∧
      s.Grown s' { s with env := policy.leave frame s.env }
        { s' with env := policy.leave frame s'.env } := by
  cases policy with
  | reclaim => exact ⟨⟨hs.env.release frame, hs.output⟩, .refl _ _⟩
  | retain => exact ⟨hs, .refl _ _⟩

/-- Resuming alike tasks with alike values keeps machines alike. -/
private theorem follow_resume (hcx : cx.registry = Standard.registry) {v v' : Value}
    (hv : v.Alike (s.Same s') v') {task task' : Task} (htask : task.Alike (s.Same s') task') :
    Follow before s s' (resume cx v tasks s task) (resume cx v' tasks' s' task') := by
  -- One case for each task; leaving a call is the only one after which the environments have
  -- changed.
  cases htask with
  | consCdr h frame => exact follow_eval hs (.cons (.consPair hv) htasks) h frame
  | consPair h => exact follow_value hs htasks (.pair h hv)
  | define ha frame => exact follow_after htasks (bindName_alike hs ha hv frame)
  | branch h₁ h₂ frame =>
    simp only [resume, hv.isTruthy_eq]
    split
    · exact follow_eval hs htasks h₁ frame
    · exact follow_eval hs htasks h₂ frame
  | assign ha frame => exact follow_after htasks (assignName_alike hs ha hv frame)
  | body h frame => exact follow_startBody hs htasks h frame
  | argument hcallee name htaken hrest frame =>
    have htaken' := List.rel_append htaken (.cons hv .nil)
    exact follow_startArgs hs htasks hcx hcallee name htaken' hrest frame
  | leave frame =>
    obtain ⟨hleft, hgrown⟩ := leave_alike hs cx.policy frame
    refine .of_grown hgrown (follow_value hleft ?_ (hv.mono fun _ _ => hgrown.same))
    exact htasks.imp fun _ _ ht => ht.mono fun _ _ => hgrown.same

omit htasks in
/-- Both drop the frame of a call that is given up. -/
private theorem unwind_alike (cx : Context) {task task' : Task}
    (htask : task.Alike (s.Same s') task') : (task.unwind cx s).Alike before (task'.unwind cx s') ∧
      s.Grown s' (task.unwind cx s) (task'.unwind cx s') := by
  cases htask with
  | leave frame => exact leave_alike hs cx.policy frame
  | _ => exact ⟨hs, .refl _ _⟩

end

/-- Each step of one machine is a step of the other. -/
theorem step_alike {cx : Context} (hcx : cx.registry = Standard.registry)
    {before : Array String} {m m' : Machine} (h : m.Alike before m') :
    Option.Rel (Follow before m.state m'.state) (m.step cx) (m'.step cx) := by
  obtain ⟨control, tasks, s⟩ := m
  obtain ⟨control', tasks', s'⟩ := m'
  obtain ⟨hs, hcontrol, htasks⟩ := h
  simp only at hs hcontrol htasks ⊢
  -- The controls are of one kind, and so are the tasks on top.
  cases hcontrol with
  | eval he frame => exact .some (follow_start hs htasks hcx he frame)
  | value hv =>
    cases htasks with
    | nil => exact .none
    | cons htask htasks => exact .some (follow_resume hs htasks hcx hv htask)
  | error e =>
    cases htasks with
    | nil => exact .none
    | cons htask htasks =>
      obtain ⟨hs, hgrown⟩ := unwind_alike hs cx htask
      refine .some ⟨⟨hs, .error e, ?_⟩, hgrown⟩
      exact htasks.imp fun _ _ ht => ht.mono fun _ _ => hgrown.same

/-- Every run of one machine is a run of the other. -/
theorem reaches_alike {cx : Context} (hcx : cx.registry = Standard.registry)
    {before : Array String} {m m' n : Machine} (h : m.Alike before m') (hrun : Reaches cx m n) :
    ∃ n', Reaches cx m' n' ∧ Follow before m.state m'.state n n' := by
  -- Induction on the run of the first machine, which the second one follows step by step.
  induction hrun with
  | refl => exact ⟨m', .refl, h, .refl _ _⟩
  | @tail n₁ n₂ _ hlast ih =>
    obtain ⟨n₁', hrun', hfollow⟩ := ih
    have hstep := step_alike hcx hfollow.alike
    rw [hlast] at hstep
    generalize hlast' : n₁'.step cx = next at hstep
    cases hstep with
    | some hnext => exact ⟨_, hrun'.tail hlast', .of_grown hfollow.grown hnext⟩

end Machine

/-! ### Statements -/

/-- Alike statements have alike outcomes. -/
theorem evaluate_alike {cx : Context} (hcx : cx.registry = Standard.registry)
    {before : Array String} {s s' : State} (hs : s.Alike before s') {e e' : Expr}
    (he : e.Alike (s.Same s') e') (frame : FrameId) :
    (evaluate cx e frame s).Alike before s s' (evaluate cx e' frame s') := by
  have hstart : Machine.Alike before ⟨.eval e frame, [], s⟩ ⟨.eval e' frame, [], s'⟩ :=
    ⟨hs, .eval he frame, .nil⟩
  obtain ⟨n', hrun', hfollow⟩ :=
    Machine.reaches_alike hcx hstart (Machine.reaches_evaluate cx e frame s)
  -- The second machine ends with the first one, so where its own evaluation does.
  have hend : n'.step cx = none := by
    have hstep := Machine.step_alike hcx hfollow.alike
    rw [Machine.step_after_nil] at hstep
    generalize n'.step cx = next at hstep ⊢
    cases hstep
    rfl
  have hend' := Machine.reaches_evaluate cx e' frame s'
  rw [hrun'.unique hend' hend (Machine.step_after_nil cx _)] at hfollow
  obtain ⟨⟨hstate, hcontrol, _⟩, hgrown⟩ := hfollow
  generalize evaluate cx e frame s = o at *
  generalize evaluate cx e' frame s' = o' at *
  cases o with
  | value v r =>
    cases o' with
    | value v' r' =>
      cases hcontrol with
      | value hv => exact .value hstate hgrown hv
    | error e r' => cases hcontrol
  | error e r =>
    cases o' with
    | value v' r' => cases hcontrol
    | error e' r' =>
      cases hcontrol with
      | error e => exact .error hstate hgrown e

/-- Alike programs have the same first error, and leave alike states. -/
theorem runStatements_alike {cx : Context} (hcx : cx.registry = Standard.registry)
    {before : Array String} {s s' : State} (hs : s.Alike before s') {es es' : List Expr}
    (hes : List.Forall₂ (Expr.Alike (s.Same s')) es es') (first : Option EvalError) :
    (runStatements cx es s first).2 = (runStatements cx es' s' first).2 ∧
      (runStatements cx es s first).1.Alike before (runStatements cx es' s' first).1 ∧
        s.Grown s' (runStatements cx es s first).1 (runStatements cx es' s' first).1 := by
  induction es generalizing s s' es' first with
  | nil =>
    cases hes with
    | nil => exact ⟨rfl, hs, .refl _ _⟩
  | cons e es ih =>
    cases hes with
    | cons he hes =>
      have houtcome := evaluate_alike hcx hs he .global
      simp only [runStatements]
      generalize evaluate cx e .global s = o at houtcome
      generalize evaluate cx _ .global s' = o' at houtcome
      cases houtcome with
      | value hr hgrown hv =>
        have hes' := Expr.Alike.mono_list (fun _ _ => hgrown.same) hes
        simp only [State.render_eq hv]
        obtain ⟨herror, hstate, hgrown'⟩ := ih (hr.write _) hes' first
        exact ⟨herror, hstate, hgrown.trans hgrown'⟩
      | error hr hgrown error =>
        have hes' := Expr.Alike.mono_list (fun _ _ => hgrown.same) hes
        simp only
        -- The error is the same, so it ends both programs or neither.
        split
        · exact ⟨rfl, hr, hgrown⟩
        · obtain ⟨herror, hstate, hgrown'⟩ := ih hr hes' (first.or (some error))
          exact ⟨herror, hstate, hgrown.trans hgrown'⟩

end LispSession
