import LispSession.Proofs.Machine.Basic

/-!
# The machine evaluates

The machine started on an expression ends exactly where the evaluator does, with the same
value or error and the same state. The number of calls that are still allowed is an index
of the way to enter a call; on the machine it is what the calls in progress leave of the
limit.

* `reaches_evalExpr`  within one call, given that further calls end as they should
* `runs_enterAt`      further calls end as they should, by recursion on how many are allowed
* `reaches_evaluate`  the machine ends where the evaluation of a statement does
-/

namespace LispSession.Machine

variable {cx : Context} {enterCall : Entry} {more : Nat}

/-- Where `more` calls are still allowed, the machine enters a call as `enterCall` does. -/
def Runs (cx : Context) (enterCall : Entry) (more : Nat) : Prop :=
  ∀ (fn : Lambda) (home : FrameId) (args : List Value) (tasks : List Task) (s : State),
    (callsOf tasks).length + more = cx.maxDepth →
      Reaches cx (enter cx fn home args tasks s) (after tasks (enterCall fn home args s))

/-- A run up to the outcome that a task waits for goes on with the task. -/
private theorem Reaches.task {m m' : Machine} {task : Task} {tasks : List Task} {o : Outcome Value}
    (h : Reaches cx m (after (task :: tasks) o))
    (hvalue : ∀ v s, o = .value v s → Reaches cx (resume cx v tasks s task) m')
    (herror : ∀ e s, o = .error e s → Reaches cx ⟨.error e, tasks, task.unwind cx s⟩ m') :
    Reaches cx m m' := by
  refine Relation.ReflTransGen.trans h ?_
  cases o with
  | value v s => exact .head (step_value cx v task tasks s) (hvalue v s rfl)
  | error e s => exact .head (step_error cx e task tasks s) (herror e s rfl)

/-- A call ends as the evaluator's call does. -/
private theorem reaches_call (hruns : Runs cx enterCall more) (callee : Value) (name : String)
    (args : List Value) (frame : FrameId) (tasks : List Task) (s : State)
    (hmore : (callsOf tasks).length + more = cx.maxDepth) :
    Reaches cx (startCall cx callee name args frame tasks s)
      (after tasks (call cx enterCall name callee args frame s)) := by
  -- Only a closure starts further steps; every other callee answers at once.
  cases callee with
  | closure fn home =>
    simp only [startCall, call]
    split
    · exact hruns fn home args tasks s hmore
    · exact .refl
  | _ => exact .refl

mutual

/-- The machine ends where the evaluation of an expression does. -/
theorem reaches_evalExpr (hruns : Runs cx enterCall more) :
    ∀ (e : Expr) (frame : FrameId) (tasks : List Task) (s : State),
      (callsOf tasks).length + more = cx.maxDepth →
        Reaches cx ⟨.eval e frame, tasks, s⟩ (after tasks (evalExpr cx enterCall e frame s))
  | .number _, frame, tasks, s, _ => .head (step_eval cx _ frame tasks s) .refl
  | .string _, frame, tasks, s, _ => .head (step_eval cx _ frame tasks s) .refl
  | .boolean _, frame, tasks, s, _ => .head (step_eval cx _ frame tasks s) .refl
  | .quoted _, frame, tasks, s, _ => .head (step_eval cx _ frame tasks s) .refl
  | .data _, frame, tasks, s, _ => .head (step_eval cx _ frame tasks s) .refl
  | .lambda _, frame, tasks, s, _ => .head (step_eval cx _ frame tasks s) .refl
  | .variable name, frame, tasks, s, _ => by
    refine .head (step_eval cx _ frame tasks s) ?_
    cases h : s.env.lookup? frame name with
    | some v => simp only [start, evalExpr, h]; exact .refl
    | none => simp only [start, evalExpr, h]; exact .refl
  | .cons car cdr, frame, tasks, s, hmore => by
    refine .head (step_eval cx _ frame tasks s) ?_
    -- Each part is a run up to the task that waits for it; an error passes the task.
    refine (reaches_evalExpr hruns car frame (.consCdr cdr frame :: tasks) s hmore).task
      (fun first s₁ h₁ => ?_) (fun e s₁ h₁ => ?_)
    · refine (reaches_evalExpr hruns cdr frame (.consPair first :: tasks) s₁ hmore).task
        (fun second s₂ h₂ => ?_) (fun e s₂ h₂ => ?_)
      · simp only [evalExpr, h₁, h₂]; exact .refl
      · simp only [evalExpr, h₁, h₂]; exact .refl
    · simp only [evalExpr, h₁]; exact .refl
  | .define name value, frame, tasks, s, hmore => by
    refine .head (step_eval cx _ frame tasks s) ?_
    refine (reaches_evalExpr hruns value frame (.define name frame :: tasks) s hmore).task
      (fun v s₁ h₁ => ?_) (fun e s₁ h₁ => ?_)
    · simp only [evalExpr, h₁]; exact .refl
    · simp only [evalExpr, h₁]; exact .refl
  | .branch condition consequent alternative, frame, tasks, s, hmore => by
    refine .head (step_eval cx _ frame tasks s) ?_
    refine (reaches_evalExpr hruns condition frame
      (.branch consequent alternative frame :: tasks) s hmore).task
      (fun v s₁ h₁ => ?_) (fun e s₁ h₁ => ?_)
    · simp only [evalExpr, h₁, resume]
      split
      · exact reaches_evalExpr hruns consequent frame tasks s₁ hmore
      · exact reaches_evalExpr hruns alternative frame tasks s₁ hmore
    · simp only [evalExpr, h₁]; exact .refl
  | .sequence body, frame, tasks, s, hmore => by
    refine .head (step_eval cx _ frame tasks s) ?_
    simp only [start, evalExpr]
    exact reaches_evalBody hruns body frame tasks s hmore
  | .assign name value, frame, tasks, s, hmore => by
    refine .head (step_eval cx _ frame tasks s) ?_
    refine (reaches_evalExpr hruns value frame (.assign name frame :: tasks) s hmore).task
      (fun v s₁ h₁ => ?_) (fun e s₁ h₁ => ?_)
    · simp only [evalExpr, h₁]; exact .refl
    · simp only [evalExpr, h₁]; exact .refl
  | .apply operator arguments, frame, tasks, s, hmore => by
    refine .head (step_eval cx _ frame tasks s) ?_
    cases h₁ : evalOperator operator frame s with
    | error e s₁ =>
      simp only [start, evalExpr, h₁]
      exact .refl
    | value found s₁ =>
      obtain ⟨callee, name⟩ := found
      simp only [start, evalExpr, h₁]
      exact reaches_evalArgs hruns arguments callee name [] frame tasks s₁ hmore

/-- The machine ends a call where the evaluation of its arguments, and then the call,
    do. The arguments that are evaluated already come first. -/
private theorem reaches_evalArgs (hruns : Runs cx enterCall more) :
    ∀ (es : List Expr) (callee : Value) (name : String) (taken : List Value)
      (frame : FrameId) (tasks : List Task) (s : State),
      (callsOf tasks).length + more = cx.maxDepth →
        Reaches cx (startArgs cx callee name taken frame tasks s es)
          (after tasks
            (match evalArgs cx enterCall es frame s with
            | .error e s => .error e s
            | .value args s => call cx enterCall name callee (taken ++ args) frame s))
  | [], callee, name, taken, frame, tasks, s, hmore => by
    simp only [startArgs, evalArgs, List.append_nil]
    exact reaches_call hruns callee name taken frame tasks s hmore
  | e :: es, callee, name, taken, frame, tasks, s, hmore => by
    refine (reaches_evalExpr hruns e frame (.argument callee name taken es frame :: tasks) s
      hmore).task (fun v s₁ h₁ => ?_) (fun e s₁ h₁ => ?_)
    -- The value joins the arguments taken, and the others go on from there.
    · have hrest := reaches_evalArgs hruns es callee name (taken ++ [v]) frame tasks s₁ hmore
      simp only [evalArgs, h₁]
      cases h₂ : evalArgs cx enterCall es frame s₁ with
      | value args s₂ => simpa [h₂, resume] using hrest
      | error e s₂ => simpa [h₂, resume] using hrest
    · simp only [evalArgs, h₁]; exact .refl

/-- The machine ends where the evaluation of a body does. -/
private theorem reaches_evalBody (hruns : Runs cx enterCall more) :
    ∀ (es : List Expr) (frame : FrameId) (tasks : List Task) (s : State),
      (callsOf tasks).length + more = cx.maxDepth →
        Reaches cx (startBody frame tasks s es) (after tasks (evalBody cx enterCall es frame s))
  -- An empty body gives null, a last expression is evaluated in place of the body, and any other
  -- leaves the rest as a task.
  | [], _, _, _, _ => by
    simp only [startBody, evalBody]
    exact .refl
  | [e], frame, tasks, s, hmore => by
    simp only [startBody, evalBody]
    exact reaches_evalExpr hruns e frame tasks s hmore
  | e :: e' :: es, frame, tasks, s, hmore => by
    refine (reaches_evalExpr hruns e frame (.body (e' :: es) frame :: tasks) s hmore).task
      (fun v s₁ h₁ => ?_) (fun e s₁ h₁ => ?_)
    · simp only [evalBody, h₁]
      exact reaches_evalBody hruns (e' :: es) frame tasks s₁ hmore
    · simp only [evalBody, h₁]; exact .refl

end

/-- However many calls are allowed, the machine enters a call as the evaluator does. -/
theorem runs_enterAt (cx : Context) (more : Nat) : Runs cx (enterAt cx more) more := by
  induction more with
  | zero =>
    intro fn home args tasks s hmore
    -- The calls in progress use up the limit.
    have hfull : ¬ (callsOf tasks).length < cx.maxDepth := by omega
    simp only [enter, if_neg hfull, enterAt]
    exact .refl
  | succ more ih =>
    intro fn home args tasks s hmore
    have hroom : (callsOf tasks).length < cx.maxDepth := by omega
    simp only [enter, if_pos hroom, enterAt]
    -- The call uses one of those allowed and is left at its end, whatever its outcome.
    refine (reaches_evalBody ih fn.body _ (.leave _ :: tasks) _ ?_).task
      (fun v s₁ h₁ => ?_) (fun e s₁ h₁ => ?_)
    · simp only [callsOf, List.filterMap_cons, Task.call?, List.length_cons] at hmore ⊢
      omega
    · rw [h₁]; exact .refl
    · rw [h₁]; exact .refl

/-- The machine ends where the evaluation of a statement does. -/
theorem reaches_evaluate (cx : Context) (e : Expr) (frame : FrameId) (s : State) :
    Reaches cx ⟨.eval e frame, [], s⟩ (after [] (evaluate cx e frame s)) :=
  reaches_evalExpr (runs_enterAt cx cx.maxDepth) e frame [] s (Nat.zero_add _)

end LispSession.Machine
