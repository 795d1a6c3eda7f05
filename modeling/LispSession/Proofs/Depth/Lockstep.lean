import LispSession.Proofs.Machine.Errors

/-!
# Two limits on calls

Two machines with different limits on the calls in progress do the same, step for step, up
to a call that the smaller limit forbids. There the one fails, and its evaluation ends with
that failure; the other, if its limit allows the call, has more calls in progress then than
the first could have.

* `cut_step`                  one step under both limits
* `reaches_or_exhausts`       a run under the greater limit, seen from the smaller one
* `reaches_or_exceeds`        a run under the smaller limit, seen from the greater one
* `calls_le_of_reaches`       no more calls are in progress than the limit allows
* `evaluate_eq_of_not_exhausted`, `exhausted_iff`  whole evaluations under two limits
-/

namespace LispSession

/-- The same context with another limit on the calls in progress. -/
def Context.withLimit (cx : Context) (limit : Nat) : Context := { cx with maxDepth := limit }

namespace Machine

variable {cx : Context} {L M : Nat} {frame : FrameId} {tasks : List Task} {s : State}

/-! ### Calls in progress -/

/-- Starting on a body begins and ends no call. -/
@[simp] theorem calls_startBody (frame : FrameId) (tasks : List Task) (s : State)
    (es : List Expr) : (startBody frame tasks s es).calls = callsOf tasks := by
  unfold startBody
  split <;> rfl

/-- Handing an outcome on begins and ends no call. -/
@[simp] theorem calls_after (tasks : List Task) (o : Outcome Value) :
    (after tasks o).calls = callsOf tasks := by
  cases o <;> rfl

/-- Entering a call is the only way to have one call more, and the limit guards it. -/
private theorem calls_enter_le (h : (callsOf tasks).length ≤ cx.maxDepth) (fn : Lambda)
    (home : FrameId) (args : List Value) :
    (enter cx fn home args tasks s).calls.length ≤ cx.maxDepth := by
  unfold enter
  split
  · rename_i hroom
    rw [calls_startBody]
    exact hroom
  · exact h

/-- A call goes at most up to the limit. -/
private theorem calls_startCall_le (h : (callsOf tasks).length ≤ cx.maxDepth) (callee : Value)
    (name : String) (args : List Value) (frame : FrameId) :
    (startCall cx callee name args frame tasks s).calls.length ≤ cx.maxDepth := by
  unfold startCall
  split
  · rw [calls_after]
    exact h
  · split
    · exact calls_enter_le h _ _ args
    · exact h
  · exact h

/-- Starting on the next argument, or on the call after the last, keeps to the limit. -/
private theorem calls_startArgs_le (h : (callsOf tasks).length ≤ cx.maxDepth) (callee : Value)
    (name : String) (taken : List Value) (frame : FrameId) (es : List Expr) :
    (startArgs cx callee name taken frame tasks s es).calls.length ≤ cx.maxDepth := by
  cases es with
  | nil => exact calls_startCall_le h callee name taken frame
  | cons e es => exact h

/-- Starting on an expression keeps to the limit. -/
private theorem calls_start_le (h : (callsOf tasks).length ≤ cx.maxDepth) (e : Expr)
    (frame : FrameId) : (start cx frame tasks s e).calls.length ≤ cx.maxDepth := by
  cases e with
  | «variable» name =>
    simp only [start]
    split <;> exact h
  | sequence body =>
    simp only [start, calls_startBody]
    exact h
  | apply operator arguments =>
    simp only [start]
    split
    · exact h
    · exact calls_startArgs_le h _ _ _ _ _
  | _ => exact h

/-- Handing a value to the next task keeps to the limit. -/
private theorem calls_resume_le {task : Task} (h : (callsOf (task :: tasks)).length ≤ cx.maxDepth)
    (v : Value) : (resume cx v tasks s task).calls.length ≤ cx.maxDepth := by
  cases task with
  | define name frame =>
    simp only [resume, calls_after]
    exact h
  | assign name frame =>
    simp only [resume, calls_after]
    exact h
  | body rest frame =>
    simp only [resume, calls_startBody]
    exact h
  | argument callee name taken rest frame =>
    have hrest : (callsOf tasks).length ≤ cx.maxDepth := h
    exact calls_startArgs_le hrest callee name (taken ++ [v]) frame rest
  | leave frame => exact Nat.le_of_succ_le h
  | _ => exact h

/-- Every step keeps to the limit. -/
private theorem calls_le_step (m m' : Machine) (h : m.calls.length ≤ cx.maxDepth)
    (hstep : m.step cx = some m') : m'.calls.length ≤ cx.maxDepth := by
  cases step_eq_some_iff.mp hstep with
  | start e frame => exact calls_start_le h e frame
  | resume v => exact calls_resume_le h v
  -- An error ends at most the call that it passes.
  | unwind e task tasks => exact Nat.le_trans (length_callsOf_le_cons task tasks) h

/-- No more calls are in progress than the limit allows. -/
theorem calls_le_of_reaches {e : Expr} {m : Machine} (hrun : Reaches cx ⟨.eval e frame, [], s⟩ m) :
    m.calls.length ≤ cx.maxDepth :=
  hrun.preserves calls_le_step (Nat.zero_le _)

/-! ### One step under two limits -/

/-- The outcomes of a step under a limit and under a greater one: they are the same, or the
    one fails at its limit and the other has exceeded that limit. -/
def Cut (L : Nat) (m m' : Machine) : Prop :=
  m = m' ∨ m.control = .error (.stackExhausted L) ∧ L < m'.calls.length

/-- Entering a function differs between the limits only where the smaller one is reached. -/
private theorem cut_enter (hLM : L ≤ M) (fn : Lambda) (home : FrameId) (args : List Value) :
    Cut L (enter (cx.withLimit L) fn home args tasks s)
      (enter (cx.withLimit M) fn home args tasks s) := by
  have hL : (cx.withLimit L).maxDepth = L := rfl
  have hM : (cx.withLimit M).maxDepth = M := rfl
  simp only [enter, hL, hM]
  by_cases hroom : (callsOf tasks).length < L
  · rw [if_pos hroom, if_pos (by omega)]
    exact .inl rfl
  · rw [if_neg hroom]
    by_cases hmore : (callsOf tasks).length < M
    -- Only the greater limit allows the call, which is in progress then.
    · rw [if_pos hmore]
      refine .inr ⟨rfl, ?_⟩
      simp only [calls_startBody, callsOf, List.filterMap_cons, Task.call?, List.length_cons]
        at hroom ⊢
      omega
    · rw [if_neg hmore]
      by_cases heq : L = M
      · subst heq
        exact .inl rfl
      · refine .inr ⟨rfl, ?_⟩
        show L < (callsOf tasks).length
        omega

/-- So does calling a value. -/
private theorem cut_startCall (hLM : L ≤ M) (callee : Value) (name : String) (args : List Value)
    (frame : FrameId) :
    Cut L (startCall (cx.withLimit L) callee name args frame tasks s)
      (startCall (cx.withLimit M) callee name args frame tasks s) := by
  cases callee with
  | closure fn home =>
    simp only [startCall]
    split
    · exact cut_enter hLM fn home args
    · exact .inl rfl
  | _ => exact .inl rfl

/-- So does starting on the next argument, or on the call after the last. -/
private theorem cut_startArgs (hLM : L ≤ M) (callee : Value) (name : String) (taken : List Value)
    (frame : FrameId) (es : List Expr) :
    Cut L (startArgs (cx.withLimit L) callee name taken frame tasks s es)
      (startArgs (cx.withLimit M) callee name taken frame tasks s es) := by
  cases es with
  | nil => exact cut_startCall hLM callee name taken frame
  | cons e es => exact .inl rfl

/-- So does starting on an expression. -/
private theorem cut_start (hLM : L ≤ M) (e : Expr) (frame : FrameId) :
    Cut L (start (cx.withLimit L) frame tasks s e) (start (cx.withLimit M) frame tasks s e) := by
  cases e with
  | apply operator arguments =>
    simp only [start]
    split
    · exact .inl rfl
    · exact cut_startArgs hLM _ _ _ _ _
  | _ => exact .inl rfl

/-- So does handing a value to the next task. -/
private theorem cut_resume (hLM : L ≤ M) (v : Value) (task : Task) :
    Cut L (resume (cx.withLimit L) v tasks s task) (resume (cx.withLimit M) v tasks s task) := by
  cases task with
  | argument callee name taken rest frame => exact cut_startArgs hLM _ _ _ _ _
  | _ => exact .inl rfl

/-- One step under a limit and under a greater one. -/
theorem cut_step (cx : Context) (hLM : L ≤ M) (m : Machine) :
    m.step (cx.withLimit L) = none ∧ m.step (cx.withLimit M) = none ∨
      ∃ a b, m.step (cx.withLimit L) = some a ∧ m.step (cx.withLimit M) = some b ∧ Cut L a b := by
  obtain ⟨control, tasks, s⟩ := m
  cases control with
  | eval e frame => exact .inr ⟨_, _, rfl, rfl, cut_start hLM e frame⟩
  | value v =>
    cases tasks with
    | nil => exact .inl ⟨rfl, rfl⟩
    | cons task tasks => exact .inr ⟨_, _, rfl, rfl, cut_resume hLM v task⟩
  | error e =>
    cases tasks with
    | nil => exact .inl ⟨rfl, rfl⟩
    -- The same tasks are given up in the same way.
    | cons task tasks => exact .inr ⟨_, _, rfl, rfl, .inl rfl⟩

/-! ### Runs under two limits -/

/-- What is reached under the greater limit is reached under the smaller one, unless that
    is exhausted on the way. -/
theorem reaches_or_exhausts (hLM : L ≤ M) {m₀ m : Machine}
    (hrun : Reaches (cx.withLimit M) m₀ m) :
    Reaches (cx.withLimit L) m₀ m ∨
      ∃ k, Reaches (cx.withLimit L) m₀ k ∧ k.control = .error (.stackExhausted L) := by
  -- Step by step, until the limits make a difference.
  induction hrun with
  | refl => exact .inl .refl
  | @tail k m _ hstep ih =>
    rcases ih with hk | hexhausted
    · rcases cut_step cx hLM k with ⟨_, hnone⟩ | ⟨a, b, ha, hb, hcut⟩
      · rw [hnone] at hstep
        cases hstep
      · rw [hb] at hstep
        cases hstep
        rcases hcut with rfl | ⟨hcontrol, _⟩
        · exact .inl (hk.tail ha)
        · exact .inr ⟨a, hk.tail ha, hcontrol⟩
    · exact .inr hexhausted

/-- What is reached under the smaller limit is reached under the greater one, unless more
    calls than the smaller limit allows are in progress on the way. -/
theorem reaches_or_exceeds (hLM : L ≤ M) {m₀ m : Machine}
    (hrun : Reaches (cx.withLimit L) m₀ m) :
    Reaches (cx.withLimit M) m₀ m ∨
      ∃ k, Reaches (cx.withLimit M) m₀ k ∧ L < k.calls.length := by
  -- Step by step, until the limits make a difference.
  induction hrun with
  | refl => exact .inl .refl
  | @tail k m _ hstep ih =>
    rcases ih with hk | hexceeded
    · rcases cut_step cx hLM k with ⟨hnone, _⟩ | ⟨a, b, ha, hb, hcut⟩
      · rw [hnone] at hstep
        cases hstep
      · rw [ha] at hstep
        cases hstep
        rcases hcut with rfl | ⟨_, hcalls⟩
        · exact .inl (hk.tail hb)
        · exact .inr ⟨b, hk.tail hb, hcalls⟩
    · exact .inr hexceeded

/-- An error passes all tasks. -/
private theorem reaches_unwound (cx : Context) (e : EvalError) (tasks : List Task) (s : State) :
    ∃ s', Reaches cx ⟨.error e, tasks, s⟩ ⟨.error e, [], s'⟩ := by
  induction tasks generalizing s with
  | nil => exact ⟨s, .refl⟩
  | cons task tasks ih =>
    obtain ⟨s', hrun⟩ := ih (task.unwind cx s)
    exact ⟨s', .head (step_error cx e task tasks s) hrun⟩

end Machine

/-! ### Evaluations under two limits -/

variable {cx : Context} {L M : Nat} {e : Expr} {frame : FrameId} {s : State}

/-- An error that the machine meets is the outcome. -/
private theorem evaluate_eq_error {error : EvalError} {m : Machine}
    (hrun : Machine.Reaches cx ⟨.eval e frame, [], s⟩ m) (herror : m.control = .error error) :
    ∃ s', evaluate cx e frame s = .error error s' := by
  obtain ⟨control, tasks, s₁⟩ := m
  cases herror
  obtain ⟨s', hrest⟩ := Machine.reaches_unwound cx error tasks s₁
  have hall : Machine.Reaches cx ⟨.eval e frame, [], s⟩ (Machine.after [] (.error error s')) :=
    Relation.ReflTransGen.trans hrun hrest
  exact ⟨s', Machine.after_inj ((Machine.reaches_evaluate cx e frame s).unique hall
    (Machine.step_after_nil cx _) (Machine.step_after_nil cx _))⟩

/-- The evaluation ends because the limit on calls is reached. -/
def Exhausted (cx : Context) (e : Expr) (frame : FrameId) (s : State) : Prop :=
  ∃ s', evaluate cx e frame s = .error (.stackExhausted cx.maxDepth) s'

/-- A limit that is not exhausted may be raised: the outcome is the same, and no more calls
    are in progress at any time than the lower limit allows. -/
theorem evaluate_eq_of_not_exhausted (hLM : L ≤ M)
    (hnot : ¬ Exhausted (cx.withLimit L) e frame s) :
    evaluate (cx.withLimit M) e frame s = evaluate (cx.withLimit L) e frame s ∧
      ∀ m, Machine.Reaches (cx.withLimit M) ⟨.eval e frame, [], s⟩ m → m.calls.length ≤ L := by
  have hreaches : ∀ m, Machine.Reaches (cx.withLimit M) ⟨.eval e frame, [], s⟩ m →
      Machine.Reaches (cx.withLimit L) ⟨.eval e frame, [], s⟩ m := by
    intro m hm
    rcases Machine.reaches_or_exhausts hLM hm with h | ⟨k, hk, hcontrol⟩
    · exact h
    · exact absurd (evaluate_eq_error hk hcontrol) hnot
  refine ⟨?_, fun m hm => Machine.calls_le_of_reaches (hreaches m hm)⟩
  -- The run under the greater limit is one under the smaller, and has the same end.
  have hrun := hreaches _ (Machine.reaches_evaluate (cx.withLimit M) e frame s)
  exact Machine.after_inj (hrun.unique (Machine.reaches_evaluate (cx.withLimit L) e frame s)
    (Machine.step_after_nil _ _) (Machine.step_after_nil _ _))

/-- A limit is exhausted exactly if the next one lets one more call be in progress. -/
theorem exhausted_iff (hcx : cx.registry = Standard.registry) :
    Exhausted (cx.withLimit L) e frame s ↔
      ∃ m, Machine.Reaches (cx.withLimit (L + 1)) ⟨.eval e frame, [], s⟩ m ∧
        m.calls.length = L + 1 := by
  constructor
  · rintro ⟨s', hs'⟩
    have hrun := Machine.reaches_evaluate (cx.withLimit L) e frame s
    rw [hs'] at hrun
    rcases Machine.reaches_or_exceeds (Nat.le_succ L) hrun with hsame | ⟨k, hk, hcalls⟩
    -- Under the next limit the failure would be about that limit.
    · obtain ⟨s₁, hs₁⟩ := evaluate_eq_error hsame rfl
      have hcx' : (cx.withLimit (L + 1)).registry = Standard.registry := hcx
      have hraised := raised_evaluate hcx' e frame s
      rw [hs₁] at hraised
      have heq : L = L + 1 := hraised
      omega
    · have hle : k.calls.length ≤ L + 1 := Machine.calls_le_of_reaches hk
      exact ⟨k, hk, by omega⟩
  · rintro ⟨m, hm, hcalls⟩
    rcases Classical.em (Exhausted (cx.withLimit L) e frame s) with h | h
    · exact h
    · have hle := (evaluate_eq_of_not_exhausted (Nat.le_succ L) h).2 m hm
      omega

/-- An evaluation that has any number of calls in progress at once, if only the limit is
    great enough, exhausts every limit. -/
theorem exhausted_of_unbounded (hdeep : ∀ n, ∃ M m,
      Machine.Reaches (cx.withLimit M) ⟨.eval e frame, [], s⟩ m ∧ n ≤ m.calls.length) (L : Nat) :
    Exhausted (cx.withLimit L) e frame s := by
  obtain ⟨M, m, hm, hcalls⟩ := hdeep (L + 1)
  rcases Classical.em (Exhausted (cx.withLimit L) e frame s) with h | h
  · exact h
  · have hM : m.calls.length ≤ M := Machine.calls_le_of_reaches hm
    have hle := (evaluate_eq_of_not_exhausted (by omega) h).2 m hm
    omega

end LispSession
