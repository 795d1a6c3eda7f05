import LispSession.Proofs.Machine.Stable
import LispSession.Proofs.Symbols.Environments

/-!
# What evaluation interns

A definition yields a fixed name, which is interned where the name it defines is bound. No
other step of an evaluation interns anything, and nothing is ever taken out of the table. So
the table after an evaluation tells whether a definition was completed in it, if the name was
not known before.

* `Machine.symbols_step`   what one step interns
* `Machine.interns_run`    what a run interns
* `interns_evaluate`       what a statement interns
* `interns_runStatements`  what the statements of a text intern
-/

namespace LispSession

/-- If something happens, the table becomes the one where the name is interned that definitions
    yield. Otherwise it stays as it is. -/
def InternsIf (happens : Prop) (t u : SymbolTable) : Prop :=
  (happens → u = (t.intern definedName).2) ∧ (¬ happens → u = t)

namespace InternsIf

variable {p q : Prop} {t u v : SymbolTable}

/-- What never happens interns nothing. -/
theorem never (t : SymbolTable) (hp : ¬ p) : InternsIf p t t :=
  ⟨fun h => absurd h hp, fun _ => rfl⟩

/-- Interning is stated up to what the condition means. -/
theorem congr (h : InternsIf p t u) (hpq : p ↔ q) : InternsIf q t u := by rwa [← hpq]

/-- The name is interned once, however often it is met. -/
private theorem trans (h : InternsIf p t u) (h' : InternsIf q u v) : InternsIf (p ∨ q) t v := by
  have hagain := SymbolTable.intern_of_get? (t.get?_intern definedName)
  by_cases hp : p
  · obtain rfl := h.1 hp
    refine ⟨fun _ => ?_, fun hnot => absurd (.inl hp) hnot⟩
    by_cases hq : q
    · rw [h'.1 hq, hagain]
    · exact h'.2 hq
  · obtain rfl := h.2 hp
    exact h'.congr (by simp [hp])

end InternsIf

namespace Machine

/-- The value of a definition has been computed, and the next step completes the definition. -/
def completesDefinition (m : Machine) : Bool :=
  match m.control, m.tasks with
  | .value _, .define _ _ :: _ => true
  | _, _ => false

variable {cx : Context} {tasks : List Task} {s : State}

/-- Entering a closure interns nothing. -/
private theorem symbols_enter (fn : Lambda) (home : FrameId) (args : List Value) :
    (enter cx fn home args tasks s).state.env.symbols = s.env.symbols := by
  unfold enter
  split
  · rw [state_startBody]
    exact Environment.symbols_defineAll _ _ _ _
  · rfl

/-- A call interns nothing: the standard natives do not touch the table. -/
private theorem symbols_startCall (hcx : cx.registry = Standard.registry) (callee : Value)
    (name : String) (args : List Value) (frame : FrameId) :
    (startCall cx callee name args frame tasks s).state.env.symbols = s.env.symbols := by
  unfold startCall
  split
  · rw [state_after, hcx, Standard.invoke_env]
  · split
    · exact symbols_enter _ _ args
    · rfl
  · rfl

/-- Taking the arguments of a call interns nothing. -/
private theorem symbols_startArgs (hcx : cx.registry = Standard.registry) (callee : Value)
    (name : String) (taken : List Value) (frame : FrameId) (es : List Expr) :
    (startArgs cx callee name taken frame tasks s es).state.env.symbols = s.env.symbols := by
  cases es with
  | nil => exact symbols_startCall hcx callee name taken frame
  | cons e es => rfl

/-- The first step of an expression interns nothing. -/
private theorem symbols_start (hcx : cx.registry = Standard.registry) (e : Expr) (frame : FrameId) :
    (start cx frame tasks s e).state.env.symbols = s.env.symbols := by
  cases e with
  | «variable» name =>
    simp only [start]
    split <;> rfl
  | sequence body => simp only [start, state_startBody]
  | apply operator arguments =>
    cases operator with
    | «variable» name =>
      simp only [start, evalOperator]
      cases s.env.lookup? frame name with
      | some callee => exact symbols_startArgs hcx _ _ _ _ _
      | none => rfl
    | lambda fn => exact symbols_startArgs hcx _ _ _ _ _
  | _ => rfl

/-- Leaving a call interns nothing. -/
private theorem symbols_leave (policy : FramePolicy) (frame : FrameId) (env : Environment) :
    (policy.leave frame env).symbols = env.symbols := by
  cases policy <;> rfl

/-- An assignment interns nothing: its name was interned when it was read. -/
private theorem symbols_assignName (name : Symbol) (value : Value) (frame : FrameId) (s : State) :
    (assignName name value frame s).state.env.symbols = s.env.symbols := by
  unfold assignName
  split
  · rename_i env henv
    obtain ⟨found, _, rfl⟩ := Option.map_eq_some_iff.mp henv
    rfl
  · rfl

/-- Nothing is interned but the name that a definition yields, by the step that completes it. -/
theorem symbols_step (hcx : cx.registry = Standard.registry) {m m' : Machine}
    (h : m.step cx = some m') :
    m'.state.env.symbols = if m.completesDefinition then
      (m.state.env.symbols.intern definedName).2 else m.state.env.symbols := by
  cases step_eq_some_iff.mp h with
  | start e frame => exact symbols_start hcx e frame
  | resume v task tasks s =>
    -- Of the tasks, only the one that completes a definition interns the name it answers with.
    cases task with
    | define name frame => rfl
    | assign name frame =>
      simp only [resume, state_after]
      exact symbols_assignName name v frame s
    | body rest frame =>
      simp only [resume, state_startBody]
      rfl
    | argument callee name taken rest frame => exact symbols_startArgs hcx _ _ _ _ _
    | leave frame => exact symbols_leave cx.policy frame s.env
    | _ => rfl
  | unwind e task tasks s =>
    cases task with
    | leave frame => exact symbols_leave cx.policy frame s.env
    | _ => rfl

/-- The machine does not end before a definition that it has begun to complete. -/
private theorem completesDefinition_of_end {m : Machine} (hend : m.step cx = none) :
    m.completesDefinition = false := by
  unfold completesDefinition
  split
  · rename_i hcontrol htasks
    simp [step, hcontrol, htasks] at hend
  · rfl

/-- A run to its end interns the name where it completes a definition, and nothing else. -/
theorem interns_run (hcx : cx.registry = Standard.registry) {m last : Machine}
    (hrun : Reaches cx m last) (hend : last.step cx = none) :
    InternsIf (∃ k, Reaches cx m k ∧ k.completesDefinition = true) m.state.env.symbols
      last.state.env.symbols := by
  induction hrun using Relation.ReflTransGen.head_induction_on with
  | refl =>
    refine .never _ ?_
    rintro ⟨k, hreaches, hcompletes⟩
    rcases Relation.ReflTransGen.cases_head_iff.mp hreaches with rfl | ⟨next, hstep, _⟩
    · rw [completesDefinition_of_end hend] at hcompletes
      exact nomatch hcompletes
    · rw [hend] at hstep
      exact nomatch hstep
  | @head m next hstep _ ih =>
    -- A definition is completed by the first step or by a later one.
    have hfirst : InternsIf (m.completesDefinition = true) m.state.env.symbols
        next.state.env.symbols := by
      have hsymbols := symbols_step hcx hstep
      exact ⟨fun h => by rw [hsymbols, if_pos h], fun h => by rw [hsymbols, if_neg h]⟩
    refine (hfirst.trans ih).congr ⟨?_, ?_⟩
    · rintro (h | ⟨k, hk, h⟩)
      · exact ⟨m, .refl, h⟩
      · exact ⟨k, .head hstep hk, h⟩
    · rintro ⟨k, hk, h⟩
      rcases Relation.ReflTransGen.cases_head_iff.mp hk with rfl | ⟨other, hother, hk⟩
      · exact .inl h
      · rw [hstep] at hother
        obtain rfl := Option.some.inj hother
        exact .inr ⟨k, hk, h⟩

end Machine

/-- A statement interns the name where it completes a definition, also if it fails later. -/
theorem interns_evaluate {cx : Context} (hcx : cx.registry = Standard.registry) (e : Expr)
    (s : State) :
    InternsIf (∃ k, Machine.Reaches cx ⟨.eval e .global, [], s⟩ k ∧ k.completesDefinition = true)
      s.env.symbols (evaluate cx e .global s).state.env.symbols := by
  have hrun := Machine.interns_run hcx (Machine.reaches_evaluate cx e .global s)
    (Machine.step_after_nil cx _)
  rwa [Machine.state_after] at hrun

/-- The statements of a text intern the name where one of them completes a definition. -/
theorem interns_runStatements {cx : Context} (hcx : cx.registry = Standard.registry)
    (es : List Expr) (s : State) (first : Option EvalError) :
    InternsIf (∃ k, Passes cx es s k ∧ k.completesDefinition = true) s.env.symbols
      (runStatements cx es s first).1.env.symbols := by
  -- Induction on the statements: each one interns for the definitions that it completes, up to the
  -- first fatal error.
  induction es generalizing s first with
  | nil =>
    refine .never _ ?_
    rintro ⟨k, hpasses, _⟩
    cases hpasses
  | cons e es ih =>
    have hstatement := interns_evaluate hcx e s
    simp only [passes_cons_iff, runStatements]
    cases hresult : evaluate cx e .global s with
    | value v s' =>
      rw [hresult] at hstatement
      refine (hstatement.trans (ih (s'.write (s'.render v)) first)).congr ?_
      simp [or_and_right, exists_or]
    | error error s' =>
      rw [hresult] at hstatement
      simp only
      split
      · rename_i hfatal
        refine hstatement.congr ?_
        simp [hfatal]
      · rename_i hfatal
        refine (hstatement.trans (ih s' (first.or (some error)))).congr ?_
        simp [hfatal, or_and_right, exists_or]

end LispSession
