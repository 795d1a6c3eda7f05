import LispSession.Proofs.Depth.Lockstep
import LispSession.Proofs.Depth.Termination

/-!
# The limit on calls

What the limit on the calls in progress does to whole evaluations: with it every evaluation
ends, and apart from the evaluations that it cuts off it changes nothing.

* `settles_runStatements`   the statements of a program
* `evaluation_ends`         every text, in every well-formed environment
* `limit_only_cuts_off`     one statement under two limits
-/

namespace LispSession

/-- Evaluate statements in order in the global frame, with a budget for each. No call is in
    progress when a statement starts. -/
def runWithin (cx : Context) (budget : Nat) : List Expr → State → Option EvalError →
    Option (State × Option EvalError)
  | [], s, first => some (s, first)
  | e :: es, s, first =>
    match evalWithin cx budget ⟨e, .global, 0, s⟩ with
    | none => none
    | some (.value value s, _) => runWithin cx budget es (s.write (s.render value)) first
    | some (.error error s, _) =>
      if error.isFatal then some (s, first.or (some error))
      else runWithin cx budget es s (first.or (some error))

/-- A greater budget gives the same result. -/
private theorem runWithin_mono {cx : Context} {budget budget' : Nat} (hle : budget ≤ budget')
    {es : List Expr} {s : State} {first : Option EvalError} {result : State × Option EvalError}
    (h : runWithin cx budget es s first = some result) :
    runWithin cx budget' es s first = some result := by
  -- Statement by statement; what the smaller budget answers the larger one answers as well.
  induction es generalizing s first with
  | nil => exact h
  | cons e es ih =>
    simp only [runWithin] at h ⊢
    cases hanswer : evalWithin cx budget ⟨e, .global, 0, s⟩ with
    | none =>
      rw [hanswer] at h
      cases h
    | some answer =>
      obtain ⟨o, depth⟩ := answer
      rw [hanswer] at h
      rw [(evalWithin_refines hle _ o depth hanswer).2]
      cases o with
      | value v s' => exact ih h
      | error error s' =>
        simp only at h ⊢
        split
        · rename_i hfatal
          rwa [if_pos hfatal] at h
        · rename_i hfatal
          rw [if_neg hfatal] at h
          exact ih h

/-- The statements of a program settle. -/
theorem settles_runStatements {cx : Context} (hcx : cx.registry = Standard.registry)
    (es : List Expr) {s : State} (first : Option EvalError) (henv : s.env.WellFormed) :
    Settles (fun n => runWithin cx n es s first) (runStatements cx es s first) := by
  -- The budgets for the first statement and for the others are put together.
  induction es generalizing s first with
  | nil => exact .const _
  | cons e es ih =>
    have hfirst : Settles (fun n => evalWithin cx n ⟨e, .global, 0, s⟩)
        (evaluate cx e .global s, 0) := settles_evaluate hcx henv henv.size_pos e
    obtain ⟨budget, hbudget⟩ := hfirst
    have hafter := Machine.wellFormed_evaluate hcx henv e
    cases ho : evaluate cx e .global s with
    | value v s' =>
      rw [ho] at hafter hbudget
      obtain ⟨budget', hbudget'⟩ := ih (s := s'.write (s'.render v)) first hafter
      refine ⟨max budget budget', fun n hn => ?_⟩
      simp only [runWithin, runStatements, hbudget n (by omega), ho]
      exact hbudget' n (by omega)
    | error error s' =>
      rw [ho] at hafter hbudget
      obtain ⟨budget', hbudget'⟩ := ih (first.or (some error)) hafter
      refine ⟨max budget budget', fun n hn => ?_⟩
      simp only [runWithin, runStatements, hbudget n (by omega), ho]
      split
      · rfl
      · exact hbudget' n (by omega)

namespace Interpreter

/-- Evaluate a text in an environment, with a budget for each of its statements. -/
def evaluateWithin (interpreter : Interpreter) (budget : Nat) (env : Environment)
    (text : String) : Option Evaluation :=
  match interpreter.read env text with
  | .error e => some ⟨#[], some (.parse e), interpreter.prepare env text⟩
  | .ok program =>
    (runWithin interpreter.context budget program ⟨interpreter.prepare env text, #[]⟩ none).map
      fun (s, error) => ⟨s.output, error, s.env⟩

/-- A greater budget gives the same result. -/
private theorem evaluateWithin_mono {interpreter : Interpreter} {budget budget' : Nat}
    (hle : budget ≤ budget') {env : Environment} {text : String} {result : Evaluation}
    (h : interpreter.evaluateWithin budget env text = some result) :
    interpreter.evaluateWithin budget' env text = some result := by
  simp only [evaluateWithin] at h ⊢
  split at h
  · exact h
  · obtain ⟨ran, hran, heq⟩ := Option.map_eq_some_iff.mp h
    exact Option.map_eq_some_iff.mpr ⟨ran, runWithin_mono hle hran, heq⟩

/-- The evaluation of a text settles. -/
private theorem settles_evaluateText (config : Config) {env : Environment} (henv : env.WellFormed)
    (text : String) :
    Settles (fun n => (ofConfig config).evaluateWithin n env text)
      ((ofConfig config).evaluate env text) := by
  -- A text that is refused needs no budget.
  cases hread : (ofConfig config).read env text with
  | error e =>
    rw [evaluate_of_error hread]
    simp only [evaluateWithin, hread]
    exact .const _
  | ok program =>
    rw [evaluate_of_ok hread]
    simp only [evaluateWithin, hread]
    have hprogram : Settles
        (fun n => runWithin (ofConfig config).context n program
          ⟨(ofConfig config).prepare env text, #[]⟩ none) _ :=
      settles_runStatements rfl program none (wellFormed_prepare _ henv text)
    exact hprogram.map fun (s, error) => Evaluation.mk s.output error s.env

/-- Every evaluation ends.

    A request to evaluate an expression leads to others only for parts of it, with the same
    calls in progress, or for expressions of the body of a function, with one call more and
    within the limit, and this cannot go on for ever. The evaluator with a budget is made of
    these levels, each of which depends on nothing but the answers to such requests. For every
    text, in every well-formed environment, some budget suffices for the result of the
    evaluation, and every greater budget gives the same. A statement whose calls would nest
    beyond every limit ends as well: the stack is exhausted. -/
theorem evaluation_ends (config : Config) {env : Environment} (henv : env.WellFormed)
    (text : String) :
    let interpreter := ofConfig config
    let cx := interpreter.context
    WellFounded (Invokes config.maxDepth) ∧
      (∀ (budget : Nat) (eval : Answers) (job : Job),
        (∀ job', Invokes config.maxDepth job' job → eval job' = evalWithin cx budget job') →
          evalWith cx budget eval job = evalWithin cx (budget + 1) job) ∧
      (∃ budget, ∀ n, budget ≤ n →
        interpreter.evaluateWithin n env text = some (interpreter.evaluate env text)) ∧
      (∀ m n result, m ≤ n → interpreter.evaluateWithin m env text = some result →
        interpreter.evaluateWithin n env text = some result) ∧
      ∀ (e : Expr) (s : State),
        (∀ n, ∃ limit m, Machine.Reaches (cx.withLimit limit) ⟨.eval e .global, [], s⟩ m ∧
          n ≤ m.calls.length) →
            ∃ s', LispSession.evaluate cx e .global s =
              .error (.stackExhausted config.maxDepth) s' := by
  intro interpreter cx
  refine ⟨wellFounded_invokes config.maxDepth, ?_, ?_, ?_, ?_⟩
  · intro budget eval job h
    exact evalWith_congr h
  · exact settles_evaluateText config henv text
  · intro m n result hle h
    exact evaluateWithin_mono hle h
  · intro e s hdeep
    exact exhausted_of_unbounded hdeep config.maxDepth

/-- A function that calls itself for ever, defined in an earlier text, ends at the limit. -/
theorem evaluation_ends_looping :
    let interpreter := ofConfig ⟨3, .reclaim⟩
    let env := interpreter.envAfter ["(define (loop) (loop))"]
    ∃ budget result, (∀ n, budget ≤ n → interpreter.evaluateWithin n env "(loop)" = some result) ∧
      result.errorMessage = "stack exhausted: more than 3 nested function calls" := by
  intro interpreter env
  obtain ⟨budget, hbudget⟩ :=
    (evaluation_ends ⟨3, .reclaim⟩ (wellFormed_envAfter _ _) "(loop)").2.2.1
  exact ⟨budget, _, hbudget, by decide +kernel⟩

end Interpreter

/-- The limit on calls cuts off the evaluations that need more calls, and changes nothing
    else.

    What a limit does not cut off has the same outcome under every greater limit, and never
    more calls in progress than the lower limit allows. A limit is exhausted exactly if the
    next one lets as many calls be in progress at some time. The counter that the evaluator
    raises and lowers is at the end what it was at the start, whatever the outcome. -/
theorem limit_only_cuts_off (config : Config) {L M : Nat} (hLM : L ≤ M) (e : Expr)
    (frame : FrameId) {s : State} (henv : s.env.WellFormed)
    (hframe : frame.index < s.env.frames.size) :
    let under (limit : Nat) : Context := (Interpreter.ofConfig config).context.withLimit limit
    ((∀ limit s', evaluate (under L) e frame s ≠ .error (.stackExhausted limit) s') →
        evaluate (under M) e frame s = evaluate (under L) e frame s ∧
          ∀ m, Machine.Reaches (under M) ⟨.eval e frame, [], s⟩ m → m.calls.length ≤ L) ∧
      ((∃ s', evaluate (under L) e frame s = .error (.stackExhausted L) s') ↔
        ∃ m, Machine.Reaches (under (L + 1)) ⟨.eval e frame, [], s⟩ m ∧ m.calls.length = L + 1) ∧
      (∀ limit, ∃ budget, ∀ n, budget ≤ n →
        evalWithin (under limit) n ⟨e, frame, 0, s⟩ = some (evaluate (under limit) e frame s, 0)) ∧
      ∀ limit n depth outcome depth',
        evalWithin (under limit) n ⟨e, frame, depth, s⟩ = some (outcome, depth') →
          depth' = depth := by
  intro under
  -- The four parts are about other limits, the exact limit, the budget and the counter.
  refine ⟨?_, exhausted_iff rfl, ?_, ?_⟩
  · intro hnot
    exact evaluate_eq_of_not_exhausted hLM fun ⟨s', hs'⟩ => hnot L s' hs'
  · intro limit
    exact settles_evaluate rfl henv hframe e
  · intro limit n depth outcome depth' hanswer
    exact (evalWithin_refines (Nat.le_refl n) _ outcome depth' hanswer).1

/-- One call inside another needs a limit of two: one is too little, and more than two make no
    difference. -/
theorem limit_only_cuts_off_nested :
    let inner : Expr := .apply (.lambda (.mk [] [.boolean true])) []
    let nested : Expr := .apply (.lambda (.mk [] [inner])) []
    let under (limit : Nat) := (Interpreter.ofConfig .default).context.withLimit limit
    let s : State := ⟨.new, #[]⟩
    2 ≤ 9 ∧ evaluate (under 9) nested .global s = evaluate (under 2) nested .global s ∧
      ∃ m, Machine.Reaches (under 2) ⟨.eval nested .global, [], s⟩ m ∧ m.calls.length = 2 := by
  intro inner nested under s
  have henv : s.env.WellFormed := Environment.wellFormed_new
  refine ⟨by decide, ?_, ?_⟩
  · refine ((limit_only_cuts_off .default (L := 2) (M := 9) (by decide) nested .global henv
      henv.size_pos).1 ?_).1
    -- The evaluation is computed, and does not end with this error.
    rintro limit s' ⟨⟩
  · exact (limit_only_cuts_off .default (L := 1) (M := 9) (by decide) nested .global henv
      henv.size_pos).2.1.mp ⟨_, rfl⟩

end LispSession
