import LispSession.Proofs.Symbols.Running

/-!
# The statements of a program, one by one

What the evaluation of a program does is told by the outcomes of its statements: they are
evaluated in order, each once, and each from the state that the one before it has left,
whether that one failed or not. Only a fatal error leaves statements out, and these are all
that come after it.

* `InOrder`               statements and their outcomes
* `inOrder_outcomes`      the outcomes that a program has
* `runStatements_eq`      they tell what the evaluation does
* `runStatements_append`  two programs, one after the other
* `outcomes_alike`        programs with other symbols
-/

namespace LispSession

namespace Outcome

/-- The state in which the next statement starts: the text of a value is written. -/
def written : Outcome Value → State
  | .value v s => s.write (s.render v)
  | .error _ s => s

/-- The error of the outcome. -/
def error? : Outcome Value → Option EvalError
  | .value _ _ => none
  | .error e _ => some e

/-- The outcome ends the whole evaluation: the stack is exhausted. -/
def isFatal (o : Outcome Value) : Bool := o.error?.any EvalError.isFatal

/-- What a user sees of the outcome: the text of the value, or the error. -/
def shown : Outcome Value → Except EvalError String
  | .value v s => .ok (s.render v)
  | .error e _ => .error e

end Outcome

/-- Statements have these outcomes, from a state on. -/
inductive InOrder (cx : Context) : List Expr → State → List (Outcome Value) → Prop where
  | done (s : State) : InOrder cx [] s []
  /-- The next statement starts where this one has left the state, if it failed or not. -/
  | next {e : Expr} {es : List Expr} {s : State} {os : List (Outcome Value)}
      (h : (evaluate cx e .global s).isFatal = false)
      (hrest : InOrder cx es (evaluate cx e .global s).written os) :
    InOrder cx (e :: es) s (evaluate cx e .global s :: os)
  /-- No statement runs after one that exhausts the stack. -/
  | exhausted {e : Expr} {s : State} (h : (evaluate cx e .global s).isFatal = true)
      (es : List Expr) : InOrder cx (e :: es) s [evaluate cx e .global s]

/-- The outcomes of the statements of a program, up to one that exhausts the stack. -/
def outcomes (cx : Context) : List Expr → State → List (Outcome Value)
  | [], _ => []
  | e :: es, s =>
    let o := evaluate cx e .global s
    if o.isFatal then [o] else o :: outcomes cx es o.written

variable {cx : Context}

/-- The outcomes that are computed are those of the statements in order. -/
theorem inOrder_outcomes (es : List Expr) (s : State) : InOrder cx es s (outcomes cx es s) := by
  -- Induction on the statements, which end with one that exhausts the stack.
  induction es generalizing s with
  | nil => exact .done s
  | cons e es ih =>
    unfold outcomes
    simp only
    split
    · rename_i h
      exact .exhausted h es
    · rename_i h
      exact .next (Bool.eq_false_iff.mpr h) (ih _)

/-- Every statement has an outcome, unless one of them exhausts the stack. -/
theorem InOrder.length_eq {es : List Expr} {s : State} {os : List (Outcome Value)}
    (h : InOrder cx es s os) (hos : ∀ o ∈ os, o.isFatal = false) : os.length = es.length := by
  induction h with
  | done s => rfl
  | next _ _ ih =>
    rw [List.length_cons, List.length_cons, ih fun o ho => hos o (List.mem_cons_of_mem _ ho)]
  | exhausted h es =>
    rw [hos _ List.mem_cons_self] at h
    cases h

/-- A statement and those after it, by its outcome. -/
private theorem runStatements_cons (e : Expr) (es : List Expr) (s : State)
    (first : Option EvalError) : runStatements cx (e :: es) s first =
      if (evaluate cx e .global s).isFatal then
        ((evaluate cx e .global s).written, first.or (evaluate cx e .global s).error?)
      else runStatements cx es (evaluate cx e .global s).written
        (first.or (evaluate cx e .global s).error?) := by
  rw [runStatements]
  generalize evaluate cx e .global s = o
  cases o with
  | value v s =>
    simp [Outcome.isFatal, Outcome.error?, Outcome.written]
  | error error s =>
    simp [Outcome.isFatal, Outcome.error?, Outcome.written]

/-- The outcomes of its statements tell what the evaluation of a program does: it ends in
    the last state, and its error is the first one. -/
theorem runStatements_eq (es : List Expr) (s : State) (first : Option EvalError) :
    runStatements cx es s first =
      (((outcomes cx es s).getLast?.map Outcome.written).getD s,
        first.or ((outcomes cx es s).findSome? Outcome.error?)) := by
  induction es generalizing s first with
  | nil => simp [runStatements, outcomes]
  | cons e es ih =>
    rw [runStatements_cons, outcomes]
    generalize evaluate cx e .global s = o
    split
    · cases herror : o.error? <;> simp [herror]
    -- The last state is that of the later statements, or this one if there are none.
    · rw [ih]
      generalize outcomes cx es o.written = os
      rw [List.getLast?_cons, List.findSome?_cons]
      refine Prod.ext ?_ ?_
      · cases os.getLast? <;> rfl
      · cases herror : o.error? <;> cases first <;> rfl

/-- The first error of an evaluation that starts with one. -/
theorem runStatements_first (es : List Expr) (s : State) (first : Option EvalError) :
    runStatements cx es s first =
      ((runStatements cx es s none).1, first.or (runStatements cx es s none).2) := by
  rw [runStatements_eq es s first, runStatements_eq es s none, Option.none_or]

/-! ### Two programs, one after the other -/

/-- A statement that does not exhaust the stack, and those after it. -/
private theorem outcomes_cons_of_not_fatal {e : Expr} {es : List Expr} {s : State}
    (h : ∀ o ∈ outcomes cx (e :: es) s, o.isFatal = false) :
    (evaluate cx e .global s).isFatal = false ∧
      ∀ o ∈ outcomes cx es (evaluate cx e .global s).written, o.isFatal = false := by
  rw [outcomes] at h
  split at h
  · rename_i hfatal
    rw [h _ List.mem_cons_self] at hfatal
    cases hfatal
  · exact List.forall_mem_cons.mp h

/-- If no statement of the first program exhausts the stack, the second one goes on where
    the first one ends. -/
theorem runStatements_append {es fs : List Expr} {s : State}
    (h : ∀ o ∈ outcomes cx es s, o.isFatal = false) (first : Option EvalError) :
    runStatements cx (es ++ fs) s first =
      runStatements cx fs (runStatements cx es s first).1 (runStatements cx es s first).2 := by
  induction es generalizing s first with
  | nil => rfl
  | cons e es ih =>
    obtain ⟨ho, hrest⟩ := outcomes_cons_of_not_fatal h
    rw [List.cons_append, runStatements_cons, runStatements_cons, ho, ih hrest]
    rfl

/-- If no statement of the first program exhausts the stack, its outcomes come before those of the
    second one. -/
theorem outcomes_append {es fs : List Expr} {s : State}
    (h : ∀ o ∈ outcomes cx es s, o.isFatal = false) (first : Option EvalError) :
    outcomes cx (es ++ fs) s =
      outcomes cx es s ++ outcomes cx fs (runStatements cx es s first).1 := by
  induction es generalizing s first with
  | nil => rfl
  | cons e es ih =>
    obtain ⟨ho, hrest⟩ := outcomes_cons_of_not_fatal h
    rw [List.cons_append, outcomes, outcomes, runStatements_cons, ho, ih hrest]
    rfl

/-- The statements of a program have the same outcomes if more of them follow. -/
theorem outcomes_subset_append (es fs : List Expr) (s : State) :
    outcomes cx es s ⊆ outcomes cx (es ++ fs) s := by
  induction es generalizing s with
  | nil => exact List.nil_subset _
  | cons e es ih =>
    rw [List.cons_append, outcomes, outcomes]
    split
    · exact List.Subset.refl _
    · exact List.cons_subset_cons _ (ih _)

/-! ### Other symbols -/

/-- Outcomes that a user sees as the same are both fatal, or neither is. -/
private theorem Outcome.isFatal_eq_of_shown {o o' : Outcome Value} (h : o.shown = o'.shown) :
    o.isFatal = o'.isFatal := by
  cases o with
  | value v s =>
    cases o' with
    | value v' s' => rfl
    | error e' s' => cases h
  | error e s =>
    cases o' with
    | value v' s' => cases h
    | error e' s' =>
      cases h
      rfl

/-- No outcome is fatal if a user sees it among others none of which is. -/
theorem not_fatal_of_shown {os os' : List (Outcome Value)}
    (h : os'.map Outcome.shown ⊆ os.map Outcome.shown) (hos : ∀ o ∈ os, o.isFatal = false) :
    ∀ o ∈ os', o.isFatal = false := by
  intro o' ho'
  obtain ⟨o, ho, heq⟩ := List.mem_map.mp (h (List.mem_map_of_mem ho'))
  rw [← Outcome.isFatal_eq_of_shown heq]
  exact hos o ho

/-- A user sees the same of alike outcomes. -/
private theorem Outcome.Alike.shown_eq {before : Array String} {s s' : State} {o o' : Outcome Value}
    (h : o.Alike before s s' o') : o.shown = o'.shown := by
  cases h with
  | value _ _ hv => exact congrArg Except.ok (State.render_eq hv)
  | error => rfl

/-- Alike programs have outcomes in which a user sees the same. -/
theorem outcomes_alike (hcx : cx.registry = Standard.registry) {before : Array String}
    {s s' : State} (hs : s.Alike before s') {es es' : List Expr}
    (hes : List.Forall₂ (Expr.Alike (s.Same s')) es es') :
    (outcomes cx es s).map Outcome.shown = (outcomes cx es' s').map Outcome.shown := by
  induction es generalizing s s' es' with
  | nil =>
    cases hes with
    | nil => rfl
  | cons e es ih =>
    cases hes with
    | @cons _ e' _ es' he hes =>
      have houtcome := evaluate_alike hcx hs he .global
      have hshown := houtcome.shown_eq
      have hfatal := Outcome.isFatal_eq_of_shown hshown
      -- Whether the statement fails or not, the next one starts in states that are alike.
      have hlater : (outcomes cx es (evaluate cx e .global s).written).map Outcome.shown =
          (outcomes cx es' (evaluate cx e' .global s').written).map Outcome.shown := by
        generalize evaluate cx e .global s = o at houtcome
        generalize evaluate cx e' .global s' = o' at houtcome
        cases houtcome with
        | value hr hgrown hv =>
          simp only [Outcome.written, State.render_eq hv]
          exact ih (hr.write _) (Expr.Alike.mono_list (fun _ _ => hgrown.same) hes)
        | error hr hgrown error =>
          exact ih hr (Expr.Alike.mono_list (fun _ _ => hgrown.same) hes)
      rw [outcomes, outcomes]
      simp only [← hfatal]
      split
      · rw [List.map_singleton, List.map_singleton, hshown]
      · rw [List.map_cons, List.map_cons, hshown, hlater]

end LispSession
