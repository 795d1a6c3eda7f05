import LispSession.Proofs.Frames.Natives
import LispSession.Proofs.Frames.WellFormed

/-!
# Effects of an evaluation

An evaluation in a frame does a few things to the environment: it marks the frame when it
creates a closure there, it binds the names that the expression defines, it assigns to
names that are bound, and it calls functions, whose bodies are evaluated in frames of their
own. A relation between the states before and after an evaluation that all of these keep
holds of every evaluation, whether it yields a value or fails.

* `Expr.definedNames`          the names that an expression defines in its own frame
* `Effect.Closed`              what a relation has to keep
* `Effect.Closed.evalExpr`     it holds of every evaluation
* `Effect.Closed.enterAt`      and of every call
-/

namespace LispSession

mutual

/-- The names that occur in an expression as those of a definition, outside the bodies of
    functions. -/
def Expr.definedNames : Expr → List Symbol
  | .cons car cdr => car.definedNames ++ cdr.definedNames
  | .define name value => name :: value.definedNames
  | .branch condition consequent alternative =>
    condition.definedNames ++ consequent.definedNames ++ alternative.definedNames
  | .sequence body => Expr.allDefinedNames body
  | .assign _ value => value.definedNames
  | .apply _ arguments => Expr.allDefinedNames arguments
  | .variable _ | .number _ | .string _ | .boolean _ | .quoted _ | .data _ | .lambda _ => []

/-- The names that any of some expressions defines. -/
def Expr.allDefinedNames : List Expr → List Symbol
  | [] => []
  | e :: es => e.definedNames ++ Expr.allDefinedNames es

end

/-- A relation between the states before and after an evaluation in a frame, during which
    the frame may get bindings for some names. -/
abbrev Effect := FrameId → List Symbol → State → State → Prop

/-- All that an evaluation does to the environment keeps the relation. -/
structure Effect.Closed (policy : FramePolicy) (R : Effect) : Prop where
  same : ∀ {frame : FrameId} {names : List Symbol} {s s' : State}, s'.env = s.env →
    R frame names s s'
  trans : ∀ {frame : FrameId} {names : List Symbol} {s₁ s₂ s₃ : State},
    R frame names s₁ s₂ → R frame names s₂ s₃ → R frame names s₁ s₃
  capture : ∀ (frame : FrameId) (names : List Symbol) (s : State),
    R frame names s { s with env := s.env.capture frame }
  define : ∀ {frame : FrameId} {names : List Symbol} {name : Symbol}, name ∈ names →
    ∀ (value : Value) (s : State), R frame names s (bindName name value frame s).state
  assign : ∀ (frame : FrameId) (names : List Symbol) (name : Symbol) (value : Value) (s : State),
    R frame names s (assignName name value frame s).state
  /-- A call makes a frame, its body is evaluated there, and the frame is left. -/
  call : ∀ {names : List Symbol} {s s' : State} (fn : Lambda) (home : FrameId) (args : List Value),
    R (s.env.extend home).1 names
        { s with env := (s.env.extend home).2.defineAll (s.env.extend home).1 fn.params args } s' →
      ∀ (frame : FrameId) (others : List Symbol),
        R frame others s { s' with env := policy.leave (s.env.extend home).1 s'.env }

namespace Effect.Closed

variable {R : Effect} {cx : Context} {enterCall : Entry}

/-- Entering a call keeps the relation, seen from any frame. -/
def Enters (R : Effect) (enterCall : Entry) : Prop :=
  ∀ (fn : Lambda) (home : FrameId) (args : List Value) (s : State) (frame : FrameId)
    (names : List Symbol), R frame names s (enterCall fn home args s).state

section

variable (hR : R.Closed cx.policy)

include hR

/-- Doing nothing keeps to the relation. -/
private theorem refl (frame : FrameId) (names : List Symbol) (s : State) :
    R frame names s s := hR.same rfl

/-- Finding the function to apply keeps to the relation. -/
private theorem evalOperator (operator : Operator) (frame : FrameId) (names : List Symbol)
    (s : State) : R frame names s (LispSession.evalOperator operator frame s).state := by
  cases operator with
  | «variable» name =>
    simp only [LispSession.evalOperator]
    split
    · exact hR.refl frame names s
    · exact hR.refl frame names s
  | lambda fn => exact hR.capture frame names s

variable (hcx : cx.registry = Standard.registry) (henter : Enters R enterCall)

include hcx henter

/-- A call keeps the relation: native functions leave the environment alone. -/
private theorem callValue (name : String) (callee : Value) (args : List Value) (frame : FrameId)
    (names : List Symbol) (s : State) :
    R frame names s (LispSession.call cx enterCall name callee args frame s).state := by
  -- A native function leaves the environment alone; a closure is entered if it takes the arguments.
  cases callee with
  | native native =>
    simp only [LispSession.call, hcx]
    exact hR.same (Standard.invoke_env native args frame s)
  | closure fn home =>
    simp only [LispSession.call]
    split
    · exact henter fn home args s frame names
    · exact hR.refl frame names s
  | _ => exact hR.refl frame names s

end

mutual

/-- Within one call, an evaluation keeps the relation if further calls do. -/
private theorem evalExpr_of_enters (hR : R.Closed cx.policy) (hcx : cx.registry = Standard.registry)
    (henter : Enters R enterCall) :
    ∀ (e : Expr) (frame : FrameId) {names : List Symbol} (s : State), e.definedNames ⊆ names →
      R frame names s (LispSession.evalExpr cx enterCall e frame s).state
  -- By the form of the expression; what its parts do comes first, then what it does itself.
  | .number _, frame, names, s, _ => hR.refl frame names s
  | .string _, frame, names, s, _ => hR.refl frame names s
  | .boolean _, frame, names, s, _ => hR.refl frame names s
  | .quoted _, frame, names, s, _ => hR.refl frame names s
  | .data _, frame, names, s, _ => hR.refl frame names s
  | .lambda _, frame, names, s, _ => hR.capture frame names s
  | .variable name, frame, names, s, _ => by
    simp only [LispSession.evalExpr]
    split
    · exact hR.refl frame names s
    · exact hR.refl frame names s
  | .cons car cdr, frame, names, s, hnames => by
    obtain ⟨hcar, hcdr⟩ := List.append_subset.mp hnames
    have h₁ := evalExpr_of_enters hR hcx henter car frame s hcar
    simp only [LispSession.evalExpr]
    cases ho₁ : LispSession.evalExpr cx enterCall car frame s with
    | error e s₁ => rwa [ho₁] at h₁
    | value first s₁ =>
      rw [ho₁] at h₁
      have h₂ := evalExpr_of_enters hR hcx henter cdr frame s₁ hcdr
      simp only
      cases ho₂ : LispSession.evalExpr cx enterCall cdr frame s₁ with
      | error e s₂ => rw [ho₂] at h₂; exact hR.trans h₁ h₂
      | value second s₂ => rw [ho₂] at h₂; exact hR.trans h₁ h₂
  | .define name value, frame, names, s, hnames => by
    obtain ⟨hname, hvalue⟩ := List.cons_subset.mp hnames
    have h₁ := evalExpr_of_enters hR hcx henter value frame s hvalue
    simp only [LispSession.evalExpr]
    cases ho₁ : LispSession.evalExpr cx enterCall value frame s with
    | error e s₁ => rwa [ho₁] at h₁
    | value v s₁ => rw [ho₁] at h₁; exact hR.trans h₁ (hR.define hname v s₁)
  | .branch condition consequent alternative, frame, names, s, hnames => by
    obtain ⟨hleft, halternative⟩ := List.append_subset.mp hnames
    obtain ⟨hcondition, hconsequent⟩ := List.append_subset.mp hleft
    have h₁ := evalExpr_of_enters hR hcx henter condition frame s hcondition
    simp only [LispSession.evalExpr]
    cases ho₁ : LispSession.evalExpr cx enterCall condition frame s with
    | error e s₁ => rwa [ho₁] at h₁
    | value test s₁ =>
      rw [ho₁] at h₁
      simp only
      split
      · exact hR.trans h₁ (evalExpr_of_enters hR hcx henter consequent frame s₁ hconsequent)
      · exact hR.trans h₁ (evalExpr_of_enters hR hcx henter alternative frame s₁ halternative)
  | .sequence body, frame, names, s, hnames => by
    simp only [LispSession.evalExpr]
    exact evalBody_of_enters hR hcx henter body frame s hnames
  | .assign name value, frame, names, s, hnames => by
    have h₁ := evalExpr_of_enters hR hcx henter value frame s hnames
    simp only [LispSession.evalExpr]
    cases ho₁ : LispSession.evalExpr cx enterCall value frame s with
    | error e s₁ => rwa [ho₁] at h₁
    | value v s₁ => rw [ho₁] at h₁; exact hR.trans h₁ (hR.assign frame names name v s₁)
  | .apply operator arguments, frame, names, s, hnames => by
    have h₁ := hR.evalOperator operator frame names s
    simp only [LispSession.evalExpr]
    cases ho₁ : LispSession.evalOperator operator frame s with
    | error e s₁ => rwa [ho₁] at h₁
    | value found s₁ =>
      rw [ho₁] at h₁
      have h₂ := evalArgs_of_enters hR hcx henter arguments frame s₁ hnames
      simp only
      cases ho₂ : LispSession.evalArgs cx enterCall arguments frame s₁ with
      | error e s₂ => rw [ho₂] at h₂; exact hR.trans h₁ h₂
      | value args s₂ =>
        rw [ho₂] at h₂
        exact hR.trans (hR.trans h₁ h₂) (hR.callValue hcx henter _ _ args frame names s₂)

/-- So does the evaluation of arguments. -/
private theorem evalArgs_of_enters (hR : R.Closed cx.policy) (hcx : cx.registry = Standard.registry)
    (henter : Enters R enterCall) :
    ∀ (es : List Expr) (frame : FrameId) {names : List Symbol} (s : State),
      Expr.allDefinedNames es ⊆ names →
      R frame names s (LispSession.evalArgs cx enterCall es frame s).state
  | [], frame, names, s, _ => hR.refl frame names s
  | e :: es, frame, names, s, hnames => by
    obtain ⟨hfirst, hrest⟩ := List.append_subset.mp hnames
    have h₁ := evalExpr_of_enters hR hcx henter e frame s hfirst
    -- An error of the first argument ends the evaluation; after a value the others follow.
    simp only [LispSession.evalArgs]
    cases ho₁ : LispSession.evalExpr cx enterCall e frame s with
    | error e s₁ => rwa [ho₁] at h₁
    | value arg s₁ =>
      rw [ho₁] at h₁
      have h₂ := evalArgs_of_enters hR hcx henter es frame s₁ hrest
      simp only
      cases ho₂ : LispSession.evalArgs cx enterCall es frame s₁ with
      | error e s₂ => rw [ho₂] at h₂; exact hR.trans h₁ h₂
      | value args s₂ => rw [ho₂] at h₂; exact hR.trans h₁ h₂

/-- So does the evaluation of a body. -/
private theorem evalBody_of_enters (hR : R.Closed cx.policy) (hcx : cx.registry = Standard.registry)
    (henter : Enters R enterCall) :
    ∀ (es : List Expr) (frame : FrameId) {names : List Symbol} (s : State),
      Expr.allDefinedNames es ⊆ names →
      R frame names s (LispSession.evalBody cx enterCall es frame s).state
  | [], frame, names, s, _ => hR.refl frame names s
  | [e], frame, names, s, hnames => by
    simp only [LispSession.evalBody]
    exact evalExpr_of_enters hR hcx henter e frame s (List.append_subset.mp hnames).1
  | e :: e' :: es, frame, names, s, hnames => by
    obtain ⟨hfirst, hrest⟩ := List.append_subset.mp hnames
    have h₁ := evalExpr_of_enters hR hcx henter e frame s hfirst
    simp only [LispSession.evalBody]
    cases ho₁ : LispSession.evalExpr cx enterCall e frame s with
    | error e s₁ => rwa [ho₁] at h₁
    | value v s₁ =>
      rw [ho₁] at h₁
      exact hR.trans h₁ (evalBody_of_enters hR hcx henter (e' :: es) frame s₁ hrest)

end

variable (hR : R.Closed cx.policy) (hcx : cx.registry = Standard.registry)

include hR hcx

/-- However many calls are allowed, a call keeps the relation. -/
theorem enterAt (more : Nat) : Enters R (LispSession.enterAt cx more) := by
  induction more with
  | zero => exact fun _ _ _ s frame names => hR.refl frame names s
  | succ more ih =>
    intro fn home args s frame names
    simp only [LispSession.enterAt, Outcome.state_mapEnv]
    -- The frame of the call may get bindings for all names that the body defines.
    exact hR.call fn home args
      (evalBody_of_enters hR hcx ih fn.body _ _ (List.Subset.refl _)) frame names

/-- An evaluation keeps the relation, whatever its outcome and however many calls are
    allowed. -/
theorem evalExpr (more : Nat) (e : Expr) (frame : FrameId) (s : State) :
    R frame e.definedNames s
      (LispSession.evalExpr cx (LispSession.enterAt cx more) e frame s).state :=
  evalExpr_of_enters hR hcx (hR.enterAt hcx more) e frame s (List.Subset.refl _)

end Effect.Closed

end LispSession
