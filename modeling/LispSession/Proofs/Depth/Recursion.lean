import LispSession.Eval.Evaluate

/-!
# The recursion of the evaluator

Evaluation with a counter of the calls in progress that is raised and lowered as it goes,
and with a budget: each level of the recursion, and each frame that a walk outward reads,
takes one unit of it, so that the definition does not rely on any bound on calls or on the
order of frames. `evalWith` is one level; what it asks for at the next level are parts of
the same expression, or expressions of the body of a function, one call deeper.

* `wellFounded_invokes`   the levels cannot go on for ever
* `evalWith_refines`      an answer depends only on the answers at the next level
* `evalWithin_refines`    a greater budget gives the same answer, and the counter is at the
  end what it was at the start
* `binderWithin_eq`       the walk outward ends, where parents are older than their frames
-/

namespace LispSession

/-! ### Walks that pay for each frame -/

namespace Environment

/-- The innermost frame that binds a name, walking outward over at most so many frames;
    nothing if they do not suffice. Every parent is followed. -/
def binderWithin (env : Environment) (name : Symbol) : Nat → FrameId → Option (Option FrameId)
  | 0, _ => none
  | budget + 1, place =>
    match env.frames[place.index]? with
    | none => some none
    | some frame =>
      if frame.binds name then some (some place)
      else
        match frame.parent with
        | none => some none
        | some parent => env.binderWithin name budget parent

/-- The value of a name, as seen from a frame, within a budget. -/
def lookupWithin (env : Environment) (budget : Nat) (frame : FrameId) (name : Symbol) :
    Option (Option Value) :=
  (env.binderWithin name budget frame).map fun found => found.bind (env.local? · name)

/-- Change the value of a name where it is bound, within a budget. -/
def assignWithin (env : Environment) (budget : Nat) (frame : FrameId) (name : Symbol)
    (value : Value) : Option (Option Environment) :=
  (env.binderWithin name budget frame).map fun found =>
    found.map fun found => env.define found name value

/-- A walk that ends within a budget ends alike within a greater one. -/
private theorem binderWithin_mono {env : Environment} {name : Symbol} {budget budget' : Nat}
    {frame : FrameId} {found : Option FrameId} (hle : budget ≤ budget')
    (h : env.binderWithin name budget frame = some found) :
    env.binderWithin name budget' frame = some found := by
  -- Induction on the smaller budget: each step outward takes one off both budgets.
  induction budget generalizing budget' frame with
  | zero => cases h
  | succ budget ih =>
    obtain ⟨budget', rfl⟩ : ∃ n, budget' = n + 1 := ⟨budget' - 1, by omega⟩
    simp only [binderWithin] at h ⊢
    cases hframe : env.frames[frame.index]? with
    | none => simpa [hframe] using h
    | some holder =>
      simp only [hframe] at h ⊢
      split
      · rename_i hbinds
        rwa [if_pos hbinds] at h
      · rename_i hbinds
        rw [if_neg hbinds] at h
        cases hparent : holder.parent with
        | none => simpa [hparent] using h
        | some parent =>
          simp only [hparent] at h
          exact ih (by omega) h

/-- In an environment where parents are older than their frames, the walk outward ends
    within as many frames as there are up to the first. -/
theorem binderWithin_eq {env : Environment}
    (holder : ∀ {i : Nat} {frame : Frame} {parent : FrameId},
      env.frames[i]? = some frame → frame.parent = some parent → parent.index < i)
    (name : Symbol) {budget : Nat} {frame : FrameId} (hlt : frame.index < budget) :
    env.binderWithin name budget frame = some (env.binder? frame name) := by
  -- Induction on the budget: the index of the frame falls with every step outward.
  induction budget generalizing frame with
  | zero => omega
  | succ budget ih =>
    rw [binder?, binderFrom?, binderWithin]
    cases hframe : env.frames[frame.index]? with
    | none => rfl
    | some found =>
      simp only
      split
      · rfl
      · cases hparent : found.parent with
        | none => rfl
        | some parent =>
          have hparentLt := holder hframe hparent
          simp only [if_pos hparentLt]
          exact ih (by omega)

end Environment

/-! ### Answers with a counter -/

/-- How an evaluation ends, with the counter of calls then; nothing if the budget has run
    out. -/
abbrev Counted (α : Type) := Option (Outcome α × Nat)

namespace Counted

variable {α β γ : Type}

/-- Go on with the value of an evaluation, if it has one. -/
def andThen (r : Counted α) (f : α → Nat → State → Counted β) : Counted β :=
  match r with
  | none => none
  | some (.error e s, depth) => some (.error e s, depth)
  | some (.value a s, depth) => f a depth s

/-- A value is handed on, with the depth and the state it came with. -/
@[simp] theorem andThen_value (a : α) (s : State) (depth : Nat) (f : α → Nat → State → Counted β) :
    andThen (some (.value a s, depth)) f = f a depth s := rfl

/-- An error is passed on, and what follows is not run. -/
@[simp] theorem andThen_error (e : EvalError) (s : State) (depth : Nat)
    (f : α → Nat → State → Counted β) :
    andThen (some (.error e s, depth)) f = some (.error e s, depth) := rfl

/-- Counted answers are chained associatively, as a bind is. -/
theorem andThen_assoc (r : Counted α) (f : α → Nat → State → Counted β)
    (g : β → Nat → State → Counted γ) :
    (r.andThen f).andThen g = r.andThen fun a depth s => (f a depth s).andThen g := by
  match r with
  | none => rfl
  | some (.error _ _, _) => rfl
  | some (.value _ _, _) => rfl

/-- The answer, if there is one, is also the other answer, and leaves the counter at the
    given depth. -/
def Refines (depth : Nat) (r r' : Counted α) : Prop :=
  ∀ o d, r = some (o, d) → d = depth ∧ r' = some (o, d)

/-- An answer that is given refines itself, once it leaves the depth where it was. -/
private theorem Refines.answer (o : Outcome α) (depth : Nat) :
    Refines depth (some (o, depth)) (some (o, depth)) := by
  rintro _ _ ⟨⟩
  exact ⟨rfl, rfl⟩

/-- Refinement carries through a chain, if every continuation is refined where the value may go. -/
private theorem Refines.andThen {depth : Nat} {r r' : Counted α}
    {f f' : α → Nat → State → Counted β}
    (h : Refines depth r r') (hf : ∀ a s, Refines depth (f a depth s) (f' a depth s)) :
    Refines depth (r.andThen f) (r'.andThen f') := by
  intro o d hanswer
  match hr : r with
  | none => cases hanswer
  | some (.error e s, _) =>
    obtain ⟨rfl, rfl⟩ := h _ _ rfl
    exact Refines.answer (.error e s) _ o d hanswer
  | some (.value a s, _) =>
    obtain ⟨rfl, rfl⟩ := h _ _ rfl
    exact hf a s o d hanswer

end Counted

/-! ### One level of the recursion -/

/-- A request to evaluate an expression in a frame, with the counter of calls in progress. -/
structure Job where
  expr : Expr
  frame : FrameId
  depth : Nat
  state : State

/-- A way to answer requests. -/
abbrev Answers := Job → Counted Value

/-- The value of the last of some expressions, all evaluated in order. -/
def bodyWith (eval : Answers) (frame : FrameId) : List Expr → Value → Nat → State → Counted Value
  | [], last, depth, s => some (.value last s, depth)
  | e :: es, _, depth, s =>
    (eval ⟨e, frame, depth, s⟩).andThen fun v depth s => bodyWith eval frame es v depth s

/-- The values of arguments, from left to right. -/
def argsWith (eval : Answers) (frame : FrameId) : List Expr → Nat → State → Counted (List Value)
  | [], depth, s => some (.value [] s, depth)
  | e :: es, depth, s =>
    (eval ⟨e, frame, depth, s⟩).andThen fun arg depth s =>
      (argsWith eval frame es depth s).andThen fun args depth s =>
        some (.value (arg :: args) s, depth)

/-- Run the body of a function in a new frame, unless the counter is at the limit. The
    counter is raised before and lowered afterwards, whatever the outcome. -/
def enterWith (cx : Context) (eval : Answers) (fn : Lambda) (home : FrameId) (args : List Value)
    (depth : Nat) (s : State) : Counted Value :=
  if cx.maxDepth ≤ depth then some (.error (.stackExhausted cx.maxDepth) s, depth)
  else
    let (frame, env) := s.env.extend home
    let env := env.defineAll frame fn.params args
    (bodyWith eval frame fn.body .null (depth + 1) { s with env := env }).map fun (o, depth) =>
      (o.mapEnv (cx.policy.leave frame), depth - 1)

/-- Call a value with arguments. -/
def callWith (cx : Context) (eval : Answers) (name : String) (callee : Value) (args : List Value)
    (frame : FrameId) (depth : Nat) (s : State) : Counted Value :=
  match callee with
  | .native native => some (cx.registry.invoke native args frame s, depth)
  | .closure fn home =>
    if fn.arity = args.length then enterWith cx eval fn home args depth s
    else some (.error (.arity name (.oneOf [fn.arity]) args.length) s, depth)
  | other => some (.error (.notCallable (s.render other)) s, depth)

/-- The function to apply, and the name by which errors call it. -/
def operatorWithin (walks : Nat) (operator : Operator) (frame : FrameId) (depth : Nat)
    (s : State) : Counted (Value × String) :=
  match operator with
  | .variable name =>
    (s.env.lookupWithin walks frame name).map fun found =>
      (match found with
        | some callee => .value (callee, s.nameOf name) s
        | none => .error (.unbound (s.nameOf name)) s,
      depth)
  | .lambda fn =>
    let (callee, s) := closureIn fn frame s
    some (.value (callee, "lambda") s, depth)

/-- The value of an expression, where requests for its parts and for the bodies of functions
    are answered by `eval`, and walks outward may read so many frames. -/
def evalWith (cx : Context) (walks : Nat) (eval : Answers) : Job → Counted Value
  | ⟨.number x, _, depth, s⟩ => some (.value (.number x) s, depth)
  | ⟨.string text, _, depth, s⟩ => some (.value (.string text) s, depth)
  | ⟨.boolean b, _, depth, s⟩ => some (.value (.boolean b) s, depth)
  | ⟨.variable name, frame, depth, s⟩ =>
    (s.env.lookupWithin walks frame name).map fun found =>
      (match found with
        | some value => .value value s
        | none => .error (.unbound (s.nameOf name)) s,
      depth)
  | ⟨.quoted name, _, depth, s⟩ => some (.value (.symbol name) s, depth)
  | ⟨.data items, _, depth, s⟩ => some (.value (Literal.listValue items) s, depth)
  | ⟨.cons car cdr, frame, depth, s⟩ =>
    (eval ⟨car, frame, depth, s⟩).andThen fun first depth s =>
      (eval ⟨cdr, frame, depth, s⟩).andThen fun second depth s =>
        some (.value (.pair first second) s, depth)
  | ⟨.define name value, frame, depth, s⟩ =>
    (eval ⟨value, frame, depth, s⟩).andThen fun v depth s =>
      some (bindName name v frame s, depth)
  | ⟨.lambda fn, frame, depth, s⟩ =>
    let (closure, s) := closureIn fn frame s
    some (.value closure s, depth)
  | ⟨.branch condition consequent alternative, frame, depth, s⟩ =>
    (eval ⟨condition, frame, depth, s⟩).andThen fun test depth s =>
      if test.isTruthy then eval ⟨consequent, frame, depth, s⟩
      else eval ⟨alternative, frame, depth, s⟩
  | ⟨.sequence body, frame, depth, s⟩ => bodyWith eval frame body .null depth s
  | ⟨.assign name value, frame, depth, s⟩ =>
    (eval ⟨value, frame, depth, s⟩).andThen fun v depth s =>
      (s.env.assignWithin walks frame name v).map fun found =>
        (match found with
          | some env => .value v { s with env := env }
          | none => .error (.unbound (s.nameOf name)) s,
        depth)
  | ⟨.apply operator arguments, frame, depth, s⟩ =>
    (operatorWithin walks operator frame depth s).andThen fun (callee, name) depth s =>
      (argsWith eval frame arguments depth s).andThen fun args depth s =>
        callWith cx eval name callee args frame depth s

/-- The value of an expression within a budget. -/
def evalWithin (cx : Context) : Nat → Answers
  | 0, _ => none
  | budget + 1, job => evalWith cx budget (evalWithin cx budget) job

/-! ### The next level -/

/-- The expressions of which an expression is made in the same frame. -/
def Expr.parts : Expr → List Expr
  | .cons car cdr => [car, cdr]
  | .define _ value => [value]
  | .branch condition consequent alternative => [condition, consequent, alternative]
  | .sequence body => body
  | .assign _ value => [value]
  | .apply _ arguments => arguments
  | .variable _ | .number _ | .string _ | .boolean _ | .quoted _ | .data _ | .lambda _ => []

/-- To answer the second request, the evaluator may make the first one: for a part of the
    expression, with the same calls in progress, or, if the expression is a call and the
    limit allows one more, for an expression of the body of some function. -/
inductive Invokes (limit : Nat) : Job → Job → Prop where
  | part {e e' : Expr} {frame : FrameId} {depth : Nat} {s s' : State} (h : e' ∈ e.parts) :
    Invokes limit ⟨e', frame, depth, s'⟩ ⟨e, frame, depth, s⟩
  | body {operator : Operator} {arguments : List Expr} {e : Expr} {frame frame' : FrameId}
    {depth : Nat} {s s' : State} (fn : Lambda) (h : e ∈ fn.body) (hroom : depth < limit) :
    Invokes limit ⟨e, frame', depth + 1, s'⟩ ⟨.apply operator arguments, frame, depth, s⟩

/-- A part of an expression is smaller than the expression, whatever list it stands in. -/
private theorem Expr.sizeOf_lt_of_mem_parts {e e' : Expr} (h : e' ∈ e.parts) :
    sizeOf e' < sizeOf e := by
  cases e with
  | cons car cdr =>
    simp only [parts, List.mem_cons, List.not_mem_nil, or_false] at h
    rcases h with rfl | rfl <;> simp only [cons.sizeOf_spec] <;> omega
  | define name value =>
    obtain rfl := List.mem_singleton.mp h
    simp only [define.sizeOf_spec]
    omega
  | branch condition consequent alternative =>
    simp only [parts, List.mem_cons, List.not_mem_nil, or_false] at h
    rcases h with rfl | rfl | rfl <;> simp only [branch.sizeOf_spec] <;> omega
  | sequence body =>
    have hlt : sizeOf e' < sizeOf body := List.sizeOf_lt_of_mem h
    simp only [sequence.sizeOf_spec]
    omega
  | assign name value =>
    obtain rfl := List.mem_singleton.mp h
    simp only [assign.sizeOf_spec]
    omega
  | apply operator arguments =>
    have hlt : sizeOf e' < sizeOf arguments := List.sizeOf_lt_of_mem h
    simp only [apply.sizeOf_spec]
    omega
  | _ => cases h

/-- Requests cannot lead to further ones for ever: either there is one call less to come, or
    as many and the expression is smaller. -/
theorem wellFounded_invokes (limit : Nat) : WellFounded (Invokes limit) := by
  refine Subrelation.wf (fun {job' job} h => ?_) (InvImage.wf
    (fun job : Job => (limit - job.depth, sizeOf job.expr))
    (Prod.lex Nat.lt_wfRel Nat.lt_wfRel).wf)
  cases h with
  | part h => exact Prod.Lex.right _ (Expr.sizeOf_lt_of_mem_parts h)
  | body fn h hroom => exact Prod.Lex.left _ _ (Nat.sub_lt_sub_left hroom (Nat.lt_succ_self _))

/-! ### Answers depend on the next level only -/

section

open Counted

variable {cx : Context} {eval eval' : Answers} {frame : FrameId} {depth walks walks' : Nat}

/-- A body is refined by the evaluators of its expressions: they are all run at one depth. -/
private theorem bodyWith_refines {es : List Expr}
    (h : ∀ e ∈ es, ∀ s, Refines depth (eval ⟨e, frame, depth, s⟩) (eval' ⟨e, frame, depth, s⟩))
    (last : Value) (s : State) :
    Refines depth (bodyWith eval frame es last depth s) (bodyWith eval' frame es last depth s) := by
  -- Induction on the expressions: each one hands the depth it was given to the next.
  induction es generalizing last s with
  | nil => exact .answer _ depth
  | cons e es ih =>
    refine (h e List.mem_cons_self s).andThen fun v s => ?_
    exact ih (fun e' he' => h e' (List.mem_cons_of_mem e he')) v s

/-- Arguments are refined as a body is, with their values collected. -/
private theorem argsWith_refines {es : List Expr}
    (h : ∀ e ∈ es, ∀ s, Refines depth (eval ⟨e, frame, depth, s⟩) (eval' ⟨e, frame, depth, s⟩))
    (s : State) :
    Refines depth (argsWith eval frame es depth s) (argsWith eval' frame es depth s) := by
  induction es generalizing s with
  | nil => exact .answer _ depth
  | cons e es ih =>
    refine (h e List.mem_cons_self s).andThen fun v s => ?_
    exact (ih (fun e' he' => h e' (List.mem_cons_of_mem e he')) s).andThen
      fun args s => .answer _ depth

/-- A call asks for the body of the function one call deeper, and comes back from there. -/
private theorem enterWith_refines
    (h : ∀ (fn : Lambda) (e : Expr), e ∈ fn.body → depth < cx.maxDepth → ∀ frame s,
      Refines (depth + 1) (eval ⟨e, frame, depth + 1, s⟩) (eval' ⟨e, frame, depth + 1, s⟩))
    (fn : Lambda) (home : FrameId) (args : List Value) (s : State) :
    Refines depth (enterWith cx eval fn home args depth s)
      (enterWith cx eval' fn home args depth s) := by
  unfold enterWith
  -- With no room left both answer with the exhausted stack; with room left both run the body one
  -- level deeper.
  split
  · exact .answer _ depth
  · rename_i hroom
    intro o d hanswer
    obtain ⟨⟨o', d'⟩, hbody, heq⟩ := Option.map_eq_some_iff.mp hanswer
    have hrefines := bodyWith_refines (fun e he => h fn e he (by omega) (s.env.extend home).1)
      .null { s with env := (s.env.extend home).2.defineAll (s.env.extend home).1 fn.params args }
    obtain ⟨rfl, hbody'⟩ := hrefines o' d' hbody
    cases heq
    exact ⟨Nat.add_sub_cancel .., Option.map_eq_some_iff.mpr ⟨_, hbody', rfl⟩⟩

/-- A call is refined by the evaluator of the callee's body. -/
private theorem callWith_refines
    (h : ∀ (fn : Lambda) (e : Expr), e ∈ fn.body → depth < cx.maxDepth → ∀ frame s,
      Refines (depth + 1) (eval ⟨e, frame, depth + 1, s⟩) (eval' ⟨e, frame, depth + 1, s⟩))
    (name : String) (callee : Value) (args : List Value) (frame : FrameId) (s : State) :
    Refines depth (callWith cx eval name callee args frame depth s)
      (callWith cx eval' name callee args frame depth s) := by
  cases callee with
  | closure fn home =>
    simp only [callWith]
    split
    · exact enterWith_refines h fn home args s
    · exact .answer _ depth
  | _ => exact .answer _ depth

/-- A walk that ends gives an answer at the depth at which it started. -/
private theorem refines_of_walk {α β : Type} {r r' : Option α}
    (hwalk : ∀ a, r = some a → r' = some a) (f : α → Outcome β) :
    Refines depth (r.map fun a => (f a, depth)) (r'.map fun a => (f a, depth)) := by
  intro o d hanswer
  obtain ⟨a, ha, heq⟩ := Option.map_eq_some_iff.mp hanswer
  cases heq
  exact ⟨rfl, Option.map_eq_some_iff.mpr ⟨a, hwalk a ha, rfl⟩⟩

/-- More walks never change a lookup that was answered. -/
private theorem lookupWithin_mono {env : Environment} (hle : walks ≤ walks') (frame : FrameId)
    (name : Symbol) (found : Option Value)
    (h : env.lookupWithin walks frame name = some found) :
    env.lookupWithin walks' frame name = some found := by
  obtain ⟨place, hplace, heq⟩ := Option.map_eq_some_iff.mp h
  exact Option.map_eq_some_iff.mpr ⟨place, Environment.binderWithin_mono hle hplace, heq⟩

/-- More walks never change an assignment that was answered. -/
private theorem assignWithin_mono {env : Environment} (hle : walks ≤ walks') (frame : FrameId)
    (name : Symbol) (value : Value) (found : Option Environment)
    (h : env.assignWithin walks frame name value = some found) :
    env.assignWithin walks' frame name value = some found := by
  obtain ⟨place, hplace, heq⟩ := Option.map_eq_some_iff.mp h
  exact Option.map_eq_some_iff.mpr ⟨place, Environment.binderWithin_mono hle hplace, heq⟩

/-- What is answered with the help of some answers at the next level is answered likewise
    with the help of others that agree with them, and leaves the counter where it was. -/
theorem evalWith_refines (hle : walks ≤ walks') (job : Job)
    (h : ∀ job', Invokes cx.maxDepth job' job → Refines job'.depth (eval job') (eval' job')) :
    Refines job.depth (evalWith cx walks eval job) (evalWith cx walks' eval' job) := by
  obtain ⟨e, frame, depth, s⟩ := job
  -- All parts of an expression are evaluated in its frame at its depth, each one an invocation.
  have hpart : ∀ e' ∈ e.parts, ∀ s',
      Refines depth (eval ⟨e', frame, depth, s'⟩) (eval' ⟨e', frame, depth, s'⟩) :=
    fun e' he' s' => h _ (.part he')
  cases e with
  | number | string | boolean | quoted | data | lambda => exact .answer _ depth
  | «variable» name =>
    exact refines_of_walk (lookupWithin_mono hle frame name) fun
      | some value => .value value s
      | none => .error (.unbound (s.nameOf name)) s
  | cons car cdr =>
    refine (hpart car (by simp [Expr.parts]) s).andThen fun first s => ?_
    exact (hpart cdr (by simp [Expr.parts]) s).andThen fun second s => .answer _ depth
  | define name value =>
    exact (hpart value (by simp [Expr.parts]) s).andThen fun v s => .answer _ depth
  | branch condition consequent alternative =>
    refine (hpart condition (by simp [Expr.parts]) s).andThen fun test s => ?_
    split
    · exact hpart consequent (by simp [Expr.parts]) s
    · exact hpart alternative (by simp [Expr.parts]) s
  | sequence body => exact bodyWith_refines hpart .null s
  | assign name value =>
    refine (hpart value (by simp [Expr.parts]) s).andThen fun v s => ?_
    exact refines_of_walk (assignWithin_mono hle frame name v) fun
      | some env => .value v { s with env := env }
      | none => .error (.unbound (s.nameOf name)) s
  | apply operator arguments =>
    -- The operator is a name or a lambda: only the name is walked for.
    have hoperator : Refines depth (operatorWithin walks operator frame depth s)
        (operatorWithin walks' operator frame depth s) := by
      cases operator with
      | «variable» name =>
        exact refines_of_walk (lookupWithin_mono hle frame name) fun
          | some callee => .value (callee, s.nameOf name) s
          | none => .error (.unbound (s.nameOf name)) s
      | lambda fn => exact .answer _ depth
    refine hoperator.andThen fun (callee, name) s => ?_
    refine (argsWith_refines hpart s).andThen fun args s => ?_
    exact callWith_refines (fun fn e he hroom frame' s' => h _ (.body fn he hroom))
      name callee args frame s

/-- A greater budget gives the same answer, and the counter is back where it was. -/
theorem evalWithin_refines {budget budget' : Nat} (hle : budget ≤ budget') (job : Job) :
    Refines job.depth (evalWithin cx budget job) (evalWithin cx budget' job) := by
  induction budget generalizing budget' job with
  | zero => exact fun _ _ h => nomatch h
  | succ budget ih =>
    obtain ⟨budget', rfl⟩ : ∃ n, budget' = n + 1 := ⟨budget' - 1, by omega⟩
    have hle' : budget ≤ budget' := by omega
    exact evalWith_refines hle' job fun job' _ => ih hle' job'

/-- An answer is made from the answers to the requests at the next level, and from nothing
    else. -/
theorem evalWith_congr {budget : Nat} {job : Job}
    (h : ∀ job', Invokes cx.maxDepth job' job → eval job' = evalWithin cx budget job') :
    evalWith cx budget eval job = evalWithin cx (budget + 1) job := by
  -- The budgeted evaluator refines itself, so that the two sides refine each other below.
  have hsame : ∀ job', Refines job'.depth (evalWithin cx budget job') (evalWithin cx budget job') :=
    fun job' => evalWithin_refines (Nat.le_refl budget) job'
  have hto : Refines job.depth (evalWith cx budget eval job) (evalWithin cx (budget + 1) job) :=
    evalWith_refines (Nat.le_refl budget) job fun job' hjob' => (h job' hjob').symm ▸ hsame job'
  have hfrom : Refines job.depth (evalWithin cx (budget + 1) job) (evalWith cx budget eval job) :=
    evalWith_refines (Nat.le_refl budget) job fun job' hjob' => (h job' hjob').symm ▸ hsame job'
  cases hanswer : evalWithin cx (budget + 1) job with
  | some answer => exact (hfrom answer.1 answer.2 hanswer).2
  | none =>
    cases hother : evalWith cx budget eval job with
    | none => rfl
    | some answer => exact nomatch hanswer.symm.trans (hto answer.1 answer.2 hother).2

end

end LispSession
