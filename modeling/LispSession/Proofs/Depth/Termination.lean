import LispSession.Proofs.Depth.Recursion
import LispSession.Proofs.Frames.InFlight

/-!
# Every evaluation ends

The evaluator with a budget finds, for each expression and each well-formed environment, a
budget that suffices, and then has the answer of the evaluator. The induction is on the
calls that are still allowed and, within one call, on the expression. That no walk outward
goes on for ever is the invariant of the machine, which holds wherever the evaluation is.

* `settles_evalExpr`  within one call, given that further calls settle
* `settles_enterAt`   further calls settle, by recursion on how many are allowed
* `settles_evaluate`  a statement settles
-/

namespace LispSession

/-! ### Answers that a budget suffices for -/

/-- Some budget suffices for the answer, and every greater one gives the same. -/
def Settles {α : Type} (f : Nat → Option α) (a : α) : Prop :=
  ∃ budget, ∀ n, budget ≤ n → f n = some a

namespace Settles

variable {α β : Type}

/-- An answer that needs no budget settles. -/
theorem const (a : α) : Settles (fun _ => some a) a := ⟨0, fun _ _ => rfl⟩

/-- One more unit does no harm. -/
private theorem succ {f : Nat → Option α} {a : α} (h : Settles (fun n => f (n + 1)) a) :
    Settles f a := by
  obtain ⟨budget, h⟩ := h
  refine ⟨budget + 1, fun n hn => ?_⟩
  obtain ⟨n, rfl⟩ : ∃ k, n = k + 1 := ⟨n - 1, by omega⟩
  exact h n (by omega)

/-- What is made of an answer settles when the answer does. -/
theorem map {f : Nat → Option α} {a : α} (h : Settles f a) (g : α → β) :
    Settles (fun n => (f n).map g) (g a) := by
  obtain ⟨budget, h⟩ := h
  exact ⟨budget, fun n hn => by simp only [h n hn, Option.map_some]⟩

/-- What settles goes on to settle: with the answer if it is a value, and otherwise with
    the error. -/
private theorem andThen {f : Nat → Counted α} {o : Outcome α} {depth : Nat}
    {g : Nat → α → Nat → State → Counted β} {r : Outcome β × Nat} (h : Settles f (o, depth))
    (hvalue : ∀ a s, o = .value a s → Settles (fun n => g n a depth s) r)
    (herror : ∀ e s, o = .error e s → r = (.error e s, depth)) :
    Settles (fun n => (f n).andThen (g n)) r := by
  obtain ⟨budget, h⟩ := h
  -- The greater of two budgets is enough for both parts.
  cases o with
  | error e s =>
    refine ⟨budget, fun n hn => ?_⟩
    simp only [h n hn, herror e s rfl, Counted.andThen_error]
  | value a s =>
    obtain ⟨budget', h'⟩ := hvalue a s rfl
    refine ⟨max budget budget', fun n hn => ?_⟩
    simp only [h n (by omega), Counted.andThen_value]
    exact h' n (by omega)

end Settles

/-! ### Walks outward -/

namespace Environment.WellFormed

variable {env : Environment} (h : env.WellFormed)

include h

/-- The search for a name settles, with one unit for each frame outward. -/
private theorem settles_binder (frame : FrameId) (name : Symbol) :
    Settles (fun n => env.binderWithin name n frame) (env.binder? frame name) :=
  ⟨frame.index + 1, fun _ hn => binderWithin_eq h.parent_lt name (by omega)⟩

/-- Looking up a name settles. -/
private theorem settles_lookup (frame : FrameId) (name : Symbol) :
    Settles (fun n => env.lookupWithin n frame name) (env.lookup? frame name) := by
  exact (h.settles_binder frame name).map fun found => found.bind (env.local? · name)

/-- An assignment settles. -/
private theorem settles_assign (frame : FrameId) (name : Symbol) (value : Value) :
    Settles (fun n => env.assignWithin n frame name value) (env.assign? frame name value) := by
  exact (h.settles_binder frame name).map fun found =>
    found.map fun found => env.define found name value

end Environment.WellFormed

/-! ### Within one call -/

open Machine

variable {cx : Context} {more depth : Nat} {frame : FrameId} {tasks : List Task} {s : State}

/-- Where `more` calls are still allowed, entering a call settles, and the counter of calls is
    afterwards what it was before. -/
def EntriesSettle (cx : Context) (more : Nat) : Prop :=
  ∀ (fn : Lambda) (home : FrameId) (args : List Value) (tasks : List Task) (s : State) (depth : Nat),
    (callsOf tasks).length = depth → depth + more = cx.maxDepth →
    (enter cx fn home args tasks s).WellFormed →
      Settles (fun n => enterWith cx (evalWithin cx n) fn home args depth s)
        (enterAt cx more fn home args s, depth)

/-- The function to apply settles. -/
private theorem settles_evalOperator (henv : s.env.WellFormed) (operator : Operator)
    (frame : FrameId) (depth : Nat) :
    Settles (fun n => operatorWithin n operator frame depth s)
      (evalOperator operator frame s, depth) := by
  cases operator with
  | «variable» name => exact (henv.settles_lookup frame name).map _
  | lambda fn => exact .const _

/-- A call settles. -/
private theorem settles_call (hentries : EntriesSettle cx more) (callee : Value) (name : String)
    (args : List Value) (frame : FrameId) (hdepth : (callsOf tasks).length = depth)
    (hmore : depth + more = cx.maxDepth)
    (hm : (startCall cx callee name args frame tasks s).WellFormed) :
    Settles (fun n => callWith cx (evalWithin cx n) name callee args frame depth s)
      (call cx (enterAt cx more) name callee args frame s, depth) := by
  -- Only a closure that takes the arguments is entered.
  cases callee with
  | closure fn home =>
    simp only [startCall] at hm
    simp only [callWith, call]
    split at hm
    · rename_i harity
      simp only [if_pos harity]
      exact hentries fn home args tasks s depth hdepth hmore hm
    · rename_i harity
      simp only [if_neg harity]
      exact .const _
  | _ => exact .const _

section

variable (hcx : cx.registry = Standard.registry)

include hcx

/-- The invariant holds again where an expression has its value. -/
private theorem wellFormed_evaluated {e : Expr} {v : Value} {s₁ : State}
    (hmore : (callsOf tasks).length + more = cx.maxDepth)
    (hm : Machine.WellFormed ⟨.eval e frame, tasks, s⟩)
    (hvalue : evalExpr cx (enterAt cx more) e frame s = .value v s₁) :
    Machine.WellFormed ⟨.value v, tasks, s₁⟩ := by
  have hrun := reaches_evalExpr (runs_enterAt cx more) e frame tasks s hmore
  rw [hvalue] at hrun
  exact hrun.preserves (fun _ _ => wellFormed_step hcx) hm

/-- It holds where a task goes on with the value. -/
private theorem wellFormed_resumed {e : Expr} {task : Task} {v : Value} {s₁ : State}
    (hmore : (callsOf (task :: tasks)).length + more = cx.maxDepth)
    (hm : Machine.WellFormed ⟨.eval e frame, task :: tasks, s⟩)
    (hvalue : evalExpr cx (enterAt cx more) e frame s = .value v s₁) :
    (resume cx v tasks s₁ task).WellFormed :=
  wellFormed_step hcx (wellFormed_evaluated hcx hmore hm hvalue) rfl

mutual

/-- An expression settles. -/
theorem settles_evalExpr (hentries : EntriesSettle cx more) :
    ∀ (e : Expr) (frame : FrameId) (tasks : List Task) (s : State) (depth : Nat),
      (callsOf tasks).length = depth → depth + more = cx.maxDepth →
      Machine.WellFormed ⟨.eval e frame, tasks, s⟩ →
        Settles (fun n => evalWithin cx n ⟨e, frame, depth, s⟩)
          (evalExpr cx (enterAt cx more) e frame s, depth)
  | .number _, _, _, _, _, _, _, _ => Settles.succ (.const _)
  | .string _, _, _, _, _, _, _, _ => Settles.succ (.const _)
  | .boolean _, _, _, _, _, _, _, _ => Settles.succ (.const _)
  | .quoted _, _, _, _, _, _, _, _ => Settles.succ (.const _)
  | .data _, _, _, _, _, _, _, _ => Settles.succ (.const _)
  | .lambda _, _, _, _, _, _, _, _ => Settles.succ (.const _)
  | .variable name, frame, tasks, s, depth, hdepth, hmore, hm => by
    simp only [evalExpr]
    exact Settles.succ ((hm.env.settles_lookup frame name).map _)
  | .cons car cdr, frame, tasks, s, depth, hdepth, hmore, hm => by
    have hcar := wellFormed_step hcx hm rfl
    -- Each part settles before the task that waits for it; an error is the answer already.
    refine Settles.succ ((settles_evalExpr hentries car frame (.consCdr cdr frame :: tasks) s depth
      hdepth hmore hcar).andThen (fun first s₁ h₁ => ?_) (fun e s₁ h₁ => ?_))
    · have hcdr := wellFormed_resumed hcx (hdepth ▸ hmore) hcar h₁
      refine (settles_evalExpr hentries cdr frame (.consPair first :: tasks) s₁ depth
        hdepth hmore hcdr).andThen (fun second s₂ h₂ => ?_) (fun e s₂ h₂ => ?_)
      · simp only [evalExpr, h₁, h₂]
        exact .const _
      · simp only [evalExpr, h₁, h₂]
    · simp only [evalExpr, h₁]
  | .define name value, frame, tasks, s, depth, hdepth, hmore, hm => by
    have hvalue := wellFormed_step hcx hm rfl
    refine Settles.succ ((settles_evalExpr hentries value frame (.define name frame :: tasks) s
      depth hdepth hmore hvalue).andThen (fun v s₁ h₁ => ?_) (fun e s₁ h₁ => ?_))
    · simp only [evalExpr, h₁]
      exact .const _
    · simp only [evalExpr, h₁]
  | .branch condition consequent alternative, frame, tasks, s, depth, hdepth, hmore, hm => by
    have hcondition := wellFormed_step hcx hm rfl
    refine Settles.succ ((settles_evalExpr hentries condition frame
      (.branch consequent alternative frame :: tasks) s depth hdepth hmore hcondition).andThen
      (fun test s₁ h₁ => ?_) (fun e s₁ h₁ => ?_))
    · have hbranch := wellFormed_resumed hcx (hdepth ▸ hmore) hcondition h₁
      simp only [evalExpr, h₁, resume] at hbranch ⊢
      split
      · rename_i htest
        rw [if_pos htest] at hbranch
        exact settles_evalExpr hentries consequent frame tasks s₁ depth hdepth hmore hbranch
      · rename_i htest
        rw [if_neg htest] at hbranch
        exact settles_evalExpr hentries alternative frame tasks s₁ depth hdepth hmore hbranch
    · simp only [evalExpr, h₁]
  | .sequence body, frame, tasks, s, depth, hdepth, hmore, hm => by
    have hbody : (startBody frame tasks s body).WellFormed := wellFormed_step hcx hm rfl
    simp only [evalExpr]
    exact Settles.succ (settles_evalBody hentries body frame tasks s depth .null hdepth hmore hbody
      fun _ => rfl)
  | .assign name value, frame, tasks, s, depth, hdepth, hmore, hm => by
    have hvalue := wellFormed_step hcx hm rfl
    refine Settles.succ ((settles_evalExpr hentries value frame (.assign name frame :: tasks) s
      depth hdepth hmore hvalue).andThen (fun v s₁ h₁ => ?_) (fun e s₁ h₁ => ?_))
    · have henv := (wellFormed_evaluated hcx (hdepth ▸ hmore) hvalue h₁).env
      simp only [evalExpr, h₁, assignName]
      exact (henv.settles_assign frame name v).map _
    · simp only [evalExpr, h₁]
  | .apply operator arguments, frame, tasks, s, depth, hdepth, hmore, hm => by
    have hstart : (start cx frame tasks s (.apply operator arguments)).WellFormed :=
      wellFormed_step hcx hm rfl
    refine Settles.succ ((settles_evalOperator hm.env operator frame depth).andThen
      (fun found s₁ h₁ => ?_) (fun e s₁ h₁ => ?_))
    · obtain ⟨callee, name⟩ := found
      simp only [start, h₁] at hstart
      simp only [evalExpr, h₁]
      exact settles_evalArgs hentries arguments callee name [] frame tasks s₁ depth hdepth hmore
        hstart
    · simp only [evalExpr, h₁]

/-- Arguments settle, and then the call. The arguments that are evaluated already come
    first. -/
private theorem settles_evalArgs (hentries : EntriesSettle cx more) :
    ∀ (es : List Expr) (callee : Value) (name : String) (taken : List Value) (frame : FrameId)
      (tasks : List Task) (s : State) (depth : Nat),
      (callsOf tasks).length = depth → depth + more = cx.maxDepth →
      (startArgs cx callee name taken frame tasks s es).WellFormed →
        Settles
          (fun n => (argsWith (evalWithin cx n) frame es depth s).andThen fun args depth s =>
            callWith cx (evalWithin cx n) name callee (taken ++ args) frame depth s)
          (match evalArgs cx (enterAt cx more) es frame s with
            | .error e s => .error e s
            | .value args s => call cx (enterAt cx more) name callee (taken ++ args) frame s,
          depth)
  | [], callee, name, taken, frame, tasks, s, depth, hdepth, hmore, hm => by
    simp only [argsWith, evalArgs, Counted.andThen_value, List.append_nil]
    exact settles_call hentries callee name taken frame hdepth hmore hm
  | e :: es, callee, name, taken, frame, tasks, s, depth, hdepth, hmore, hm => by
    simp only [argsWith, Counted.andThen_assoc, Counted.andThen_value]
    refine (settles_evalExpr hentries e frame (.argument callee name taken es frame :: tasks) s
      depth hdepth hmore hm).andThen (fun v s₁ h₁ => ?_) (fun e s₁ h₁ => ?_)
    -- The value joins the arguments taken, and the others go on from there.
    · have hrest := settles_evalArgs hentries es callee name (taken ++ [v]) frame tasks s₁ depth
        hdepth hmore (wellFormed_resumed hcx (hdepth ▸ hmore) hm h₁)
      simp only [List.append_assoc, List.singleton_append] at hrest
      simp only [evalArgs, h₁]
      cases h₂ : evalArgs cx (enterAt cx more) es frame s₁ with
      | value args s₂ => simpa only [h₂] using hrest
      | error e s₂ => simpa only [h₂] using hrest
    · simp only [evalArgs, h₁]

/-- A body settles. -/
private theorem settles_evalBody (hentries : EntriesSettle cx more) :
    ∀ (es : List Expr) (frame : FrameId) (tasks : List Task) (s : State) (depth : Nat)
      (last : Value), (callsOf tasks).length = depth → depth + more = cx.maxDepth →
      (startBody frame tasks s es).WellFormed → (es = [] → last = .null) →
        Settles (fun n => bodyWith (evalWithin cx n) frame es last depth s)
          (evalBody cx (enterAt cx more) es frame s, depth)
  -- Along the body, with the value of the expression before.
  | [], _, _, _, _, _, _, _, _, hlast => by
    obtain rfl := hlast rfl
    exact .const _
  | [e], frame, tasks, s, depth, _, hdepth, hmore, hm, _ => by
    simp only [evalBody]
    refine (settles_evalExpr hentries e frame tasks s depth hdepth hmore hm).andThen
      (fun v s₁ h₁ => ?_) (fun e s₁ h₁ => ?_)
    · rw [h₁]
      exact .const _
    · rw [h₁]
  | e :: e' :: es, frame, tasks, s, depth, _, hdepth, hmore, hm, _ => by
    refine (settles_evalExpr hentries e frame (.body (e' :: es) frame :: tasks) s depth
      hdepth hmore hm).andThen (fun v s₁ h₁ => ?_) (fun e s₁ h₁ => ?_)
    · simp only [evalBody, h₁]
      exact settles_evalBody hentries (e' :: es) frame tasks s₁ depth v hdepth hmore
        (wellFormed_resumed hcx (hdepth ▸ hmore) hm h₁) nofun
    · simp only [evalBody, h₁]

end

/-! ### Further calls -/

/-- However many calls are allowed, entering a call settles. -/
theorem settles_enterAt (more : Nat) : EntriesSettle cx more := by
  induction more with
  | zero =>
    intro fn home args tasks s depth hdepth hmore hm
    have hfull : cx.maxDepth ≤ depth := by omega
    simp only [enterWith, if_pos hfull, enterAt]
    exact .const _
  | succ more ih =>
    intro fn home args tasks s depth hdepth hmore hm
    have hroom : (callsOf tasks).length < cx.maxDepth := by omega
    have hnotFull : ¬ cx.maxDepth ≤ depth := by omega
    simp only [enter, if_pos hroom] at hm
    simp only [enterWith, if_neg hnotFull, enterAt]
    -- The call uses one of those allowed, and the counter is lowered at its end.
    have hbody := settles_evalBody hcx ih fn.body _ (.leave _ :: tasks) _ (depth + 1) .null
      (by simpa [callsOf, Task.call?] using hdepth) (by omega) hm fun _ => rfl
    exact hbody.map fun answer =>
      (answer.1.mapEnv (cx.policy.leave (s.env.extend home).1), answer.2 - 1)

/-- A statement settles, with no call in progress before or after it. -/
theorem settles_evaluate (henv : s.env.WellFormed) (hframe : frame.index < s.env.frames.size)
    (e : Expr) :
    Settles (fun n => evalWithin cx n ⟨e, frame, 0, s⟩) (evaluate cx e frame s, 0) :=
  settles_evalExpr hcx (settles_enterAt hcx cx.maxDepth) e frame [] s 0 rfl (Nat.zero_add _)
    (wellFormed_eval henv hframe trivial)

end

end LispSession
