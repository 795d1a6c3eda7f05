import LispSession.Proofs.Frames.Accounting
import LispSession.Proofs.Grammar.Accepts
import LispSession.Proofs.Machine.Code
import LispSession.Proofs.Machine.Moments
import LispSession.Proofs.Sessions.Alike

/-!
# Where closures come from

Whatever closure is met in a session, bound or in flight, was made at an earlier moment of it:
its function was evaluated in the frame that the closure refers to, and this frame has been
there ever since. The function was a part of a statement, so its parameters differ and it has
a body.

* `Moment.wellFormed_step`     the frames are well formed at every moment
* `Moment.lt_size_of_created`  the frame of a closure is there from when it is made
* `Moment.functions_step`      functions are handed on from moment to moment
* `Moment.coded_step`          all that is evaluated is well formed
* `Moment.made_of_run`         every closure of a session was made in it
-/

namespace LispSession

/-- What is read from a text is well formed. -/
private theorem Interpreter.wellFormed_of_read {interpreter : Interpreter} {env : Environment}
    {text : String} {program : List Expr} (h : interpreter.read env text = .ok program) :
    ∀ e ∈ program, e.WellFormed := by
  -- The grammar that a program is read by admits only well-formed expressions.
  have hread : readTokens (interpreter.registry.install env).symbols (significantTokens text)
      (endToken text) = ⟨.ok program, (interpreter.prepare env text).symbols⟩ := by
    unfold Interpreter.read at h
    rw [← h]
    rfl
  obtain ⟨htable, hprogram⟩ := (readTokens_eq_ok_iff (kind_endToken text)).mp hread
  have hagrees := agrees_symbolOf (interpreter.prepare env text).symbols
  rw [htable] at hagrees hprogram
  exact (hprogram.wellFormed (Grammar.faithful_of_agrees hagrees)).forall_mem

namespace Moment

variable {config : Config} {p q : Moment}

/-! ### Frames -/

/-- The frames are well formed, and those that are used are there. -/
def WellFormed : Moment → Prop
  | idle env => env.WellFormed
  | busy m _ => m.WellFormed

/-- The environment of a well-formed moment is well-formed. -/
theorem WellFormed.env (h : p.WellFormed) : p.env.WellFormed := by
  cases p with
  | idle env => exact h
  | busy m rest => exact Machine.WellFormed.env h

/-- The next statement begins in the global frame. -/
private theorem wellFormed_next {s : State} (h : s.env.WellFormed) (es : List Expr) :
    (next es s).WellFormed := by
  cases es with
  | nil => exact h
  | cons e es => exact Machine.wellFormed_eval h h.size_pos trivial

/-- A step of a session keeps its moments well-formed. -/
theorem wellFormed_step (h : Step (Interpreter.ofConfig config) p q) (hp : p.WellFormed) :
    q.WellFormed := by
  -- A refused text leaves an idle moment, a step of the machine keeps it well-formed, and the other
  -- steps go to the next statement or end the text.
  cases h with
  | refused h => exact Interpreter.wellFormed_prepare _ hp _
  | begun h => exact wellFormed_next (s := ⟨_, #[]⟩) (Interpreter.wellFormed_prepare _ hp _) _
  | step hstep rest =>
    exact Machine.wellFormed_step (Interpreter.registry_context config) hp hstep
  | valued v s rest => exact wellFormed_next (s := s.write _) hp.env rest
  | failed hfatal s rest => exact wellFormed_next hp.env rest
  | aborted hfatal s rest => exact hp.env

/-- A run of a session keeps its moments well-formed. -/
private theorem wellFormed_of_run (h : Run (Interpreter.ofConfig config) p q) (hp : p.WellFormed) :
    q.WellFormed :=
  h.preserves (fun _ _ hp hstep => wellFormed_step hstep hp) hp

/-- The mark never goes down. -/
private theorem pinned_le_step (h : Step (Interpreter.ofConfig config) p q) :
    p.env.pinned ≤ q.env.pinned := by
  have hprepare : ∀ env text,
      env.pinned ≤ ((Interpreter.ofConfig config).prepare env text).pinned :=
    fun env text => Nat.le_of_eq ((Interpreter.ofConfig config).frames_prepare env text).2.symm
  -- Only a step of the machine moves the mark.
  cases h with
  | refused h => exact hprepare _ _
  | begun h =>
    rw [env_next]
    exact hprepare _ _
  | step hstep rest => exact Machine.pinned_le_step (Interpreter.registry_context config) hstep
  | valued v s rest =>
    rw [env_next]
    exact Nat.le_refl _
  | failed hfatal s rest =>
    rw [env_next]
    exact Nat.le_refl _
  | aborted hfatal s rest => exact Nat.le_refl _

/-! ### Closures are made -/

/-- The closure that is about to be made, by its function and its frame. -/
def created? : Moment → Option (Lambda × FrameId)
  | idle _ => none
  | busy m _ => m.created?

variable {fn : Lambda} {home : FrameId}

/-- The frame of a new closure is marked. -/
private theorem lt_pinned_of_created (h : Step (Interpreter.ofConfig config) p q)
    (hcreated : p.created? = some (fn, home)) : home.index < q.env.pinned := by
  cases h with
  | @step m m' hstep rest =>
    have hhome : m.closureFrame? = some home := Machine.closureFrame?_of_created? hcreated
    have hpinned := Machine.pinned_step (Interpreter.registry_context config) hstep
    rw [Machine.pinned_marked, hhome] at hpinned
    show home.index < m'.state.env.pinned
    rw [hpinned]
    exact Nat.lt_of_lt_of_le (Nat.lt_succ_self _) (Nat.le_max_right ..)
  | _ => cases hcreated

/-- A closure is made in a frame that is there. -/
theorem WellFormed.lt_size_of_created (hp : p.WellFormed)
    (hcreated : p.created? = some (fn, home)) : home.index < p.env.frames.size := by
  cases p with
  | idle env => cases hcreated
  | busy m rest =>
    exact Machine.WellFormed.control_frames hp home (Machine.mem_frames_of_created? hcreated)

/-- From when a closure is made its frame is there. -/
theorem lt_size_of_created (hrun : Run (Interpreter.ofConfig config) p q) (hp : p.WellFormed)
    (hcreated : p.created? = some (fn, home)) : home.index < q.env.frames.size := by
  have hq := wellFormed_of_run hrun hp
  cases hrun using Relation.ReflTransGen.head_induction_on with
  | refl => exact hp.lt_size_of_created hcreated
  | head hfirst hrest =>
    have hpinned := Run.preserves (P := fun r => home.index < r.env.pinned)
      (fun _ _ hr hstep => Nat.lt_of_lt_of_le hr (pinned_le_step hstep)) hrest
      (lt_pinned_of_created hfirst hcreated)
    exact Nat.lt_of_lt_of_le hpinned hq.env.pinned_le

/-! ### Functions are handed on -/

/-- The functions in all values satisfy a predicate. -/
def Functions (P : Value → Prop) : Moment → Prop
  | idle env => env.Functions P
  | busy m _ => m.Functions P

variable {P : Value → Prop}

/-- A weaker condition on functions holds of the same moments. -/
theorem Functions.imp {Q : Value → Prop} (hPQ : ∀ v, P v → Q v) (h : p.Functions P) :
    p.Functions Q := by
  cases p with
  | idle env => exact Environment.Functions.imp hPQ h
  | busy m rest => exact Machine.Functions.imp hPQ h

/-- What holds of the functions of a moment holds of those in its environment. -/
theorem Functions.env (h : p.Functions P) : p.env.Functions P := by
  cases p with
  | idle env => exact h
  | busy m rest => exact Machine.Functions.env h

/-- The next statement brings no new value. -/
private theorem functions_next {s : State} (h : s.env.Functions P) (es : List Expr) :
    (next es s).Functions P := by
  cases es with
  | nil => exact h
  | cons e es => exact ⟨h, List.forall_mem_nil _, List.forall_mem_nil _⟩

/-- What holds of the functions in all values holds of them after a step, if it holds of the
    closure that the step makes and of native functions. -/
theorem functions_step (h : Step (Interpreter.ofConfig config) p q) (hp : p.Functions P)
    (hnative : ∀ name, P (.native name))
    (hcreated : ∀ fn home, p.created? = some (fn, home) → P (.closure fn home)) :
    q.Functions P := by
  have hprepare : ∀ {env : Environment} (text : String), env.Functions P →
      ((Interpreter.ofConfig config).prepare env text).Functions P :=
    fun text henv => (henv.install fun name _ => hnative name).withSymbols _
  -- New functions come from binding the natives, or from a step of the machine.
  cases h with
  | refused h => exact hprepare _ hp
  | begun h => exact functions_next (s := ⟨_, #[]⟩) (hprepare _ hp) _
  | step hstep rest =>
    exact Machine.functions_step (Interpreter.registry_context config) hp hcreated hstep
  | valued v s rest => exact functions_next (s := s.write _) hp.env rest
  | failed hfatal s rest => exact functions_next hp.env rest
  | aborted hfatal s rest => exact hp.env

/-- The functions in all values that are held satisfy it. -/
theorem Functions.held {m : Machine} {rest : List Expr} (h : (busy m rest).Functions P) :
    ∀ v ∈ m.values, v.Functions P := by
  obtain ⟨-, hcontrol, htasks⟩ := h
  refine List.forall_mem_append.mpr ⟨hcontrol, fun v hv => ?_⟩
  obtain ⟨task, htask, hv⟩ := List.mem_flatMap.mp hv
  exact htasks task htask v hv

/-! ### Code -/

/-- All expressions that will be evaluated are well formed, those in closures apart. -/
def Coded : Moment → Prop
  | idle _ => True
  | busy m rest => m.Coded ∧ ∀ e ∈ rest, e.WellFormed

/-- The next statement is part of a well-formed program. -/
private theorem coded_next {es : List Expr} (h : ∀ e ∈ es, e.WellFormed) (s : State) :
    (next es s).Coded := by
  cases es with
  | nil => trivial
  | cons e es =>
    obtain ⟨he, hes⟩ := List.forall_mem_cons.mp h
    exact ⟨Machine.coded_eval (List.forall_mem_nil _) s he .global, hes⟩

/-- A step of a session keeps all code in it well-formed, if the closures are. -/
theorem coded_step (h : Step (Interpreter.ofConfig config) p q) (hp : p.Coded)
    (hfunctions : p.Functions Value.Formed) : q.Coded := by
  cases h with
  | refused h => trivial
  | begun h => exact coded_next (Interpreter.wellFormed_of_read h) _
  | step hstep rest => exact ⟨Machine.coded_step hp.1 hfunctions hstep, hp.2⟩
  | valued v s rest => exact coded_next hp.2 _
  | failed hfatal s rest => exact coded_next hp.2 _
  | aborted hfatal s rest => trivial

/-- A closure that a moment makes is made from well-formed code. -/
theorem Coded.created (h : p.Coded) (hcreated : p.created? = some (fn, home)) :
    fn.WellFormed := by
  cases p with
  | idle env => cases hcreated
  | busy m rest => exact Machine.Coded.created h.1 hcreated

/-! ### Sessions -/

/-- The function was evaluated in the frame on the way from one moment to another, when the
    frame was there, and the frame has been there since. -/
def Makes (interpreter : Interpreter) (start p : Moment) (fn : Lambda) (home : FrameId) : Prop :=
  ∃ q, Run interpreter start q ∧ q.created? = some (fn, home) ∧ Run interpreter q p ∧
    ∀ r, Run interpreter q r → home.index < r.env.frames.size

/-- A closure was made on the way from one moment to another, from a function that is well
    formed. -/
def Made (interpreter : Interpreter) (start p : Moment) : Value → Prop
  | .closure fn home => fn.WellFormed ∧ Makes interpreter start p fn home
  | _ => True

/-- A closure that was made is made from well-formed code. -/
private theorem Made.formed {interpreter : Interpreter} {start : Moment} {v : Value}
    (h : Made interpreter start p v) : v.Formed := by
  cases v with
  | closure fn home => exact h.1
  | _ => trivial

/-- What was made up to a moment was made up to the next one. -/
private theorem Made.step {interpreter : Interpreter} {start : Moment}
    (hstep : Step interpreter p q)
    {v : Value} (h : Made interpreter start p v) : Made interpreter start q v := by
  cases v with
  | closure fn home =>
    obtain ⟨hfn, r, hr, hcreated, hrun, hthere⟩ := h
    exact ⟨hfn, r, hr, hcreated, .tail hrun hstep, hthere⟩
  | _ => trivial

/-- Every closure that is met in a session was made in it, and all that is evaluated in it is
    well formed. -/
theorem made_of_run {env : Environment}
    (henv : env = .new ∨ env = (Interpreter.ofConfig config).environment)
    (h : Run (Interpreter.ofConfig config) (idle env) p) :
    p.WellFormed ∧ p.Functions (Made (Interpreter.ofConfig config) (idle env) p) ∧ p.Coded := by
  induction h with
  | refl =>
    -- Nothing but native functions is bound.
    rcases henv with henv | henv
    · rw [henv]
      exact ⟨Environment.wellFormed_new, Environment.functions_new, trivial⟩
    · rw [henv, Interpreter.environment]
      exact ⟨Environment.wellFormed_new.install _,
        Environment.functions_new.install fun _ _ => trivial, trivial⟩
  | @tail p q hrun hstep ih =>
    obtain ⟨hwellFormed, hfunctions, hcoded⟩ := ih
    refine ⟨wellFormed_step hstep hwellFormed, ?_,
      coded_step hstep hcoded (hfunctions.imp fun _ => Made.formed)⟩
    -- A closure was there before the step, or the step has made it.
    refine functions_step hstep (hfunctions.imp fun _ => Made.step hstep) (fun _ => trivial)
      fun fn home hcreated => ⟨hcoded.created hcreated, p, hrun, hcreated, .single hstep, ?_⟩
    exact fun r hr => lt_size_of_created hr hwellFormed hcreated

end Moment

end LispSession
