import Mathlib.Data.List.Induction
import Mathlib.Order.Bounds.Basic
import LispSession.Proofs.Frames.Effects
import LispSession.Proofs.Frames.InFlight
import LispSession.Proofs.Machine.Place
import LispSession.Proofs.Machine.Stable
import LispSession.Proofs.Natives.Installation

/-!
# How many frames there are

The frames of calls are dropped when the calls are over, but for those that are marked. So
an evaluation leaves as many frames as there were before it, or as many as are marked, and
the mark is set by the closures that are created on the way, by nothing else. Between the
statements of a session there are as many frames as are marked.

* `closed_accounted`              what every evaluation does to the number of frames
* `Machine.pinned_step`           a step moves the mark only where it creates a closure
* `Machine.isMark_of_reaches`     so the mark after a run is that of the closures created in it
* `isMark_runStatements`, `Interpreter.isMark_envAfter`  the same for programs and sessions
* `Interpreter.frames_accounted`  the number of frames after every evaluation and statement
-/

namespace LispSession

/-! ### The number of frames -/

/-- From before to after an evaluation the mark does not go down, and if there were as many
    frames as some number or as the mark, then so there are. -/
def Accounted : Effect := fun frame _ s s' =>
  s.env.pinned ≤ s'.env.pinned ∧ ∀ n, frame.index < n → s.env.frames.size = max n s.env.pinned →
    s'.env.frames.size = max n s'.env.pinned

/-- A state with as many frames and the same mark is accounted for. -/
private theorem accounted_of_eq {frame : FrameId} {names : List Symbol} {s s' : State}
    (hsize : s'.env.frames.size = s.env.frames.size) (hpinned : s'.env.pinned = s.env.pinned) :
    Accounted frame names s s' := by
  refine ⟨by omega, fun n _ hn => ?_⟩
  rw [hsize, hpinned]
  exact hn

/-- All that an evaluation does keeps the number of frames accounted for. -/
theorem closed_accounted : Accounted.Closed .reclaim where
  same h := accounted_of_eq (by rw [h]) (by rw [h])
  trans h₁ h₂ := ⟨Nat.le_trans h₁.1 h₂.1, fun n hframe hn => h₂.2 n hframe (h₁.2 n hframe hn)⟩
  capture frame _ s := by
    refine ⟨s.env.pinned_le_capture frame, fun n hframe hn => ?_⟩
    -- The frame that is marked is one of the first `n`.
    show s.env.frames.size = max n (max s.env.pinned (frame.index + 1))
    omega
  define _ value s := accounted_of_eq (Environment.size_define s.env _ _ value) rfl
  assign frame _ name value s := by
    simp only [assignName]
    split
    · rename_i env henv
      obtain ⟨found, _, rfl⟩ := Option.map_eq_some_iff.mp henv
      exact accounted_of_eq (Environment.size_define s.env found name value) rfl
    · exact accounted_of_eq rfl rfl
  call {names s s'} fn home args h frame others := by
    obtain ⟨hpinned, hsize⟩ := h
    simp only [Environment.pinned_defineAll, Environment.pinned_extend] at hpinned
    refine ⟨hpinned, fun n hframe hn => ?_⟩
    -- The body starts with one frame more, which is the last.
    have hbody : s'.env.frames.size = max (s.env.frames.size + 1) s'.env.pinned := by
      refine hsize _ (Nat.lt_succ_self s.env.frames.size) ?_
      simp only [Environment.size_defineAll, Environment.size_extend,
        Environment.pinned_defineAll, Environment.pinned_extend]
      omega
    have hindex : (s.env.extend home).1.index = s.env.frames.size := rfl
    simp only [FramePolicy.leave, Environment.size_release, Environment.pinned_release, hindex]
    omega

/-- After an evaluation there are as many frames as before it, or as many as are marked. -/
private theorem size_evalExpr {cx : Context} (hcx : cx.registry = Standard.registry)
    (hpolicy : cx.policy = .reclaim) (more : Nat) (e : Expr) {frame : FrameId} {s : State}
    (henv : s.env.WellFormed) (hframe : frame.index < s.env.frames.size) :
    (evalExpr cx (enterAt cx more) e frame s).state.env.frames.size =
      max s.env.frames.size (evalExpr cx (enterAt cx more) e frame s).state.env.pinned := by
  have hclosed : Accounted.Closed cx.policy := hpolicy ▸ closed_accounted
  have hpinned := henv.pinned_le
  exact (hclosed.evalExpr hcx more e frame s).2 s.env.frames.size hframe (by omega)

/-- After an expression the frames are those there were, or up to the mark if it is higher. -/
private theorem size_evaluate {cx : Context} (hcx : cx.registry = Standard.registry)
    (hpolicy : cx.policy = .reclaim) (e : Expr) {frame : FrameId} {s : State}
    (henv : s.env.WellFormed) (hframe : frame.index < s.env.frames.size) :
    (evaluate cx e frame s).state.env.frames.size =
      max s.env.frames.size (evaluate cx e frame s).state.env.pinned :=
  size_evalExpr hcx hpolicy cx.maxDepth e henv hframe

/-! ### The mark -/

/-- The mark is the greatest of what it was before and of those that closures in some frames
    ask for. -/
def IsMark (old : Nat) (Made : FrameId → Prop) (new : Nat) : Prop :=
  IsGreatest {n | n = old ∨ ∃ home, Made home ∧ n = home.index + 1} new

namespace IsMark

variable {p q r : Nat} {A B : FrameId → Prop}

/-- The mark never goes down. -/
private theorem le (h : IsMark p A q) : p ≤ q := h.2 (.inl rfl)

/-- The mark is above every frame in which a closure was made. -/
private theorem lt_of_made (h : IsMark p A q) {home : FrameId} (hhome : A home) : home.index < q :=
  h.2 (.inr ⟨home, hhome, rfl⟩)

/-- The mark only depends on the frames in which closures were made. -/
private theorem congr (h : IsMark p A q) (hiff : ∀ home, A home ↔ B home) : IsMark p B q := by
  have hsame : A = B := funext fun home => propext (hiff home)
  exact hsame ▸ h

/-- Without closures the mark stays where it is. -/
private theorem refl (p : Nat) (hnone : ∀ home, ¬ A home) : IsMark p A p := by
  refine ⟨.inl rfl, ?_⟩
  rintro n (rfl | ⟨home, hhome, _⟩)
  · exact Nat.le_refl n
  · exact absurd hhome (hnone home)

/-- The mark after two parts is that of the closures made in either. -/
private theorem trans (h₁ : IsMark p A q) (h₂ : IsMark q B r) :
    IsMark p (fun home => A home ∨ B home) r := by
  refine ⟨?_, ?_⟩
  -- It is the mark from before, or just above a frame of one of the parts.
  · rcases h₂.1 with rfl | ⟨home, hhome, hr⟩
    · rcases h₁.1 with hq | ⟨home, hhome, hq⟩
      · exact .inl hq
      · exact .inr ⟨home, .inl hhome, hq⟩
    · exact .inr ⟨home, .inr hhome, hr⟩
  · rintro n (rfl | ⟨home, hhome | hhome, rfl⟩)
    · exact Nat.le_trans h₁.le h₂.le
    · exact Nat.le_trans (h₁.lt_of_made hhome) h₂.le
    · exact h₂.lt_of_made hhome

/-- The mark moves only to above a frame that was not marked. -/
private theorem exists_of_ne (h : IsMark p A q) (hne : q ≠ p) :
    ∃ home, A home ∧ p ≤ home.index := by
  rcases h.1 with hq | ⟨home, hhome, hq⟩
  · exact absurd hq hne
  · have hle := h.le
    exact ⟨home, hhome, by omega⟩

end IsMark

namespace Machine

variable {cx : Context} (hcx : cx.registry = Standard.registry) {m m' : Machine}

/-- Where no call is in progress, a closure is created in the frame of the statement. -/
private theorem InPlace.frame_of_closureFrame? {root home : FrameId} (h : m.InPlace root)
    (hhome : m.closureFrame? = some home) (hcalls : m.calls = []) : home = root := by
  have hcurrent : currentFrame root m.tasks = root := by
    have hnil : callsOf m.tasks = [] := hcalls
    simp only [currentFrame, hnil, List.headD_nil]
  rw [← hcurrent]
  refine h.control home ?_
  -- Only a function that is about to be made has such a frame, which is the current one.
  unfold closureFrame? at hhome
  split at hhome
  · rename_i hcontrol
    cases hhome
    rw [hcontrol]
    exact List.mem_cons_self
  · rename_i hcontrol
    cases hhome
    rw [hcontrol]
    exact List.mem_cons_self
  · cases hhome

/-- On the way of the machine from one state to another, a closure is created in a frame. -/
def Creates (cx : Context) (m m' : Machine) (home : FrameId) : Prop :=
  ∃ k, Reaches cx m k ∧ k.closureFrame? = some home ∧ Reaches cx k m'

/-- Making, releasing and binding frames, and names, leave the mark where it is. -/
private theorem kept_pinned (n : Nat) : Environment.Kept fun env => env.pinned = n where
  intern _ _ h := h
  extend _ _ h := h
  release _ _ h := h
  define _ _ _ _ h := h

/-- A closure that is about to be made moves the mark just above its frame, if it is lower. -/
theorem pinned_marked (m : Machine) :
    m.marked.pinned =
      match m.closureFrame? with
      | some home => max m.state.env.pinned (home.index + 1)
      | none => m.state.env.pinned := by
  unfold marked
  cases m.closureFrame? <;> rfl

include hcx

/-- A step moves the mark only where it creates a closure. -/
theorem pinned_step (hstep : m.step cx = some m') : m'.state.env.pinned = m.marked.pinned :=
  kept_step (kept_pinned m.marked.pinned) hcx m m' rfl hstep

/-- No step lowers the mark. -/
theorem pinned_le_step (hstep : m.step cx = some m') :
    m.state.env.pinned ≤ m'.state.env.pinned := by
  rw [pinned_step hcx hstep, pinned_marked]
  split
  · exact Nat.le_max_left ..
  · exact Nat.le_refl _

/-- No steps lower the mark. -/
private theorem pinned_le_of_reaches (hrun : Reaches cx m m') :
    m.state.env.pinned ≤ m'.state.env.pinned :=
  hrun.preserves (P := fun k => m.state.env.pinned ≤ k.state.env.pinned)
    (fun _ _ h hstep => Nat.le_trans h (pinned_le_step hcx hstep)) (Nat.le_refl _)

/-- A closure that is created has its frame marked from then on. -/
private theorem lt_pinned_of_creates (hend : m'.closureFrame? = none) {home : FrameId}
    (h : Creates cx m m' home) : home.index < m'.state.env.pinned := by
  obtain ⟨k, -, hhome, hrest⟩ := h
  cases hrest using Relation.ReflTransGen.head_induction_on with
  | refl => rw [hend] at hhome; cases hhome
  | head hstep hrest =>
    refine Nat.lt_of_lt_of_le ?_ (pinned_le_of_reaches hcx hrest)
    simp only [pinned_step hcx hstep, pinned_marked, hhome]
    omega

/-- The mark after a run is that of the closures that are created in it. -/
theorem isMark_of_reaches (hrun : Reaches cx m m') (hend : m'.closureFrame? = none) :
    IsMark m.state.env.pinned (Creates cx m m') m'.state.env.pinned := by
  refine ⟨?_, ?_⟩
  -- By induction on the run: its first step moves the mark, or the rest of it does.
  · induction hrun using Relation.ReflTransGen.head_induction_on with
    | refl => exact .inl rfl
    | @head k k' hstep hrest ih =>
      rcases ih with heq | ⟨home, ⟨l, hl, hhome, hend⟩, heq⟩
      · rw [pinned_step hcx hstep, pinned_marked] at heq
        cases hhome : k.closureFrame? with
        | none =>
          rw [hhome] at heq
          exact .inl heq
        | some home =>
          rw [hhome] at heq
          by_cases hle : home.index + 1 ≤ k.state.env.pinned
          · exact .inl (by simp only at heq; omega)
          · have hcreates : Creates cx k m' home := ⟨k, .refl, hhome, .head hstep hrest⟩
            exact .inr ⟨home, hcreates, by simp only at heq; omega⟩
      · exact .inr ⟨home, ⟨l, .head hstep hl, hhome, hend⟩, heq⟩
  · rintro n (rfl | ⟨home, hhome, rfl⟩)
    · exact pinned_le_of_reaches hcx hrun
    · exact lt_pinned_of_creates hcx hend hhome

end Machine

/-! ### Statements and sessions -/

variable {cx : Context} (hcx : cx.registry = Standard.registry)

/-- Where an outcome is handed on, no closure is about to be made. -/
@[simp] theorem Machine.closureFrame?_after (tasks : List Task) (o : Outcome Value) :
    (Machine.after tasks o).closureFrame? = none := by
  cases o <;> rfl

include hcx

/-- The mark after a statement is that of the closures created in it. -/
private theorem isMark_evaluate (e : Expr) (frame : FrameId) (s : State) :
    IsMark s.env.pinned
      (fun home => ∃ m, Machine.Reaches cx ⟨.eval e frame, [], s⟩ m ∧ m.closureFrame? = some home)
      (evaluate cx e frame s).state.env.pinned := by
  have hrun := Machine.reaches_evaluate cx e frame s
  have hmark := Machine.isMark_of_reaches hcx hrun (Machine.closureFrame?_after [] _)
  rw [Machine.state_after] at hmark
  -- The machine has come to its end, so that every state in which a closure is made comes before
  -- it.
  refine hmark.congr fun home => ⟨?_, ?_⟩
  · rintro ⟨m, hm, hhome, -⟩
    exact ⟨m, hm, hhome⟩
  · rintro ⟨m, hm, hhome⟩
    exact ⟨m, hm, hhome, hm.ends hrun (Machine.step_after_nil cx _)⟩

/-- So is the mark after the statements of a program. -/
theorem isMark_runStatements (es : List Expr) (s : State) (first : Option EvalError) :
    IsMark s.env.pinned (fun home => ∃ m, Passes cx es s m ∧ m.closureFrame? = some home)
      (runStatements cx es s first).1.env.pinned := by
  induction es generalizing s first with
  | nil => exact .refl _ (by rintro home ⟨m, hm, -⟩; cases hm)
  | cons e es ih =>
    have hfirst := isMark_evaluate hcx e .global s
    simp only [runStatements]
    cases ho : evaluate cx e .global s with
    | value v s₁ =>
      rw [ho] at hfirst
      refine (hfirst.trans (ih (s₁.write (s₁.render v)) first)).congr fun home => ?_
      simp [passes_cons_iff, ho, or_and_right, exists_or]
    | error error s₁ =>
      rw [ho] at hfirst
      simp only
      split
      -- After a fatal error the machine does not go on.
      · rename_i hfatal
        refine hfirst.congr fun home => ?_
        simp [passes_cons_iff, ho, hfatal]
      · rename_i hfatal
        refine (hfirst.trans (ih s₁ _)).congr fun home => ?_
        simp [passes_cons_iff, ho, hfatal, or_and_right, exists_or]

omit hcx

namespace Interpreter

/-- While a session evaluates some texts, a closure is created in a frame. -/
def MakesClosureIn (interpreter : Interpreter) (texts : List String) (home : FrameId) : Prop :=
  ∃ before text m, before ++ [text] <+: texts ∧
    interpreter.Passes (interpreter.envAfter before) text m ∧ m.closureFrame? = some home

/-- The state at the start of the statements of a text, after a session. -/
def startAfter (interpreter : Interpreter) (texts : List String) (text : String) : State :=
  ⟨interpreter.prepare (interpreter.envAfter texts) text, #[]⟩

/-- To prepare a text makes no frames and marks none. -/
theorem frames_prepare (interpreter : Interpreter) (env : Environment) (text : String) :
    (interpreter.prepare env text).frames.size = env.frames.size ∧
      (interpreter.prepare env text).pinned = env.pinned :=
  interpreter.registry.frames_install env

/-- Preparing the environment for a text leaves the mark where it is. -/
private theorem pinned_startAfter (interpreter : Interpreter) (texts : List String)
    (text : String) :
    (interpreter.startAfter texts text).env.pinned = (interpreter.envAfter texts).pinned :=
  (interpreter.frames_prepare (interpreter.envAfter texts) text).2

/-- Closures are created in the texts before, or in the last one. -/
private theorem makesClosureIn_concat {interpreter : Interpreter} {texts : List String}
    {text : String} {home : FrameId} :
    interpreter.MakesClosureIn (texts ++ [text]) home ↔ interpreter.MakesClosureIn texts home ∨
      ∃ m, interpreter.Passes (interpreter.envAfter texts) text m ∧
        m.closureFrame? = some home := by
  -- The closures made in the last text are those made while it runs.
  constructor
  · rintro ⟨before, other, m, hprefix, hm, hhome⟩
    rcases List.prefix_concat_iff.mp hprefix with heq | hprefix
    · obtain ⟨rfl, hlast⟩ := List.append_inj' heq rfl
      cases hlast
      exact .inr ⟨m, hm, hhome⟩
    · exact .inl ⟨before, other, m, hprefix, hm, hhome⟩
  · rintro (⟨before, other, m, hprefix, hm⟩ | ⟨m, hm⟩)
    · exact ⟨before, other, m, hprefix.trans (List.prefix_append _ _), hm⟩
    · exact ⟨texts, text, m, List.prefix_rfl, hm⟩

variable (config : Config) (texts : List String)

/-- The mark after a session is that of the closures created in it. -/
theorem isMark_envAfter :
    IsMark 1 ((ofConfig config).MakesClosureIn texts)
      ((ofConfig config).envAfter texts).pinned := by
  induction texts using List.reverseRecOn with
  | nil =>
    refine .refl 1 ?_
    rintro home ⟨before, text, m, hprefix, -⟩
    exact absurd (List.prefix_nil.mp hprefix) (by simp)
  | append_singleton texts text ih =>
    have hafter : (ofConfig config).envAfter (texts ++ [text]) =
        ((ofConfig config).evaluate ((ofConfig config).envAfter texts) text).env := by
      simp only [envAfter, List.foldl_append, List.foldl_cons, List.foldl_nil]
    rw [hafter]
    cases hread : (ofConfig config).read ((ofConfig config).envAfter texts) text with
    -- Nothing is evaluated of a text that is not a program.
    | error e =>
      rw [evaluate_of_error hread, (frames_prepare _ _ text).2]
      refine ih.congr fun home => ?_
      simp [makesClosureIn_concat, Interpreter.Passes, hread]
    | ok program =>
      rw [evaluate_of_ok hread]
      have hcx : (ofConfig config).context.registry = Standard.registry := rfl
      have hrun := isMark_runStatements hcx program ((ofConfig config).startAfter texts text) none
      rw [pinned_startAfter] at hrun
      refine (ih.trans hrun).congr fun home => ?_
      simp [makesClosureIn_concat, Interpreter.Passes, hread, startAfter]

/-- Between statements the environment is well formed and all its frames are marked. -/
structure Compact (env : Environment) : Prop where
  wellFormed : env.WellFormed
  size_eq : env.frames.size = env.pinned

/-- An evaluation leaves the arena as large as the mark says. -/
private theorem compact_evaluate (maxDepth : Nat) (e : Expr) {s : State} (h : Compact s.env) :
    Compact
      (LispSession.evaluate (ofConfig ⟨maxDepth, .reclaim⟩).context e .global s).state.env := by
  have hcx : (ofConfig ⟨maxDepth, .reclaim⟩).context.registry = Standard.registry := rfl
  have hsize := size_evaluate hcx rfl e h.wellFormed h.wellFormed.size_pos
  have hmark := (isMark_evaluate hcx e .global s).le
  have hbefore := h.size_eq
  refine ⟨Machine.wellFormed_evaluate rfl h.wellFormed e, hsize.trans ?_⟩
  exact Nat.max_eq_right (hbefore ▸ hmark)

/-- Preparing the environment leaves the arena as large as the mark says. -/
private theorem compact_prepare (interpreter : Interpreter) {env : Environment} (h : Compact env)
    (text : String) : Compact (interpreter.prepare env text) := by
  refine ⟨wellFormed_prepare interpreter h.wellFormed text, ?_⟩
  obtain ⟨hsize, hpinned⟩ := interpreter.frames_prepare env text
  exact hsize.trans (h.size_eq.trans hpinned.symm)

/-- Between texts the arena is as large as the mark says. -/
private theorem compact_envAfter (maxDepth : Nat) (texts : List String) :
    Compact ((ofConfig ⟨maxDepth, .reclaim⟩).envAfter texts) :=
  envAfter_induct (P := Compact) ⟨Environment.wellFormed_new, rfl⟩
    (fun _ text h => compact_prepare _ h text) (fun e _ h => compact_evaluate maxDepth e h) texts

/-- The number of frames is accounted for exactly.

    Every evaluation, at any depth of calls and whatever waits for its outcome, a value or an
    error, leaves as many frames as there were or as are marked then; the mark has moved only
    if a closure was created meanwhile in a frame that was not marked. So between any two
    statements of a session there is one frame more than the last in which a closure was ever
    created, or one if there was none; and a statement that creates no closure inside a call
    leaves the number of frames as it was. -/
theorem frames_accounted (maxDepth : Nat) :
    (∀ (e : Expr) (frame : FrameId) (tasks : List Task) (s : State) (more : Nat),
        s.env.WellFormed → frame.index < s.env.frames.size →
        (callsOf tasks).length + more = maxDepth →
        let cx := (ofConfig ⟨maxDepth, .reclaim⟩).context
        let outcome := evalExpr cx (enterAt cx more) e frame s
        outcome.state.env.frames.size =
            max s.env.frames.size outcome.state.env.pinned ∧
          (outcome.state.env.pinned ≠ s.env.pinned → ∃ home,
            Machine.Creates cx ⟨.eval e frame, tasks, s⟩ (Machine.after tasks outcome) home ∧
              s.env.pinned ≤ home.index)) ∧
      (∀ (texts : List String) (text : String) (program : List Expr) (count : Nat),
        let interpreter := ofConfig ⟨maxDepth, .reclaim⟩
        let start := interpreter.startAfter texts text
        interpreter.read (interpreter.envAfter texts) text = .ok program →
          IsGreatest
            {n | n = 1 ∨ ∃ home : FrameId, (interpreter.MakesClosureIn texts home ∨
              ∃ m, LispSession.Passes interpreter.context (program.take count) start m ∧
                m.closureFrame? = some home) ∧ n = home.index + 1}
            (runStatements interpreter.context (program.take count) start
              none).1.env.frames.size) ∧
      ∀ (e : Expr) (s : State), s.env.WellFormed →
        let cx := (ofConfig ⟨maxDepth, .reclaim⟩).context
        (∀ m home, Machine.Reaches cx ⟨.eval e .global, [], s⟩ m → m.closureFrame? = some home →
          m.calls = []) →
          (LispSession.evaluate cx e .global s).state.env.frames.size = s.env.frames.size := by
  refine ⟨?_, ?_, ?_⟩
  · intro e frame tasks s more henv hframe hmore cx outcome
    refine ⟨size_evalExpr rfl rfl more e henv hframe, ?_⟩
    have hrun : Machine.Reaches cx ⟨.eval e frame, tasks, s⟩ (Machine.after tasks outcome) :=
      Machine.reaches_evalExpr (Machine.runs_enterAt cx more) e frame tasks s hmore
    have hmark := Machine.isMark_of_reaches rfl hrun (Machine.closureFrame?_after tasks outcome)
    rw [Machine.state_after] at hmark
    exact hmark.exists_of_ne
  · intro texts text program count interpreter start _
    have hstart : Compact start.env := compact_prepare _ (compact_envAfter maxDepth texts) text
    have hend : Compact (runStatements interpreter.context (program.take count) start none).1.env :=
      runStatements_preserves (P := fun s => Compact s.env)
        (fun e _ h => compact_evaluate maxDepth e h) (fun _ _ h => h) _ none hstart
    have hbefore : IsMark 1 (interpreter.MakesClosureIn texts) start.env.pinned := by
      rw [pinned_startAfter]
      exact isMark_envAfter ⟨maxDepth, .reclaim⟩ texts
    have hcx : interpreter.context.registry = Standard.registry := rfl
    have hmark := hbefore.trans (isMark_runStatements hcx (program.take count) start none)
    rw [hend.size_eq]
    exact hmark
  · intro e s henv cx hnone
    have hsize : (LispSession.evaluate cx e .global s).state.env.frames.size = _ :=
      size_evaluate rfl rfl e henv henv.size_pos
    have hcx : cx.registry = Standard.registry := rfl
    have hmark := isMark_evaluate hcx e .global s
    -- A closure created outside of calls belongs to the global frame, which is marked.
    have hsame : (LispSession.evaluate cx e .global s).state.env.pinned = s.env.pinned := by
      by_contra hne
      obtain ⟨home, ⟨m, hm, hhome⟩, hlt⟩ := hmark.exists_of_ne hne
      have hglobal :=
        (Machine.inPlace_reaches hm).frame_of_closureFrame? hhome (hnone m home hm hhome)
      have hpos := henv.pinned_pos
      rw [hglobal] at hlt
      simp only [FrameId.global] at hlt
      omega
    have hle := henv.pinned_le
    rw [hsize, hsame]
    omega

/-- A function that is returned from a call was created in the frame of that call, which is
    kept: there are two frames afterwards. -/
theorem frames_accounted_returned :
    let interpreter := ofConfig ⟨9, .reclaim⟩
    let texts := ["(define (f x) (lambda (y) x))"]
    ∃ program, interpreter.read (interpreter.envAfter texts) "(f 'a)" = .ok program ∧
      IsGreatest
        {n | n = 1 ∨ ∃ home : FrameId, (interpreter.MakesClosureIn texts home ∨
          ∃ m, LispSession.Passes interpreter.context (program.take 1)
              (interpreter.startAfter texts "(f 'a)") m ∧
            m.closureFrame? = some home) ∧ n = home.index + 1} 2 := by
  intro interpreter texts
  -- The size of the arena is computed; that it is the greatest is the general theorem.
  have hrun : ((interpreter.read (interpreter.envAfter texts) "(f 'a)").toOption.any fun program =>
      (runStatements interpreter.context (program.take 1)
        (interpreter.startAfter texts "(f 'a)") none).1.env.frames.size = 2) = true := by
    decide +kernel
  obtain ⟨program, hread, hsize⟩ := (Option.any_eq_true _ _).mp hrun
  have hok : interpreter.read (interpreter.envAfter texts) "(f 'a)" = .ok program := by
    cases hresult : interpreter.read (interpreter.envAfter texts) "(f 'a)" with
    | error e => rw [hresult] at hread; cases hread
    | ok found => rw [hresult] at hread; exact congrArg Except.ok (Option.some.inj hread)
  have hgreatest := (frames_accounted 9).2.1 texts "(f 'a)" program 1 hok
  rw [of_decide_eq_true hsize] at hgreatest
  exact ⟨program, hok, hgreatest⟩

end Interpreter

end LispSession
