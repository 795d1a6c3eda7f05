import LispSession.Proofs.Sessions.Alike

/-!
# Texts that are no programs leave no trace

Two sessions are compared, one of which evaluates some texts more that are no programs. All
that these leave are names in the table of symbols, so that later names have other symbols
in one session than in the other. No answer to any of the other texts shows which symbol a
name has.

* `Interpreter.Keeps`            what is the same in both sessions
* `Interpreter.session_strays`   the answers to the other texts are the same
-/

namespace LispSession

/-- A text of a session. -/
structure Request where
  text : String
  /-- The text has been put in between the others. -/
  stray : Bool

/-- What a user sees of an evaluation with stray texts before it, and of the same one
    without: all is the same, but for the number of symbols. -/
structure Evaluation.Unaffected (r r' : Evaluation) : Prop where
  output : r.output = r'.output
  error : r.error = r'.error
  errorMessage : r.errorMessage = r'.errorMessage
  frames : r.env.frames.size = r'.env.frames.size
  bindings : r.env.bindingCount = r'.env.bindingCount
  values : ∀ name, (r.env.get? name).map (·.render r.env.symbols) =
    (r'.env.get? name).map (·.render r'.env.symbols)
  symbols : r'.env.symbols.size ≤ r.env.symbols.size

namespace Interpreter

open Environment

/-- The environments of two sessions, the first of which has met stray texts. -/
structure Keeps (env env' : Environment) : Prop where
  alike : env.Alike env'
  installed : env.AllInstalled Standard.registry
  installed' : env'.AllInstalled Standard.registry
  covers : env.symbols.Covers env'.symbols

variable (config : Config) {env env' : Environment}

/-- A stray text writes nothing, and the environments stay alike. -/
theorem Keeps.stray (h : Keeps env env') {text : String} (htext : ¬ IsProgram text) :
    ((ofConfig config).evaluate env text).output = #[] ∧
      Keeps ((ofConfig config).evaluate env text).env env' := by
  have hafter := allInstalled_evaluate config h.installed.1 text
  obtain ⟨e, names, heval⟩ := evaluate_of_not_isProgram config h.installed htext
  rw [heval] at hafter ⊢
  refine ⟨rfl, ⟨?_, hafter, h.installed', h.covers.internAll names⟩⟩
  exact h.alike.withSymbols fun _ _ hs => hs.of_internAll names []

/-- Any other text has the same answer, and the environments stay alike. -/
theorem Keeps.evaluate (h : Keeps env env') (text : String) :
    ((ofConfig config).evaluate env text).Unaffected ((ofConfig config).evaluate env' text) ∧
      Keeps ((ofConfig config).evaluate env text).env
        ((ofConfig config).evaluate env' text).env := by
  obtain ⟨⟨houtput, herror, halike⟩, hgrown⟩ := evaluate_alike config h.alike text
  have hcovers := h.covers.of_grown hgrown
  refine ⟨⟨houtput, herror, ?_, halike.size_eq, halike.bindingCount_eq, halike.get?_render_eq,
    hcovers.size_le⟩, halike, allInstalled_evaluate config h.installed.1 text,
    allInstalled_evaluate config h.installed'.1 text, hcovers⟩
  unfold Evaluation.errorMessage
  rw [herror]

/-- Binding the native functions first changes no answer. -/
private theorem session_install (h : env.Rooted) (texts : List String) :
    (ofConfig config).session (Standard.registry.install env) texts =
      (ofConfig config).session env texts := by
  cases texts with
  | nil => simp only [session]
  | cons text texts =>
    exact congrArg (fun r : Evaluation => r :: (ofConfig config).session r.env texts)
      (evaluate_install config h text)

/-- The answers to the texts of a session, each with its request. -/
def answers (interpreter : Interpreter) (env : Environment) (requests : List Request) :
    List (Evaluation × Request) :=
  (interpreter.session env (requests.map Request.text)).zip requests

/-- The first answer is that of the first request, and the others start where it has left the
    environment. -/
private theorem answers_cons (interpreter : Interpreter) (env : Environment) (r : Request)
    (requests : List Request) :
    interpreter.answers env (r :: requests) = (interpreter.evaluate env r.text, r) ::
      interpreter.answers (interpreter.evaluate env r.text).env requests := rfl

/-- The answers in two sessions that go on from alike environments. -/
private theorem Keeps.answers_unaffected (requests : List Request)
    (hstray : ∀ r ∈ requests, r.stray = true → ¬ IsProgram r.text) (h : Keeps env env') :
    List.Forall₂ Evaluation.Unaffected
        ((((ofConfig config).answers env requests).filter fun a => !a.2.stray).map Prod.fst)
        ((ofConfig config).session env' ((requests.filter fun r => !r.stray).map Request.text)) ∧
      ∀ a ∈ (ofConfig config).answers env requests, a.2.stray = true → a.1.output = #[] := by
  induction requests generalizing env env' with
  | nil => exact ⟨.nil, by simp [Interpreter.answers, session]⟩
  | cons r requests ih =>
    have hstray' := fun other hother => hstray other (List.mem_cons_of_mem r hother)
    cases hr : r.stray with
    | true =>
      -- The second session stays where it is.
      obtain ⟨houtput, hkeeps⟩ := h.stray config (hstray r List.mem_cons_self hr)
      obtain ⟨hsame, hnone⟩ := ih hstray' hkeeps
      rw [answers_cons, List.filter_cons_of_neg (by simp [hr]),
        List.filter_cons_of_neg (by simp [hr])]
      exact ⟨hsame, List.forall_mem_cons.mpr ⟨fun _ => houtput, hnone⟩⟩
    | false =>
      obtain ⟨hfirst, hkeeps⟩ := h.evaluate config r.text
      obtain ⟨hsame, hnone⟩ := ih hstray' hkeeps
      rw [answers_cons, List.filter_cons_of_pos (by simp [hr]),
        List.filter_cons_of_pos (by simp [hr])]
      refine ⟨.cons hfirst hsame, List.forall_mem_cons.mpr ⟨fun hstray => ?_, hnone⟩⟩
      rw [hr] at hstray
      cases hstray

/-- Texts that are no programs leave no trace in a session: they write nothing, and the
    answers to all other texts are the same as without them, but for the number of
    symbols. -/
theorem session_strays {env : Environment} (henv : env.Reached) (requests : List Request)
    (hstray : ∀ r ∈ requests, r.stray = true → ¬ IsProgram r.text) :
    List.Forall₂ Evaluation.Unaffected
        ((((ofConfig config).answers env requests).filter fun a => !a.2.stray).map Prod.fst)
        ((ofConfig config).session env ((requests.filter fun r => !r.stray).map Request.text)) ∧
      ∀ a ∈ (ofConfig config).answers env requests, a.2.stray = true → a.1.output = #[] := by
  -- The comparison starts where the native functions are bound, as the first request of
  -- either session would bind them: from there on a stray text changes nothing but names.
  have hinstalled := allInstalled_install henv.rooted Standard.registry
  have hkeeps : Keeps (Standard.registry.install env) (Standard.registry.install env) :=
    ⟨henv.alike.install Standard.registry, hinstalled, hinstalled, .refl _⟩
  have hanswers := hkeeps.answers_unaffected config requests hstray
  simp only [answers, session_install config henv.rooted] at hanswers ⊢
  exact hanswers

/-- A session that meets the name `x` in a stray text, before other names, and again in a
    text that is none. -/
def interrupted : List Request :=
  [⟨"(define x", true⟩, ⟨"(define y 1) y", false⟩, ⟨"y)", true⟩, ⟨"(+ y x)", false⟩]

/-- Failed texts between the others intern names early and answer with errors, and the other answers
    do not show it. -/
theorem session_strays_interrupted :
    (∀ r ∈ interrupted, r.stray = true → ¬ IsProgram r.text) ∧
      List.Forall₂ Evaluation.Unaffected
        ((((ofConfig .default).answers .new interrupted).filter fun a => !a.2.stray).map Prod.fst)
        ((ofConfig .default).session .new ["(define y 1) y", "(+ y x)"]) ∧
      ∀ a ∈ (ofConfig .default).answers .new interrupted, a.2.stray = true → a.1.output = #[] := by
  have hstray : ∀ r ∈ interrupted, r.stray = true → ¬ IsProgram r.text := by decide +kernel
  exact ⟨hstray, session_strays .default .new interrupted hstray⟩

end Interpreter

end LispSession
