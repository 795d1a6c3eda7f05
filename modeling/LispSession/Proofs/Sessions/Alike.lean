import LispSession.Proofs.Frames.Reclaim
import LispSession.Proofs.Sessions.Installed
import LispSession.Proofs.Symbols.Running

/-!
# Evaluating texts in alike environments

A text that is evaluated in two environments that are alike writes the same lines, has the
same error and leaves alike environments. Every environment that evaluations lead to is like
itself: all symbols that occur in it are those of names in its table.

* `Environment.Alike.install`   binding the native functions
* `Interpreter.evaluate_alike`  a text, in two environments
* `Environment.Reached`         the environments that evaluations lead to
-/

namespace LispSession

namespace Environment

variable {env env' : Environment}

/-- Installing a name keeps environments alike. -/
private theorem Alike.installName (h : env.Alike env') (name : String) :
    (Registry.installName env name).Alike (Registry.installName env' name) := by
  have hintern := h.intern name
  have hsame : (env.intern name).2.Same (env'.intern name).2 (env.intern name).1
      (env'.intern name).1 := SymbolTable.same_intern env.symbols env'.symbols name
  -- The name is bound in both, and left alone, or bound now in both.
  have hbinds := hintern.bindsLocally_eq hsame .global
  unfold Registry.installName
  simp only [hbinds]
  split
  · exact hintern
  · exact hintern.define .global hsame (.native name)

/-- The same native functions are bound in both. -/
theorem Alike.install (h : env.Alike env') (registry : Registry) :
    (registry.install env).Alike (registry.install env') := by
  unfold Registry.install
  generalize registry.names = names
  induction names generalizing env env' with
  | nil => exact h
  | cons name names ih => exact ih (h.installName name)

/-- A user sees the same global bindings. -/
theorem Alike.globals_eq (h : env.Alike env') : env.globals = env'.globals := by
  -- The global frames are compared binding by binding.
  have hframe := h.frames FrameId.global.index
  unfold globals
  generalize env.frames[FrameId.global.index]? = here at hframe
  generalize env'.frames[FrameId.global.index]? = there at hframe
  cases hframe with
  | none => rfl
  | some hframe =>
    simp only [Option.map_some, Option.getD_some]
    have hbindings := hframe.bindings
    revert hbindings
    generalize Frame.bindings _ = bindings
    generalize Frame.bindings _ = bindings'
    intro hbindings
    induction hbindings with
    | nil => rfl
    | cons hb _ ih => rw [List.map_cons, List.map_cons, hb.1.nameOf_eq, hb.2.render_eq, ih]

end Environment

/-- Evaluations with the same lines and the same error, which leave alike environments. -/
structure Evaluation.Alike (r r' : Evaluation) : Prop where
  output : r.output = r'.output
  error : r.error = r'.error
  env : r.env.Alike r'.env

namespace Interpreter

open Environment

/-- An interpreter of any configuration has the standard natives. -/
theorem registry_context (config : Config) :
    (ofConfig config).context.registry = Standard.registry := rfl

/-- The environments in which the statements of a text start are alike. -/
theorem prepare_alike (config : Config) {env env' : Environment} (h : env.Alike env')
    (text : String) :
    ((ofConfig config).prepare env text).Alike ((ofConfig config).prepare env' text) ∧
      SymbolTable.Grown env.symbols env'.symbols ((ofConfig config).prepare env text).symbols
        ((ofConfig config).prepare env' text).symbols := by
  -- The natives are bound first, and then the text is read.
  have hinstall := h.install (ofConfig config).registry
  have hgrown : SymbolTable.Grown env.symbols env'.symbols
      ((ofConfig config).registry.install env).symbols
      ((ofConfig config).registry.install env').symbols :=
    ⟨_, symbols_install _ env, symbols_install _ env'⟩
  obtain ⟨hread, _⟩ := readProgram_alike ((ofConfig config).registry.install env).symbols
    ((ofConfig config).registry.install env').symbols text
  exact ⟨hinstall.withSymbols fun _ _ => hread.same, hgrown.trans hread⟩

/-- A text is evaluated alike in alike environments, in which the same names become known. -/
theorem evaluate_alike (config : Config) {env env' : Environment} (h : env.Alike env')
    (text : String) :
    ((ofConfig config).evaluate env text).Alike ((ofConfig config).evaluate env' text) ∧
      SymbolTable.Grown env.symbols env'.symbols ((ofConfig config).evaluate env text).env.symbols
        ((ofConfig config).evaluate env' text).env.symbols := by
  obtain ⟨hprepare, hgrown⟩ := prepare_alike config h text
  -- The text is a program in both environments, or has the same error in both.
  rcases (readProgram_alike ((ofConfig config).registry.install env).symbols
    ((ofConfig config).registry.install env').symbols text).2 with
    ⟨e, herror, herror'⟩ | ⟨program, program', hprogram, hprogram', hes⟩
  · rw [evaluate_of_error herror, evaluate_of_error herror']
    exact ⟨⟨rfl, rfl, hprepare⟩, hgrown⟩
  · rw [evaluate_of_ok hprogram, evaluate_of_ok hprogram']
    have hs : State.Alike #[] ⟨(ofConfig config).prepare env text, #[]⟩
        ⟨(ofConfig config).prepare env' text, #[]⟩ := ⟨hprepare, rfl⟩
    obtain ⟨herror, hstate, hgrown'⟩ := runStatements_alike (registry_context config) hs hes none
    exact ⟨⟨by simpa using hstate.output, herror, hstate.env⟩, hgrown.trans hgrown'⟩

end Interpreter

/-- The environments that evaluations with the standard functions lead to. -/
inductive Environment.Reached : Environment → Prop where
  | new : Reached .new
  | evaluate {env : Environment} (config : Config) (h : Reached env) (text : String) :
    Reached ((Interpreter.ofConfig config).evaluate env text).env

namespace Environment.Reached

variable {env : Environment}

/-- The symbols in an environment are those of names in its table. -/
theorem alike (h : env.Reached) : env.Alike env := by
  -- Not every environment is like itself: a symbol may have no name in its table.
  -- But the first one is, and an evaluation in it twice leads to alike environments.
  induction h with
  | new => exact alike_new
  | evaluate config _ text ih => exact (Interpreter.evaluate_alike config ih text).1.env

/-- The environments that evaluations lead to keep the global frame. -/
theorem rooted (h : env.Reached) : env.Rooted := by
  induction h with
  | new => exact rooted_new
  | evaluate config _ text ih => exact Interpreter.rooted_evaluate config ih text

end Environment.Reached

end LispSession
