import LispSession.Proofs.Machine.Stable
import LispSession.Proofs.Natives.Installation
import LispSession.Proofs.Symbols.Programs

/-!
# The native functions are bound once

A name that is bound in the global frame stays bound there: programs may give it another
value, but nothing unbinds it. So the native functions, once bound, are there in every
later evaluation, and binding them again changes nothing.

* `stable_installed`             a name that is bound globally stays so
* `install_of_allInstalled`      binding the native functions again changes nothing
* `Interpreter.allInstalled_evaluate`  they are bound after every evaluation
-/

namespace LispSession

namespace Environment

/-- The global frame is there and stays there. -/
structure Rooted (env : Environment) : Prop where
  pinned : 0 < env.pinned
  size : 0 < env.frames.size

/-- A new environment has a global frame. -/
theorem rooted_new : Environment.new.Rooted := ⟨Nat.one_pos, Nat.one_pos⟩

/-- No change of an environment takes the global frame away. -/
private theorem stable_rooted : Stable Rooted where
  intern _ _ h := ⟨h.pinned, h.size⟩
  extend env home h := ⟨h.pinned, by rw [size_extend]; omega⟩
  capture env frame h := ⟨Nat.lt_of_lt_of_le h.pinned (env.pinned_le_capture frame), h.size⟩
  release env frame h := by
    have hpinned := h.pinned
    have hsize := h.size
    exact ⟨hpinned, by rw [size_release]; omega⟩
  define env frame name value h := ⟨h.pinned, by rw [size_define]; exact h.size⟩

/-- Nothing unbinds a name. -/
theorem stable_installed (names : List String) :
    Stable fun env => env.Rooted ∧ ∀ name ∈ names, env.Installed name where
  intern env other h := by
    refine ⟨stable_rooted.intern _ _ h.1, fun name hname => ?_⟩
    obtain ⟨a, ha, hbinds⟩ := h.2 name hname
    exact ⟨a, SymbolTable.get?_intern_of_get? ha other, hbinds⟩
  extend env home h := by
    refine ⟨stable_rooted.extend _ _ h.1, fun name hname => ?_⟩
    obtain ⟨a, ha, hbinds⟩ := h.2 name hname
    have hne : FrameId.global.index ≠ env.frames.size := Nat.ne_of_lt h.1.size
    refine ⟨a, ha, ?_⟩
    simp only [bindsLocally, local?, getElem?_extend, if_neg hne] at hbinds ⊢
    exact hbinds
  capture env frame h := ⟨stable_rooted.capture _ _ h.1, h.2⟩
  release env frame h := by
    refine ⟨stable_rooted.release _ _ h.1, fun name hname => ?_⟩
    obtain ⟨a, ha, hbinds⟩ := h.2 name hname
    -- The global frame is marked.
    have hkept : FrameId.global.index < max frame.index env.pinned :=
      Nat.lt_of_lt_of_le h.1.pinned (Nat.le_max_right _ _)
    refine ⟨a, ha, ?_⟩
    simp only [bindsLocally, local?, getElem?_release, if_pos hkept] at hbinds ⊢
    exact hbinds
  define env frame other value h := by
    refine ⟨stable_rooted.define _ _ _ _ h.1, fun name hname => ?_⟩
    obtain ⟨a, ha, hbinds⟩ := h.2 name hname
    refine ⟨a, ha, ?_⟩
    simp only [bindsLocally, local?, getElem?_define] at hbinds ⊢
    -- A definition in the global frame puts a binding there, and takes none away.
    split
    · cases hframe : env.frames[FrameId.global.index]? with
      | none => simp [hframe] at hbinds
      | some holder =>
        rw [hframe] at hbinds
        simp only [Option.map_some, Option.bind_some, Frame.get?_put] at hbinds ⊢
        split
        · rfl
        · exact hbinds
    · exact hbinds

/-- All native functions are bound. -/
def AllInstalled (registry : Registry) (env : Environment) : Prop :=
  env.Rooted ∧ ∀ name ∈ registry.names, env.Installed name

/-- Binding the native functions again changes nothing. -/
theorem install_of_allInstalled {registry : Registry} {env : Environment}
    (h : env.AllInstalled registry) : registry.install env = env := install_of_installed h.2

/-- Once a registry is installed all of its names are bound. -/
theorem allInstalled_install {env : Environment} (h : env.Rooted) (registry : Registry) :
    (registry.install env).AllInstalled registry :=
  ⟨stable_rooted.install h registry, (binds_install h.size registry).installed⟩

/-- Interning names keeps what every operation keeps. -/
theorem Stable.withNames {P : Environment → Prop} (hP : Stable P) {env : Environment}
    (h : P env) (names : List String) :
    P { env with symbols := env.symbols.internAll names } := by
  induction names generalizing env with
  | nil => exact h
  | cons name names ih =>
    have hrest := ih (hP.intern env name h)
    exact hrest

end Environment

namespace Interpreter

open Environment

/-- The evaluation of a text keeps what every operation keeps. -/
private theorem stable_evaluate {P : Environment → Prop} (hP : Stable P) (config : Config)
    {env : Environment} (h : P env) (text : String) :
    P ((ofConfig config).evaluate env text).env := by
  refine evaluate_preserves (fun env text h => ?_) (fun e s h => hP.evaluate rfl e .global h) h text
  unfold prepare
  simp only
  obtain ⟨names, hnames⟩ :=
    exists_names_readProgram ((ofConfig config).registry.install env).symbols text
  rw [hnames]
  exact hP.withNames (hP.install h _) names

/-- An evaluation keeps the global frame. -/
theorem rooted_evaluate (config : Config) {env : Environment} (h : env.Rooted) (text : String) :
    ((ofConfig config).evaluate env text).env.Rooted := stable_evaluate stable_rooted config h text

/-- An evaluation is the same if the standard functions are bound before it. -/
theorem evaluate_install (config : Config) {env : Environment} (h : env.Rooted) (text : String) :
    (ofConfig config).evaluate (Standard.registry.install env) text =
      (ofConfig config).evaluate env text := (ofConfig config).evaluate_after_install h.size text

/-- The native functions are bound after every evaluation. -/
theorem allInstalled_evaluate (config : Config) {env : Environment} (h : env.Rooted)
    (text : String) :
    ((ofConfig config).evaluate env text).env.AllInstalled Standard.registry := by
  rw [← evaluate_install config h text]
  exact stable_evaluate (stable_installed Standard.registry.names) config
    (allInstalled_install h Standard.registry) text

/-- A text that is no program does nothing but make names known, where the native functions
    are bound. -/
theorem evaluate_of_not_isProgram (config : Config) {env : Environment}
    (h : env.AllInstalled Standard.registry) {text : String} (htext : ¬ IsProgram text) :
    ∃ e names, (ofConfig config).evaluate env text =
      ⟨#[], some (.parse e), { env with symbols := env.symbols.internAll names }⟩ := by
  -- The text has interned names and done nothing else, since the natives were bound before.
  have hinstall : (ofConfig config).registry.install env = env := install_of_allInstalled h
  obtain ⟨names, hnames⟩ := exists_names_readProgram env.symbols text
  cases hread : (ofConfig config).read env text with
  | ok program => exact absurd ((isProgram_iff _).mpr ⟨program, hread⟩) htext
  | error e =>
    refine ⟨e, names, ?_⟩
    rw [evaluate_of_error hread]
    simp only [prepare, hinstall, hnames]

end Interpreter

end LispSession
