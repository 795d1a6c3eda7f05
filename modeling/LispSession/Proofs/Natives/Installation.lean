import LispSession.Session
import LispSession.Proofs.Frames.Scopes
import LispSession.Proofs.Natives.Registration
import LispSession.Proofs.Symbols.Tables

/-!
# Installation

Before a text is evaluated the native functions are bound in the global frame, where their names
are free. This adds what is missing and nothing else, in any environment that has its global
frame: a user's own bindings stay, of whatever names, and doing it again does nothing. Nor does
it matter in which order the functions were registered.

* `local?_installName`       the bindings after one name is bound
* `binds_install`            the bindings after all names of a registry are bound
* `install_of_installed`     where all names are bound nothing changes
* `Interpreter.evaluate_after_install`  an evaluation is the same if the names are bound before it
* `Registry.bound_once_in_any_order`  the laws of registration and installation
-/

namespace LispSession

namespace Environment

/-- The global frame binds a name that the table holds. -/
def Installed (env : Environment) (name : String) : Prop :=
  ∃ a, env.symbols.get? name = some a ∧ env.bindsLocally .global a = true

/-- A name that is bound is not bound again. -/
private theorem installName_of_installed {env : Environment} {name : String}
    (h : env.Installed name) : Registry.installName env name = env := by
  obtain ⟨a, ha, hbinds⟩ := h
  unfold Registry.installName intern
  simp only [SymbolTable.intern_of_get? ha]
  rw [if_pos hbinds]

/-- Where all names are bound nothing changes. -/
theorem install_of_installed {registry : Registry} {env : Environment}
    (h : ∀ name ∈ registry.names, env.Installed name) : registry.install env = env := by
  unfold Registry.install
  generalize registry.names = names at h
  induction names with
  | nil => rfl
  | cons name names ih =>
    -- The first name changes nothing, so the others start from the same environment.
    rw [List.foldl_cons, installName_of_installed (h name List.mem_cons_self)]
    exact ih fun other hother => h other (List.mem_cons_of_mem _ hother)

/-- Installing a name interns it, whether it is bound or not. -/
private theorem symbols_installName (env : Environment) (name : String) :
    (Registry.installName env name).symbols = (env.symbols.intern name).2 := by
  unfold Registry.installName
  simp only
  split <;> rfl

/-- Installing a registry interns its names in their order. -/
theorem symbols_install (registry : Registry) (env : Environment) :
    (registry.install env).symbols = env.symbols.internAll registry.names := by
  unfold Registry.install
  generalize registry.names = names
  -- Induction on the names, over any environment they are installed in.
  induction names generalizing env with
  | nil => rfl
  | cons name names ih =>
    rw [List.foldl_cons, ih, symbols_installName, SymbolTable.internAll_cons]

/-- Installing a name makes no frame and marks none. -/
private theorem frames_installName (env : Environment) (name : String) :
    (Registry.installName env name).frames.size = env.frames.size ∧
      (Registry.installName env name).pinned = env.pinned := by
  unfold Registry.installName
  simp only
  split
  · exact ⟨rfl, rfl⟩
  · exact ⟨size_define .., rfl⟩

/-! ### Bindings -/

/-- A native function is bound to its name in the global frame unless something is. -/
theorem local?_installName {env : Environment} (h : env.Live .global) (name : String)
    (frame : FrameId) (a : Symbol) :
    (Registry.installName env name).local? frame a =
      (env.local? frame a).or
        (if frame = .global ∧ a = (env.intern name).1 then some (.native name) else none) := by
  have hlocal : (env.intern name).2.local? frame a = env.local? frame a := rfl
  unfold Registry.installName
  simp only
  split
  · rename_i hbinds
    rw [hlocal]
    split
    · rename_i hhere
      -- The name has a value here, which it keeps.
      rw [hhere.1, hhere.2]
      obtain ⟨v, hv⟩ := Option.isSome_iff_exists.mp hbinds
      have hv' : env.local? .global (env.intern name).1 = some v := hv
      rw [hv', Option.some_or]
    · rw [Option.or_none]
  · rename_i hfree
    have hlive : (env.intern name).2.Live .global := h
    rw [local?_define hlive, hlocal]
    split
    · rename_i hhere
      rw [hhere.1, hhere.2]
      have hnone : env.local? .global (env.intern name).1 = none :=
        Option.not_isSome_iff_eq_none.mp hfree
      rw [hnone, Option.none_or]
    · rw [Option.or_none]

/-- What the binding of native functions, under certain names, does to an environment. -/
structure Binds (names : List String) (env env' : Environment) : Prop where
  /-- Every name has a value in the global frame. -/
  installed : ∀ name ∈ names, env'.Installed name
  /-- What was bound before, in any frame, still has its value. -/
  kept : ∀ frame a v, env.local? frame a = some v → env'.local? frame a = some v
  /-- What was not is bound in the global frame, under one of the names, to the native function
      of that name. -/
  added : ∀ frame a v, env.local? frame a = none → env'.local? frame a = some v →
    frame = .global ∧ ∃ name ∈ names, env'.symbols.get? name = some a ∧ v = .native name
  symbols : env'.symbols = env.symbols.internAll names
  size : env'.frames.size = env.frames.size
  pinned : env'.pinned = env.pinned

/-- Installing no name changes nothing. -/
private theorem binds_nil (env : Environment) : Binds [] env env where
  installed := List.forall_mem_nil _
  kept _ _ _ h := h
  added _ _ _ hnone hsome := by rw [hnone] at hsome; cases hsome
  symbols := rfl
  size := rfl
  pinned := rfl

/-- Installing a name binds it in the global frame, unless it is bound there. -/
private theorem binds_installName {env : Environment} (h : env.Live .global) (name : String) :
    Binds [name] env (Registry.installName env name) where
  installed := by
    have hget : (Registry.installName env name).symbols.get? name = some (env.intern name).1 := by
      rw [symbols_installName]
      exact SymbolTable.get?_intern env.symbols name
    refine List.forall_mem_singleton.mpr ⟨_, hget, ?_⟩
    rw [bindsLocally, local?_installName h, if_pos ⟨rfl, rfl⟩]
    simp
  kept frame a v hv := by rw [local?_installName h, hv, Option.some_or]
  added frame a v hnone hv := by
    rw [local?_installName h, hnone, Option.none_or] at hv
    split at hv
    · rename_i hhere
      refine ⟨hhere.1, name, List.mem_cons_self, ?_, (Option.some.inj hv).symm⟩
      rw [symbols_installName, hhere.2]
      exact SymbolTable.get?_intern env.symbols name
    · cases hv
  symbols := symbols_installName env name
  size := (frames_installName env name).1
  pinned := (frames_installName env name).2

/-- Installing some names and then others binds all of them. -/
private theorem Binds.trans {names others : List String} {env env' env'' : Environment}
    (h : Binds names env env') (h' : Binds others env' env'') :
    Binds (names ++ others) env env'' where
  installed := by
    refine List.forall_mem_append.mpr ⟨fun name hname => ?_, h'.installed⟩
    -- What the first names are bound to is kept by the others.
    obtain ⟨a, ha, hbinds⟩ := h.installed name hname
    obtain ⟨v, hv⟩ := Option.isSome_iff_exists.mp hbinds
    refine ⟨a, ?_, Option.isSome_iff_exists.mpr ⟨v, h'.kept _ _ _ hv⟩⟩
    rw [h'.symbols]
    exact SymbolTable.get?_internAll_of_get? ha others
  kept frame a v hv := h'.kept _ _ _ (h.kept _ _ _ hv)
  added frame a v hnone hv := by
    -- What is new at the end is new in the middle, or new since then.
    cases hmiddle : env'.local? frame a with
    | some w =>
      rw [h'.kept _ _ _ hmiddle] at hv
      cases hv
      obtain ⟨hframe, name, hname, hget, hnative⟩ := h.added _ _ _ hnone hmiddle
      refine ⟨hframe, name, List.mem_append_left _ hname, ?_, hnative⟩
      rw [h'.symbols]
      exact SymbolTable.get?_internAll_of_get? hget others
    | none =>
      obtain ⟨hframe, name, hname, hrest⟩ := h'.added _ _ _ hmiddle hv
      exact ⟨hframe, name, List.mem_append_right _ hname, hrest⟩
  symbols := by rw [h'.symbols, h.symbols, SymbolTable.internAll_append]
  size := h'.size.trans h.size
  pinned := h'.pinned.trans h.pinned

/-- The names of a registry are bound where they are free, and nothing else happens. -/
theorem binds_install {env : Environment} (h : env.Live .global) (registry : Registry) :
    Binds registry.names env (registry.install env) := by
  unfold Registry.install
  generalize registry.names = names
  induction names generalizing env with
  | nil => exact binds_nil env
  | cons name names ih =>
    have hfirst := binds_installName h name
    -- The global frame is still there for the other names.
    have hlive : (Registry.installName env name).Live .global := by
      rw [Live, hfirst.size]
      exact h
    exact hfirst.trans (ih hlive)

/-- Binding the names of a registry again changes nothing. -/
private theorem install_install {env : Environment} (h : env.Live .global) (registry : Registry) :
    registry.install (registry.install env) = registry.install env :=
  install_of_installed (binds_install h registry).installed

end Environment

/-! ### Registries -/

namespace Registry

/-- Binding native functions makes no frames and marks none. -/
theorem frames_install (registry : Registry) (env : Environment) :
    (registry.install env).frames.size = env.frames.size ∧
      (registry.install env).pinned = env.pinned := by
  unfold install
  induction registry.names generalizing env with
  | nil => exact ⟨rfl, rfl⟩
  | cons name names ih =>
    rw [List.foldl_cons, (ih _).1, (ih _).2]
    exact env.frames_installName name

/-- The registry holds what was registered last under each name, in the order of the names. -/
structure Holds (registry : Registry) (natives : List Native) : Prop where
  ordered : registry.names.Pairwise (· < ·)
  mem_names : ∀ name, name ∈ registry.names ↔ ∃ native ∈ natives, native.name = name
  contains : ∀ name, registry.contains name = (lastNamed? natives name).isSome
  arity? : ∀ name, registry.arity? name = (lastNamed? natives name).map Native.arity
  invoke : ∀ name args frame s, registry.invoke name args frame s =
    match lastNamed? natives name with
    | none => .error (.unbound name) s
    | some native =>
      if native.arity.accepts args.length then native.run args frame s
      else .error (.arity name native.arity args.length) s

/-- A registry holds the natives of the sequence it is built from, the last one under each name. -/
private theorem holds_ofList (natives : List Native) : (ofList natives).Holds natives where
  ordered := (ordered_ofList natives).pairwise_names
  mem_names name := by
    rw [mem_names_iff, Registry.contains, find?_ofList]
    simp [lastNamed?]
  contains name := by rw [Registry.contains, find?_ofList]
  arity? name := by rw [Registry.arity?, find?_ofList]
  invoke name args frame s := by
    unfold Registry.invoke
    cases h : lastNamed? natives name with
    | none => simp only [find?_ofList, h]
    | some native => simp only [find?_ofList, h]

/-- Two sequences with the same last native under each name build the same registry. -/
private theorem ofList_eq {natives others : List Native}
    (h : ∀ name, lastNamed? natives name = lastNamed? others name) :
    ofList natives = ofList others := by
  refine (ordered_ofList natives).ext (ordered_ofList others) fun name => ?_
  rw [find?_ofList, find?_ofList, h]

end Registry

/-! ### Evaluations -/

/-- An evaluation is the same if the native functions are bound before it. -/
theorem Interpreter.evaluate_after_install (interpreter : Interpreter) {env : Environment}
    (h : env.Live .global) (text : String) :
    interpreter.evaluate (interpreter.registry.install env) text =
      interpreter.evaluate env text := by
  unfold Interpreter.evaluate
  rw [Environment.install_install h]

namespace Registry

/-- The native functions are bound once. In an environment with its global frame every name of
    the registry is bound afterwards, what was bound before keeps its value, only free names are
    bound anew, each to the function of that name, and binding them all again changes nothing. Of
    the functions that were registered only the last one of each name counts: registries that
    agree on it are the same, and so is all that they do. A text is evaluated alike in a fresh
    environment, given or not, and in one where the native functions are bound already. -/
theorem bound_once_in_any_order :
    (∀ (registry : Registry) (env : Environment), env.Live .global →
      env.Binds registry.names (registry.install env) ∧
      registry.install (registry.install env) = registry.install env) ∧
    (∀ natives : List Native, (ofList natives).Holds natives) ∧
    (∀ natives others : List Native, (∀ name, lastNamed? natives name = lastNamed? others name) →
      ofList natives = ofList others) ∧
    ∀ (interpreter : Interpreter) (text : String),
      interpreter.evaluateIn (some .new) text = interpreter.evaluateIn none text ∧
      interpreter.evaluateIn (some interpreter.environment) text =
        interpreter.evaluateIn none text := by
  refine ⟨fun registry env henv => ?_, holds_ofList, fun _ _ => ofList_eq,
    fun interpreter text => ⟨rfl, ?_⟩⟩
  -- The parts are those of the installation and of the registry; what is left compares an
  -- interpreter's environments.
  · exact ⟨Environment.binds_install henv registry, Environment.install_install henv registry⟩
  · have hlive : Environment.new.Live .global := Nat.one_pos
    exact interpreter.evaluate_after_install hlive text

/-- A user's own `car` stays, and of two functions of one name the second counts. -/
theorem bound_once_in_any_order_shadowed :
    let car := (Environment.new.intern "car").1
    let env := (Environment.new.intern "car").2.define .global car (.string "mine")
    let f : Native := ⟨"f", .atLeast 0, Standard.computing Standard.list⟩
    let f' : Native := ⟨"f", .oneOf [1], Standard.computing Standard.car⟩
    let g : Native := ⟨"g", .oneOf [1], Standard.computing Standard.cdr⟩
    (Standard.registry.install env).local? .global car = some (.string "mine") ∧
      ofList [f, g, f'] = ofList [f', g] := by
  intro car env f f' g
  obtain ⟨hinstall, -, hsame, -⟩ := bound_once_in_any_order
  have hlive : env.Live .global := Nat.one_pos
  have hmine : env.local? .global car = some (.string "mine") := by
    have hfresh : (Environment.new.intern "car").2.Live .global := Nat.one_pos
    rw [Environment.local?_define hfresh, if_pos ⟨rfl, rfl⟩]
  refine ⟨(hinstall Standard.registry env hlive).1.kept _ _ _ hmine, hsame _ _ fun name => ?_⟩
  by_cases hf : name = "f"
  · rw [hf]
    rfl
  · -- Under the other names the two sequences are the same.
    simp [lastNamed?, List.filter_cons, f, f', Ne.symm hf]

end Registry

end LispSession
