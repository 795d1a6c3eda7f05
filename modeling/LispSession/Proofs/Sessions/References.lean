import LispSession.Proofs.Machine.Moments
import LispSession.Proofs.Machine.Registered
import LispSession.Proofs.Sessions.Alike

/-!
# References never go stale

Symbols are places in a table and native functions are referred to by name, so both could in
principle lead nowhere. At every moment of every session each symbol that occurs anywhere has
its name in the table and each reference to a native function its function in the registry.
The table only ever grows at its end, so that a value has the same text as long as the session
lasts.

* `Moment.known_step`        the symbols that occur are those of names in the table
* `Moment.registered_step`   the references name functions of the registry
* `Moment.names_step`        the table grows at its end
* `Moment.references_valid`  all of it, at every moment of every session
-/

namespace LispSession

namespace Moment

/-! ### What occurs at a moment -/

/-- The symbols that are known. -/
def table (p : Moment) : SymbolTable := p.env.symbols

/-- The values in flight. -/
def inFlight : Moment → List Value
  | idle _ => []
  | busy m _ => m.values

/-- The values in flight and those that names are bound to. -/
def held (p : Moment) : List Value := p.inFlight ++ p.env.bindings.map Prod.snd

/-- All values, the parts of others among them. -/
def values (p : Moment) : List Value := p.held.flatMap Value.parts

/-- The symbols in what is or will be evaluated of the program. -/
def programSymbols : Moment → List Symbol
  | idle _ => []
  | busy m rest => m.control.symbols ++ (m.tasks.flatMap Task.symbols ++ Expr.symbolsOf rest)

/-- All symbols: those of the program, those that are bound, and those in values. -/
def symbols (p : Moment) : List Symbol :=
  p.programSymbols ++ (p.env.bindings.map Prod.fst ++ p.held.flatMap Value.symbols)

variable {config : Config} {p q : Moment}

/-! ### Symbols -/

/-- The symbols that occur are those of names in the table: what occurs is like itself. -/
def Known : Moment → Prop
  | idle env => env.Alike env
  | busy m rest => m.Alike #[] m ∧ List.Forall₂ (Expr.Alike (m.state.Same m.state)) rest rest

/-- The next statement has known symbols only. -/
private theorem known_next {s : State} {es : List Expr} (hs : s.env.Alike s.env)
    (hes : List.Forall₂ (Expr.Alike (s.Same s)) es es) : (next es s).Known := by
  have hstate : s.Alike #[] s := ⟨hs, by simp⟩
  cases hes with
  | nil => exact hs
  | cons he hes => exact ⟨⟨hstate, .eval he .global, .nil⟩, hes⟩

/-- The symbols of the environment are known at such a moment. -/
private theorem Known.env (h : p.Known) : p.env.Alike p.env := by
  cases p with
  | idle env => exact h
  | busy m rest => exact h.1.state.env

/-- What is read from a text is known once its names are. -/
private theorem alike_of_read {env : Environment} {text : String} {program : List Expr}
    (h : (Interpreter.ofConfig config).read env text = .ok program) :
    List.Forall₂ (Expr.Alike (((Interpreter.ofConfig config).prepare env text).Same
      ((Interpreter.ofConfig config).prepare env text))) program program := by
  have hread : readProgram ((Interpreter.ofConfig config).registry.install env).symbols text =
      ⟨.ok program, ((Interpreter.ofConfig config).prepare env text).symbols⟩ := by
    unfold Interpreter.read at h
    rw [← h]
    rfl
  exact readProgram_alike_self hread

/-- A step of a session keeps all symbols known. -/
theorem known_step (h : Step (Interpreter.ofConfig config) p q) (hp : p.Known) : q.Known := by
  cases h with
  | refused h => exact (Interpreter.prepare_alike config hp _).1
  | begun h => exact known_next (Interpreter.prepare_alike config hp _).1 (alike_of_read h)
  | step hstep rest =>
    -- The machine follows itself.
    have hfollow := Machine.step_alike (Interpreter.registry_context config) hp.1
    rw [hstep] at hfollow
    cases hfollow with
    | some hfollow =>
      exact ⟨hfollow.alike, Expr.Alike.mono_list (fun _ _ => hfollow.grown.same) hp.2⟩
  | valued v s rest => exact known_next (s := s.write _) hp.env hp.2
  | failed hfatal s rest => exact known_next hp.env hp.2
  | aborted hfatal s rest => exact hp.env

/-- All symbols that occur have another one to go with, if what occurs is like itself. -/
private theorem Known.matched (h : p.Known) : Matched (p.table.Same p.table) p.symbols := by
  have hbindings := h.env.matched
  have hbound : Matched (p.table.Same p.table) (p.env.bindings.map Prod.fst) := by
    refine List.forall_mem_map.mpr fun b hb => hbindings b hb b.1 List.mem_cons_self
  have hvalues : Matched (p.table.Same p.table)
      ((p.env.bindings.map Prod.snd).flatMap Value.symbols) := by
    -- A symbol of a value that is bound is a symbol of its binding.
    intro a ha
    obtain ⟨v, hv, ha⟩ := List.mem_flatMap.mp ha
    obtain ⟨b, hb, rfl⟩ := List.mem_map.mp hv
    exact hbindings b hb a (List.mem_cons_of_mem _ ha)
  unfold symbols held
  rw [List.flatMap_append]
  cases p with
  | idle env => exact Matched.nil.append (hbound.append (Matched.nil.append hvalues))
  | busy m rest =>
    obtain ⟨⟨_, hcontrol, htasks⟩, hrest⟩ := h
    have hflight := hcontrol.matched.2.append (Task.Alike.matched_list htasks).2
    rw [← List.flatMap_append] at hflight
    have hprogram := hcontrol.matched.1.append
      ((Task.Alike.matched_list htasks).1.append (Expr.Alike.matched_list hrest))
    exact hprogram.append (hbound.append (hflight.append hvalues))

/-- A symbol that occurs is one of the table, which has its name. -/
private theorem Known.name?_eq (h : p.Known) {a : Symbol} (ha : a ∈ p.symbols) :
    a.index < p.table.size ∧ p.table.name? a = some (p.table.nameOf a) := by
  obtain ⟨_, name, hname, _⟩ := h.matched a ha
  have hname' := SymbolTable.name?_of_get? hname
  refine ⟨(Array.getElem?_eq_some_iff.mp hname').1, ?_⟩
  rw [SymbolTable.nameOf, hname', Option.getD_some]

/-! ### Native functions -/

/-- The references in all values name functions of the registry. -/
def Registered : Moment → Prop
  | idle env => env.Registered
  | busy m _ => m.Registered

/-- The next statement brings no native. -/
private theorem registered_next {s : State} (h : s.env.Registered) (es : List Expr) :
    (next es s).Registered := by
  cases es with
  | nil => exact h
  | cons e es => exact ⟨h, List.forall_mem_nil _, List.forall_mem_nil _⟩

/-- The natives of the environment are registered at such a moment. -/
private theorem Registered.env (h : p.Registered) : p.env.Registered := by
  cases p with
  | idle env => exact h
  | busy m rest => exact Machine.Registered.env h

/-- Preparing a text binds registered natives only. -/
private theorem registered_prepare {env : Environment} (h : env.Registered) (text : String) :
    ((Interpreter.ofConfig config).prepare env text).Registered := by
  have hregistry : (Interpreter.ofConfig config).registry = Standard.registry := rfl
  unfold Interpreter.prepare
  rw [hregistry]
  exact h.install.withSymbols _

/-- A step of a session keeps all natives registered. -/
theorem registered_step (h : Step (Interpreter.ofConfig config) p q) (hp : p.Registered) :
    q.Registered := by
  cases h with
  | refused h => exact registered_prepare hp.env _
  | begun h => exact registered_next (s := ⟨_, #[]⟩) (registered_prepare hp.env _) _
  | step hstep rest =>
    exact Machine.registered_step (Interpreter.registry_context config) hp hstep
  | valued v s rest => exact registered_next (s := s.write _) hp.env rest
  | failed hfatal s rest => exact registered_next hp.env rest
  | aborted hfatal s rest => exact hp.env

/-- The natives of all values that are held are registered. -/
private theorem Registered.held (h : p.Registered) : ∀ v ∈ p.held, v.Registered := by
  refine List.forall_mem_append.mpr ⟨?_, List.forall_mem_map.mpr h.env⟩
  cases p with
  | idle env => exact List.forall_mem_nil _
  | busy m rest =>
    refine List.forall_mem_append.mpr ⟨Machine.Registered.control h, fun v hv => ?_⟩
    obtain ⟨task, htask, hv⟩ := List.mem_flatMap.mp hv
    exact Machine.Registered.tasks h task htask v hv

/-! ### Growth -/

/-- The table starts with certain names. -/
private theorem stable_names (names : List String) :
    Environment.Stable fun env => names <+: env.symbols.names.toList where
  intern env name h := h.trans (env.symbols.names_isPrefix_intern name)
  extend _ _ h := h
  release _ _ h := h
  define _ _ _ _ h := h
  capture _ _ h := h

/-- Preparing a text adds names at the end of the table. -/
private theorem names_prepare (env : Environment) (text : String) : env.symbols.names.toList <+:
    ((Interpreter.ofConfig config).prepare env text).symbols.names.toList := by
  have hinstall := (stable_names env.symbols.names.toList).install
    (List.prefix_refl _) Standard.registry
  obtain ⟨names, hnames⟩ :=
    exists_names_readProgram (Standard.registry.install env).symbols text
  have hread := (stable_names env.symbols.names.toList).withNames hinstall names
  rw [← hnames] at hread
  exact hread

/-- A step of a session adds names at the end of the table, if it adds any. -/
theorem names_step (h : Step (Interpreter.ofConfig config) p q) :
    p.table.names.toList <+: q.table.names.toList := by
  cases h with
  | refused h => exact names_prepare _ _
  | begun h =>
    unfold table
    rw [env_next]
    exact names_prepare _ _
  | @step m m' hstep rest =>
    exact Machine.stable_step (stable_names m.state.env.symbols.names.toList)
      (Interpreter.registry_context config) m m' (List.prefix_refl _) hstep
  | valued v s rest =>
    unfold table
    rw [env_next]
    exact List.prefix_refl _
  | failed hfatal s rest =>
    unfold table
    rw [env_next]
    exact List.prefix_refl _
  | aborted hfatal s rest => exact List.prefix_refl _

/-- A run of a session adds names at the end of the table. -/
private theorem Run.names (h : Run (Interpreter.ofConfig config) p q) :
    p.table.names.toList <+: q.table.names.toList := by
  induction h with
  | refl => exact List.prefix_refl _
  | tail _ hlast ih => exact ih.trans (names_step hlast)

/-! ### Sessions -/

/-- No reference leads nowhere. -/
structure Sound (p : Moment) : Prop where
  /-- Every symbol is one of the table, which has its name. -/
  symbols : ∀ a ∈ p.symbols, a.index < p.table.size ∧ p.table.name? a = some (p.table.nameOf a)
  /-- Every native function is found when it is called. -/
  natives : ∀ name, .native name ∈ p.values →
    ∃ native, Standard.registry.find? name = some native ∧
      ∀ args frame s, Standard.registry.invoke name args frame s =
        if native.arity.accepts args.length then native.run args frame s
        else .error (.arity name native.arity args.length) s

/-- The second moment has the names of the first one, with the same symbols, and the values of
    the first one have the same text at both. -/
structure Precedes (p q : Moment) : Prop where
  names : p.table.names.toList <+: q.table.names.toList
  render : ∀ v ∈ p.values, v.render q.table = v.render p.table

/-- Names keep their places when others come after them. -/
private theorem nameOf_eq_of_names {t u : SymbolTable} (h : t.names.toList <+: u.names.toList)
    {a : Symbol} (ha : a.index < t.size) : t.nameOf a = u.nameOf a := by
  have hlength : a.index < t.names.toList.length := by simpa [SymbolTable.size] using ha
  obtain ⟨more, hmore⟩ := h
  have hname : t.name? a = u.name? a := by
    unfold SymbolTable.name?
    rw [← Array.getElem?_toList, ← Array.getElem?_toList, ← hmore,
      List.getElem?_append_left hlength]
  rw [SymbolTable.nameOf, hname, SymbolTable.nameOf]

/-- At a moment with known symbols and registered natives every reference is valid. -/
private theorem sound_of_known (hknown : p.Known) (hregistered : p.Registered) : p.Sound where
  symbols a ha := hknown.name?_eq ha
  -- A native in a part of a value is one that the value holds.
  natives name hname := by
    obtain ⟨v, hv, hname⟩ := List.mem_flatMap.mp hname
    obtain ⟨native, hfind⟩ := (hregistered.held v hv).of_mem_parts hname
    refine ⟨native, hfind, fun args frame s => ?_⟩
    rw [Registry.invoke, hfind]

/-- What a moment holds has the same text later, since the table has only grown at its end. -/
private theorem precedes_of_known (hknown : p.Known) (hnames : p.table.names.toList <+:
    q.table.names.toList) : p.Precedes q where
  names := hnames
  -- The text of a value depends on the names of its own symbols only.
  render v hv := by
    obtain ⟨w, hw, hv⟩ := List.mem_flatMap.mp hv
    refine (Value.render_congr fun a ha => nameOf_eq_of_names hnames ?_).symm
    have hmem : a ∈ p.held.flatMap Value.symbols :=
      List.mem_flatMap.mpr ⟨w, hw, Value.symbols_subset_of_mem_parts hv ha⟩
    exact (hknown.name?_eq (List.mem_append_right _ (List.mem_append_right _ hmem))).1

/-- At every moment of a session from a fresh environment, with the native functions bound or
    not, no reference leads nowhere; and at every later moment the names and the texts of values
    are still the same. -/
theorem references_valid (config : Config) {env : Environment}
    (henv : env = .new ∨ env = (Interpreter.ofConfig config).environment) {p : Moment}
    (hp : Run (Interpreter.ofConfig config) (idle env) p) :
    p.Sound ∧ ∀ q, Run (Interpreter.ofConfig config) p q → p.Precedes q := by
  -- Both environments to start from have known symbols and registered natives.
  have hstart : env.Alike env ∧ env.Registered := by
    rcases henv with henv | henv
    · rw [henv]
      exact ⟨Environment.alike_new, Environment.registered_new⟩
    · have hregistry : (Interpreter.ofConfig config).registry = Standard.registry := rfl
      rw [henv, Interpreter.environment, hregistry]
      exact ⟨Environment.alike_new.install Standard.registry, Environment.registered_new.install⟩
  have hknown : p.Known := hp.preserves (fun _ _ h hstep => known_step hstep h) hstart.1
  have hregistered : p.Registered :=
    hp.preserves (fun _ _ h hstep => registered_step hstep h) hstart.2
  exact ⟨sound_of_known hknown hregistered, fun q hq => precedes_of_known hknown hq.names⟩

/-- After a text that ends early and one that fails: a function is bound that refers to a native
    function and holds symbols of its own. -/
theorem references_valid_after_failures :
    let env := (Interpreter.ofConfig .default).envAfter
      ["(define (f x) (list 'a x car))", "(f b", "(define p (f 1)) (car c)"]
    Run (Interpreter.ofConfig .default) (idle .new) (idle env) ∧ (idle env).Sound ∧
      ∀ q, Run (Interpreter.ofConfig .default) (idle env) q → (idle env).Precedes q :=
  ⟨run_envAfter _, references_valid .default (.inl rfl) (run_envAfter _)⟩

end Moment

end LispSession
