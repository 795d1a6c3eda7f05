import LispSession.Proofs.Machine.Handed

/-!
# References to native functions

A value refers to a native function by its name. Such references are made where the registry
binds its names, and nowhere else: programs cannot write them down, and all that evaluation
and the native functions do is to hand them on. So each of them names a function of the
registry, in bindings as well as in flight.

* `Value.Registered`         the references in a value name functions of the registry
* `Environment.Registered`   the bindings hold such values
* `Machine.registered_step`  one step of the machine keeps them
-/

namespace LispSession

/-- The references in a value name functions of the registry. -/
def Value.Registered : Value → Prop
  | .pair car cdr => car.Registered ∧ cdr.Registered
  | .native name => ∃ native, Standard.registry.find? name = some native
  | _ => True

/-- Only references to native functions matter. -/
private theorem Value.registered_iff {v : Value} : v.Registered ↔ v.Functions Value.Registered := by
  induction v with
  | pair car cdr hcar hcdr => exact and_congr hcar hcdr
  | _ => exact Iff.rfl

/-- The parts of a registered value are registered. -/
theorem Value.Registered.of_mem_parts {v w : Value} (h : v.Registered) (hw : w ∈ v.parts) :
    w.Registered := registered_iff.mpr ((registered_iff.mp h).of_mem_parts hw)

namespace Environment

/-- The references in the bindings name functions of the registry. -/
def Registered (env : Environment) : Prop := ∀ b ∈ env.bindings, b.2.Registered

/-- An environment is registered when the natives of all its values are. -/
private theorem registered_iff {env : Environment} :
    env.Registered ↔ env.Functions Value.Registered :=
  forall₂_congr fun _ _ => Value.registered_iff

/-- A new environment is registered. -/
theorem registered_new : Environment.new.Registered := registered_iff.mpr functions_new

namespace Registered

variable {env : Environment}

/-- Registration does not look at the symbol table. -/
theorem withSymbols (h : env.Registered) (table : SymbolTable) :
    Registered { env with symbols := table } := h

/-- The registry binds names of its functions only. -/
theorem install (h : env.Registered) : (Standard.registry.install env).Registered := by
  refine registered_iff.mpr ((registered_iff.mp h).install fun name hname => ?_)
  obtain ⟨native, hnative, rfl⟩ := List.mem_map.mp hname
  exact Option.isSome_iff_exists.mp (List.find?_isSome.mpr ⟨native, hnative, beq_self_eq_true _⟩)

end Registered

end Environment

/-- The references in the values that a task holds name functions of the registry. -/
def Task.Registered (task : Task) : Prop := ∀ v ∈ task.values, v.Registered

namespace Machine

/-- The references in all values, bound or in flight, name functions of the registry. -/
structure Registered (m : Machine) : Prop where
  env : m.state.env.Registered
  control : ∀ v ∈ m.control.values, v.Registered
  tasks : ∀ task ∈ m.tasks, task.Registered

/-- A machine is registered when the natives of all values in it are. -/
private theorem registered_iff {m : Machine} : m.Registered ↔ m.Functions Value.Registered := by
  have hvalues : ∀ vs : List Value,
      (∀ v ∈ vs, v.Registered) ↔ ∀ v ∈ vs, v.Functions Value.Registered :=
    fun _ => forall₂_congr fun _ _ => Value.registered_iff
  constructor
  · rintro ⟨henv, hcontrol, htasks⟩
    exact ⟨Environment.registered_iff.mp henv, (hvalues _).mp hcontrol,
      fun task htask => (hvalues _).mp (htasks task htask)⟩
  · rintro ⟨henv, hcontrol, htasks⟩
    exact ⟨Environment.registered_iff.mpr henv, (hvalues _).mpr hcontrol,
      fun task htask => (hvalues _).mpr (htasks task htask)⟩

/-- One step of the machine keeps the references. -/
theorem registered_step {cx : Context} (hcx : cx.registry = Standard.registry) {m m' : Machine}
    (h : m.Registered) (hstep : m.step cx = some m') : m'.Registered :=
  registered_iff.mpr (functions_step hcx (registered_iff.mp h) (fun _ _ _ => trivial) hstep)

end Machine

end LispSession
