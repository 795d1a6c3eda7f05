import LispSession.Eval.Outcome

/-! # Native functions

Functions that the host of a session provides. A registry holds them by name, in the
order of the names; registering a name again replaces what it stood for. The number of
arguments is checked before the function sees them.

* `find?_register`  what a registry holds after a registration -/

namespace LispSession

/-- What a native function does with its arguments, the frame it is called from, and the
    state. -/
abbrev NativeFn := List Value → FrameId → State → Outcome Value

/-- A native function under its name. -/
structure Native where
  name : String
  arity : Arity
  run : NativeFn

/-- Put a native function in its place among others that are ordered by name. -/
def insertNative (native : Native) : List Native → List Native
  | [] => [native]
  | other :: natives =>
    if native.name = other.name then native :: natives
    else if native.name < other.name then native :: other :: natives
    else other :: insertNative native natives

/-- Native functions, ordered by name. -/
structure Registry where
  natives : List Native

namespace Registry

/-- No functions at all. -/
def empty : Registry := ⟨[]⟩

/-- Add a function, in place of an earlier one of the same name. -/
def register (registry : Registry) (native : Native) : Registry :=
  ⟨insertNative native registry.natives⟩

/-- The functions, registered one after the other. -/
def ofList (natives : List Native) : Registry := natives.foldl register empty

/-- The function of a name. -/
def find? (registry : Registry) (name : String) : Option Native :=
  registry.natives.find? (·.name == name)

/-- The names, in order. -/
def names (registry : Registry) : List String := registry.natives.map (·.name)

/-- There is a function of this name. -/
def contains (registry : Registry) (name : String) : Bool := (registry.find? name).isSome

/-- The arity of the function of a name. -/
def arity? (registry : Registry) (name : String) : Option Arity :=
  (registry.find? name).map (·.arity)

/-- Bind a name to the native function of that name in the global frame, unless the name
    is bound there. -/
def installName (env : Environment) (name : String) : Environment :=
  let (symbol, env) := env.intern name
  if env.bindsLocally .global symbol then env else env.define .global symbol (.native name)

/-- Bind the names of all functions in the global frame, except those bound there. -/
def install (registry : Registry) (env : Environment) : Environment :=
  registry.names.foldl installName env

/-- Call the function of a name: check how many arguments there are, then run it. -/
def invoke (registry : Registry) (name : String) (args : List Value) (frame : FrameId)
    (s : State) : Outcome Value :=
  match registry.find? name with
  | none => .error (.unbound name) s
  | some native =>
    if native.arity.accepts args.length then native.run args frame s
    else .error (.arity name native.arity args.length) s

/-- Registering a native function replaces the one of that name, and no other. -/
theorem find?_register (registry : Registry) (native : Native) (name : String) :
    (registry.register native).find? name =
      if name = native.name then some native else registry.find? name := by
  obtain ⟨natives⟩ := registry
  simp only [register, find?]
  -- The functions stand in the order of their names: along the walk to the place of the new one.
  induction natives with
  | nil => grind [insertNative]
  | cons other natives ih => grind [insertNative]

end Registry

end LispSession
