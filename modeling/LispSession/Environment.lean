import LispSession.Value.Basic

/-! # Environments

The scopes of a session and the symbols they use. Every scope is a frame: the names that
are bound in it, and the frame around it. Frame 0 is the global one. The frames are kept
in the order in which they were made, so the frame around another one is always older
than that one, and a walk outward ends.

A closure refers to the frame it was created in. The environment marks how many frames
closures may refer to; the frames above the mark belong to calls and are dropped when
the call that made them is over.

* `Frame.get?_put`    what a frame binds after a binding is put into it
* `size_extend`       a new frame comes after all others
* `size_release`      what is left when frames are dropped -/

namespace LispSession

/-- The bindings of one scope, each name once, and the scope around it. -/
structure Frame where
  bindings : List (Symbol × Value)
  parent : Option FrameId

/-- Put a binding in the place of the one for the same name, or after all others. -/
def putBinding (name : Symbol) (value : Value) :
    List (Symbol × Value) → List (Symbol × Value)
  | [] => [(name, value)]
  | (other, old) :: bindings =>
    if other = name then (name, value) :: bindings
    else (other, old) :: putBinding name value bindings

namespace Frame

/-- The value that the frame itself binds to a name. -/
def get? (frame : Frame) (name : Symbol) : Option Value := frame.bindings.lookup name

/-- The frame itself binds a name. -/
def binds (frame : Frame) (name : Symbol) : Bool := (frame.get? name).isSome

/-- The frame with a name bound to a value. -/
def put (frame : Frame) (name : Symbol) (value : Value) : Frame :=
  { frame with bindings := putBinding name value frame.bindings }

/-- Putting a binding in a frame changes what that name stands for there, and nothing else. -/
theorem get?_put (frame : Frame) (name other : Symbol) (value : Value) :
    (frame.put name value).get? other =
      if other = name then some value else frame.get? other := by
  obtain ⟨bindings, parent⟩ := frame
  simp only [put, get?]
  -- The binding is put where the name has one already, or at the end.
  induction bindings with
  | nil =>
    rw [putBinding, List.lookup_cons]
    by_cases h : other = name
    · rw [if_pos h, beq_iff_eq.mpr h]
    · rw [if_neg h, beq_eq_false_iff_ne.mpr h]
  | cons b bindings ih => grind [putBinding]

end Frame

/-- The frames of a session, how many of them closures may refer to, and the symbols. -/
structure Environment where
  frames : Array Frame
  pinned : Nat
  symbols : SymbolTable

namespace Environment

/-- Nothing but an empty global frame. -/
def new : Environment := ⟨#[⟨[], none⟩], 1, .empty⟩

/-- The symbol for a name, and the environment that knows it. -/
def intern (env : Environment) (name : String) : Symbol × Environment :=
  let (symbol, symbols) := env.symbols.intern name
  (symbol, { env with symbols := symbols })

/-- A new frame inside another one. -/
def extend (env : Environment) (parent : FrameId) : FrameId × Environment :=
  (⟨env.frames.size⟩, { env with frames := env.frames.push ⟨[], some parent⟩ })

/-- Mark that a closure refers to a frame, so that it and all older ones are kept. -/
def capture (env : Environment) (frame : FrameId) : Environment :=
  { env with pinned := max env.pinned (frame.index + 1) }

/-- Drop a frame and all later ones, except those that closures may refer to. -/
def release (env : Environment) (frame : FrameId) : Environment :=
  { env with frames := env.frames.shrink (max frame.index env.pinned) }

/-- The innermost frame that binds a name, walking outward from the frame at a place. A
    parent that is not older than its frame is not followed. -/
def binderFrom? (env : Environment) (name : Symbol) (place : Nat) : Option FrameId :=
  match env.frames[place]? with
  | none => none
  | some frame =>
    if frame.binds name then some ⟨place⟩
    else
      match frame.parent with
      | none => none
      | some parent =>
        if parent.index < place then env.binderFrom? name parent.index else none
termination_by place

/-- The innermost frame that binds a name, walking outward from a frame. -/
def binder? (env : Environment) (frame : FrameId) (name : Symbol) : Option FrameId :=
  env.binderFrom? name frame.index

/-- The value that a frame itself binds to a name. -/
def local? (env : Environment) (frame : FrameId) (name : Symbol) : Option Value :=
  (env.frames[frame.index]?).bind (·.get? name)

/-- A frame itself binds a name. -/
def bindsLocally (env : Environment) (frame : FrameId) (name : Symbol) : Bool :=
  (env.local? frame name).isSome

/-- The value of a name, as seen from a frame. -/
def lookup? (env : Environment) (frame : FrameId) (name : Symbol) : Option Value :=
  (env.binder? frame name).bind (env.local? · name)

/-- Bind a name in a frame itself. -/
def define (env : Environment) (frame : FrameId) (name : Symbol) (value : Value) :
    Environment :=
  { env with frames := env.frames.modify frame.index (·.put name value) }

/-- Bind names in a frame to values, one by one in order. -/
def defineAll (env : Environment) (frame : FrameId) :
    List Symbol → List Value → Environment
  | name :: names, value :: values => (env.define frame name value).defineAll frame names values
  | _, _ => env

/-- Change the value of a name where it is bound, as seen from a frame. -/
def assign? (env : Environment) (frame : FrameId) (name : Symbol) (value : Value) :
    Option Environment :=
  (env.binder? frame name).map fun found => env.define found name value

/-- The value of a name in the global frame. A name that has never been met has none. -/
def get? (env : Environment) (name : String) : Option Value :=
  (env.symbols.get? name).bind (env.lookup? .global)

/-- The bindings of all frames together. -/
def bindingCount (env : Environment) : Nat :=
  env.frames.foldl (fun n frame => n + frame.bindings.length) 0

/-- A new frame comes after all others. -/
theorem size_extend (env : Environment) (parent : FrameId) :
    (env.extend parent).2.frames.size = env.frames.size + 1 := by
  simp [extend]

/-- Releasing a frame drops it and all later frames, but none below the mark. -/
theorem size_release (env : Environment) (frame : FrameId) :
    (env.release frame).frames.size = min (max frame.index env.pinned) env.frames.size := by
  simp [release]

/-- Binding a name makes no frame. -/
theorem size_define (env : Environment) (frame : FrameId) (name : Symbol) (value : Value) :
    (env.define frame name value).frames.size = env.frames.size := by
  simp [define]

end Environment

end LispSession
