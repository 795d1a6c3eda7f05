import LispSession.Proofs.Frames.Closures
import LispSession.Proofs.Natives.Registration

/-!
# Native functions and frames

The standard native functions neither read nor change the frames: what they do with
arguments whose closures refer to other frames is the same, with the closures of the
result moved along.

* `Frameless`          a native function that knows nothing of frames
* `frameless_natives`  the standard functions are of that kind
* `invoke_env`, `invoke_relocate`, `below_of_invoke`  the same for calls by name
-/

namespace LispSession

/-- The outcome with its closures moved, in another environment. -/
def Outcome.relocate (r : Nat → Nat) (env : Environment) : Outcome Value → Outcome Value
  | .value v s => .value (v.relocate r) { s with env := env }
  | .error e s => .error e { s with env := env }

/-- A native function that leaves the environment as it is, and that does the same in
    every environment with the same symbols, wherever its arguments' closures were
    created. -/
structure NativeFn.Frameless (run : NativeFn) : Prop where
  env_eq : ∀ args frame s, (run args frame s).state.env = s.env
  relocate : ∀ (r : Nat → Nat) args frame s frame' (env : Environment),
    env.symbols = s.env.symbols →
      run (args.map (Value.relocate r)) frame' { s with env := env } =
        (run args frame s).relocate r env

namespace Standard

variable (r : Nat → Nat)

/-- A function of its arguments alone is frameless if moving the closures of the
    arguments moves those of the result. -/
private theorem frameless_computing {f : List Value → Except EvalError Value}
    (hf : ∀ r args, f (args.map (Value.relocate r)) = (f args).map (Value.relocate r)) :
    NativeFn.Frameless (computing f) where
  env_eq args frame s := by simp only [computing, Outcome.state_ofExcept]
  relocate r args frame s frame' env _ := by
    simp only [computing, hf]
    cases f args <;> rfl

/-! ### Arguments -/

/-- Which number a value is does not depend on where frames are. -/
@[simp] theorem number_relocate (native : String) (v : Value) :
    number native (v.relocate r) = number native v := by
  cases v <;> rfl

/-- Which numbers the arguments are does not depend on where frames are. -/
@[simp] theorem numbers_relocate (native : String) (args : List Value) :
    numbers native (args.map (Value.relocate r)) = numbers native args := by
  induction args with
  | nil => rfl
  | cons arg args ih => simp only [List.map_cons, numbers, number_relocate, ih]

/-- The only argument is moved as all are. -/
@[simp] theorem one_relocate (native : String) (args : List Value) :
    one native (args.map (Value.relocate r)) = (one native args).map (Value.relocate r) := by
  match args with
  | [] => rfl
  | [a] => rfl
  | a :: b :: rest => simp [one, Except.map]

/-- Which two numbers the arguments are does not depend on where frames are. -/
@[simp] theorem twoNumbers_relocate (native : String) (args : List Value) :
    twoNumbers native (args.map (Value.relocate r)) = twoNumbers native args := by
  match args with
  | [] => rfl
  | [a] => rfl
  | [a, b] => simp [twoNumbers]
  | a :: b :: c :: rest => simp [twoNumbers]

/-! ### Arithmetic and comparison -/

/-- A result without closures moves nowhere. -/
private theorem map_relocate_map {α : Type} (x : Except EvalError α) (f : α → Value)
    (hf : ∀ a, (f a).relocate r = f a) : (x.map f).map (Value.relocate r) = x.map f := by
  cases x with
  | error e => rfl
  | ok a => simp only [Except.map, hf]

/-- A sum does not depend on where frames are. -/
private theorem add_relocate (args : List Value) :
    add (args.map (Value.relocate r)) = (add args).map (Value.relocate r) := by
  simp only [add, numbers_relocate]
  exact (map_relocate_map r _ _ fun _ => rfl).symm

/-- A product does not depend on where frames are. -/
private theorem multiply_relocate (args : List Value) :
    multiply (args.map (Value.relocate r)) = (multiply args).map (Value.relocate r) := by
  simp only [multiply, numbers_relocate]
  exact (map_relocate_map r _ _ fun _ => rfl).symm

/-- A difference does not depend on where frames are. -/
private theorem subtract_relocate (args : List Value) :
    subtract (args.map (Value.relocate r)) = (subtract args).map (Value.relocate r) := by
  -- With one argument it is negated, with two they are subtracted.
  match args with
  | [] => rfl
  | [a] =>
    simp only [List.map_cons, List.map_nil, subtract, number_relocate]
    exact (map_relocate_map r _ _ fun _ => rfl).symm
  | a :: b :: rest =>
    have htwo := twoNumbers_relocate r "-" (a :: b :: rest)
    simp only [List.map_cons] at htwo
    simp only [List.map_cons, subtract, htwo]
    exact (map_relocate_map r _ _ fun _ => rfl).symm

/-- Nor do a quotient and a remainder. -/
private theorem dividing_relocate (native : String) (f : Float → Float → Float)
    (args : List Value) : dividing native f (args.map (Value.relocate r)) =
      (dividing native f args).map (Value.relocate r) := by
  simp only [dividing, twoNumbers_relocate]
  split
  · rfl
  · split <;> rfl

/-- Nor does a comparison of numbers. -/
private theorem comparing_relocate (native : String) (holds : Float → Float → Bool)
    (args : List Value) :
    comparing native holds (args.map (Value.relocate r)) =
      (comparing native holds args).map (Value.relocate r) := by
  simp only [comparing, twoNumbers_relocate]
  exact (map_relocate_map r _ _ fun _ => rfl).symm

/-! ### Equality and connectives -/

/-- Whether a value can be compared does not depend on where frames are. -/
@[simp] theorem isIncomparable_relocate (v : Value) :
    isIncomparable (v.relocate r) = isIncomparable v := by
  simp only [isIncomparable, Value.isCallable_relocate, Value.type_relocate]

/-- A comparable value is an atom, which refers to no frame. -/
private theorem relocate_of_comparable {v : Value} (h : isIncomparable v = false) :
    v.relocate r = v := by
  cases v with
  | pair car cdr => simp [isIncomparable, Value.type] at h
  | closure fn frame => simp [isIncomparable, Value.isCallable] at h
  | _ => rfl

/-- The first argument that cannot be compared is found at the same place. -/
private theorem find?_isIncomparable_relocate (args : List Value) :
    (args.map (Value.relocate r)).find? isIncomparable =
      (args.find? isIncomparable).map (Value.relocate r) := by
  induction args with
  | nil => rfl
  | cons arg args ih =>
    simp only [List.map_cons, List.find?_cons, isIncomparable_relocate, ih]
    cases isIncomparable arg <;> rfl

/-- Equality does not depend on where frames are. -/
private theorem equal_relocate (args : List Value) :
    equal (args.map (Value.relocate r)) = (equal args).map (Value.relocate r) := by
  simp only [equal, find?_isIncomparable_relocate]
  cases h : args.find? isIncomparable with
  | some bad => simp only [Option.map_some, Value.type_relocate]; rfl
  | none =>
    -- Arguments that can all be compared are atoms.
    have hatoms : args.map (Value.relocate r) = args := by
      rw [List.find?_eq_none] at h
      have hid : ∀ v ∈ args, v.relocate r = id v := fun v hv =>
        relocate_of_comparable r (by simpa using h v hv)
      rw [List.map_congr_left hid, List.map_id]
    simp only [Option.map_none, hatoms]
    rfl

/-- Whether all arguments count as true does not depend on where frames are. -/
private theorem allTruthy_relocate (args : List Value) :
    allTruthy (args.map (Value.relocate r)) = (allTruthy args).map (Value.relocate r) := by
  simp [allTruthy, Except.map, Value.relocate, List.all_map, Function.comp_def]

/-- Nor does whether one of them does. -/
private theorem anyTruthy_relocate (args : List Value) :
    anyTruthy (args.map (Value.relocate r)) = (anyTruthy args).map (Value.relocate r) := by
  simp [anyTruthy, Except.map, Value.relocate, List.any_map, Function.comp_def]

/-! ### Lists and tests -/

/-- A list is moved item by item. -/
private theorem list_relocate (args : List Value) :
    list (args.map (Value.relocate r)) = (list args).map (Value.relocate r) := by
  simp only [list, Value.ofList_relocate, Except.map]

/-- The first part of a pair is moved with the pair. -/
private theorem car_relocate (args : List Value) :
    car (args.map (Value.relocate r)) = (car args).map (Value.relocate r) := by
  simp only [car, one_relocate]
  cases one "car" args with
  | error e => rfl
  | ok v => cases v <;> rfl

/-- The second part of a pair is moved with the pair. -/
private theorem cdr_relocate (args : List Value) :
    cdr (args.map (Value.relocate r)) = (cdr args).map (Value.relocate r) := by
  simp only [cdr, one_relocate]
  cases one "cdr" args with
  | error e => rfl
  | ok v => cases v <;> rfl

/-- A test that does not look at frames does not depend on where they are. -/
private theorem testing_relocate (native : String) {holds : Value → Bool}
    (hholds : ∀ r v, holds (Value.relocate r v) = holds v) (args : List Value) :
    testing native holds (args.map (Value.relocate r)) =
      (testing native holds args).map (Value.relocate r) := by
  simp only [testing, one_relocate]
  cases one native args with
  | error e => rfl
  | ok v => simp only [Except.map, hholds, Value.relocate]

/-- Printing does not depend on where frames are, since no frame is shown. -/
private theorem frameless_print : NativeFn.Frameless print where
  env_eq args frame s := rfl
  relocate r args frame s frame' env hsymbols := by
    have htexts : (args.map (Value.relocate r)).map (State.render { s with env := env }) =
        args.map s.render := by
      rw [List.map_map]
      refine List.map_congr_left fun v _ => ?_
      simp only [Function.comp_apply, State.render, Value.render_relocate, hsymbols]
    simp only [print, htexts]
    rfl

/-! ### The registry -/

/-- All standard native functions are frameless. -/
theorem frameless_natives {native : Native} (h : native ∈ natives) :
    NativeFn.Frameless native.run := by
  -- One case for each function, in the order of the list.
  simp only [natives, List.mem_cons, List.not_mem_nil, or_false] at h
  rcases h with rfl | rfl | rfl | rfl | rfl | rfl | rfl | rfl | rfl | rfl | rfl | rfl | rfl |
    rfl | rfl | rfl | rfl | rfl | rfl | rfl | rfl
  · exact frameless_computing add_relocate
  · exact frameless_computing subtract_relocate
  · exact frameless_computing multiply_relocate
  · exact frameless_computing fun r => dividing_relocate r _ _
  · exact frameless_computing fun r => dividing_relocate r _ _
  · exact frameless_computing equal_relocate
  · exact frameless_computing fun r => comparing_relocate r _ _
  · exact frameless_computing fun r => comparing_relocate r _ _
  · exact frameless_computing fun r => comparing_relocate r _ _
  · exact frameless_computing fun r => comparing_relocate r _ _
  · exact frameless_computing allTruthy_relocate
  · exact frameless_computing anyTruthy_relocate
  · exact frameless_print
  · exact frameless_computing list_relocate
  · exact frameless_computing car_relocate
  · exact frameless_computing cdr_relocate
  · exact frameless_computing fun r => testing_relocate r _ fun r v => by simp
  · exact frameless_computing fun r => testing_relocate r _ fun r v => by simp
  · exact frameless_computing fun r => testing_relocate r _ fun r v => by simp
  · exact frameless_computing fun r => testing_relocate r _ Value.isCallable_relocate
  · exact frameless_computing fun r => testing_relocate r _ fun r v => by simp [isList]

/-! ### Calls by name -/

/-- What the registry finds is a standard function. -/
private theorem frameless_find? {name : String} {native : Native}
    (h : registry.find? name = some native) : NativeFn.Frameless native.run :=
  frameless_natives (Registry.mem_ofList (List.mem_of_find?_eq_some h))

/-- A call of a native function leaves the environment as it is. -/
theorem invoke_env (name : String) (args : List Value) (frame : FrameId) (s : State) :
    (registry.invoke name args frame s).state.env = s.env := by
  simp only [Registry.invoke]
  split
  · rfl
  · rename_i native hfind
    split
    · exact (frameless_find? hfind).env_eq args frame s
    · rfl

/-- A call of a native function does the same wherever its arguments' closures were
    created. -/
theorem invoke_relocate (r : Nat → Nat) (name : String) (args : List Value)
    (frame frame' : FrameId) (s : State) (env : Environment)
    (hsymbols : env.symbols = s.env.symbols) :
    registry.invoke name (args.map (Value.relocate r)) frame' { s with env := env } =
      (registry.invoke name args frame s).relocate r env := by
  simp only [Registry.invoke, List.length_map]
  -- No native function of that name, a wrong number of arguments, or a call.
  split
  · rfl
  · rename_i native hfind
    split
    · exact (frameless_find? hfind).relocate r args frame s frame' env hsymbols
    · rfl

/-- The result of a native function refers to no other frames than its arguments. -/
theorem below_of_invoke {n : Nat} {name : String} {args : List Value} {frame : FrameId}
    {s s' : State} {v : Value} (hargs : ∀ arg ∈ args, arg.Below n)
    (h : registry.invoke name args frame s = .value v s') : v.Below n := by
  -- The arguments stay the same when all later frames are moved, and so does the result.
  have hid : ∀ arg ∈ args, arg.relocate (fun i => if i < n then i else i + 1) = id arg :=
    fun arg harg => Value.relocate_eq_of_below (hargs arg harg)
  have hmoved := invoke_relocate (fun i => if i < n then i else i + 1) name args frame frame s
    s.env rfl
  rw [List.map_congr_left hid, List.map_id, h] at hmoved
  simp only [Outcome.relocate, Outcome.value.injEq] at hmoved
  exact Value.below_of_relocate_eq hmoved.1.symm

end Standard

end LispSession
