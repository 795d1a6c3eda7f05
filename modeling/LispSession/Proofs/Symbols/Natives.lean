import LispSession.Native.Standard
import LispSession.Proofs.Frames.Natives
import LispSession.Proofs.Symbols.Environments

/-!
# Native functions and symbols

The standard native functions do not depend on which symbol stands for which name: alike
arguments give alike values, the same error and the same output.

* `State.Alike`, `Outcome.Alike`  states and outcomes with other symbols
* `Uniform`                       a native function that does not depend on symbols
* `uniform_natives`               the standard functions are of that kind
* `invoke_alike`                  the same for calls by name
-/

namespace LispSession

/-- States with alike environments, where the first one has written some lines before all
    lines of the second. -/
structure State.Alike (before : Array String) (s s' : State) : Prop where
  env : s.env.Alike s'.env
  output : s.output = before ++ s'.output

namespace State

/-- The symbols stand for the same name in the two states. -/
abbrev Same (s s' : State) : Symbol → Symbol → Prop := s.env.Same s'.env

/-- The same names have been interned on the way from two states to two others. -/
abbrev Grown (s s' r r' : State) : Prop :=
  SymbolTable.Grown s.env.symbols s'.env.symbols r.env.symbols r'.env.symbols

variable {before : Array String} {s s' : State}

/-- Symbols that belong together have one name in alike states. -/
theorem nameOf_eq {a a' : Symbol} (ha : s.Same s' a a') : s.nameOf a = s'.nameOf a' :=
  SymbolTable.Same.nameOf_eq ha

/-- Alike values have one text in alike states. -/
theorem render_eq {v v' : Value} (hv : v.Alike (s.Same s') v') :
    s.render v = s'.render v' := Value.Alike.render_eq hv

/-- Both write the same line. -/
theorem Alike.write (h : s.Alike before s') (line : String) :
    (s.write line).Alike before (s'.write line) := by
  refine ⟨h.env, ?_⟩
  show s.output.push line = before ++ s'.output.push line
  rw [h.output, Array.append_push]

end State

/-- Outcomes of the same kind, after which the states are alike and have grown alike. -/
inductive Outcome.Alike (before : Array String) (s s' : State) :
    Outcome Value → Outcome Value → Prop where
  | value {v v' : Value} {r r' : State} (hstate : r.Alike before r') (hgrown : s.Grown s' r r')
      (hv : v.Alike (r.Same r') v') : Alike before s s' (.value v r) (.value v' r')
  | error {r r' : State} (hstate : r.Alike before r') (hgrown : s.Grown s' r r') (e : EvalError) :
    Alike before s s' (.error e r) (.error e r')

/-- A native function that gives alike outcomes for alike arguments. -/
def NativeFn.Uniform (run : NativeFn) : Prop :=
  ∀ {before : Array String} {s s' : State} {args args' : List Value} (frame : FrameId),
    s.Alike before s' → List.Forall₂ (Value.Alike (s.Same s')) args args' →
      (run args frame s).Alike before s s' (run args' frame s')

/-- Results that are alike: alike values or the same error. -/
inductive Returns (same : Symbol → Symbol → Prop) :
    Except EvalError Value → Except EvalError Value → Prop where
  | ok {v v' : Value} (h : v.Alike same v') : Returns same (.ok v) (.ok v')
  | error (e : EvalError) : Returns same (.error e) (.error e)

namespace Standard

/-- A function of its arguments alone does not depend on symbols if its results do not. -/
private theorem uniform_computing {f : List Value → Except EvalError Value}
    (hf : ∀ (t t' : SymbolTable) {args args' : List Value},
      List.Forall₂ (Value.Alike (t.Same t')) args args' →
        Returns (t.Same t') (f args) (f args')) : NativeFn.Uniform (computing f) := by
  intro before s s' args args' frame hs hargs
  have hresult := hf _ _ hargs
  simp only [computing]
  -- The results are of one kind, and no state is touched.
  generalize f args = result at hresult
  generalize f args' = result' at hresult
  cases hresult with
  | ok h => exact .value hs (.refl _ _) h
  | error e => exact .error hs (.refl _ _) e

section

variable {same : Symbol → Symbol → Prop} {v v' : Value} {args args' : List Value}

/-- A result in which no symbol can occur. -/
private theorem returns_map {α : Type} (x : Except EvalError α) (f : α → Value)
    (hf : ∀ a, (f a).Alike same (f a)) : Returns same (x.map f) (x.map f) := by
  cases x with
  | error e => exact .error e
  | ok a => exact .ok (hf a)

/-! ### Arguments -/

/-- A number is the same in alike values. -/
private theorem number_eq (native : String) (h : v.Alike same v') :
    number native v = number native v' := by
  cases h <;> rfl

/-- The numbers among alike arguments are the same, or the error is. -/
private theorem numbers_eq (native : String) (h : List.Forall₂ (Value.Alike same) args args') :
    numbers native args = numbers native args' := by
  induction h with
  | nil => rfl
  | cons hv _ ih => simp only [numbers, number_eq native hv, ih]

/-- Two numbers among alike arguments are the same, or the error is. -/
private theorem twoNumbers_eq (native : String) (h : List.Forall₂ (Value.Alike same) args args') :
    twoNumbers native args = twoNumbers native args' := by
  have hlength := h.length_eq
  match h with
  | .nil => rfl
  | .cons _ .nil => rfl
  | .cons ha (.cons hb .nil) => simp only [twoNumbers, number_eq native ha, number_eq native hb]
  | .cons _ (.cons _ (.cons _ _)) => simp only [twoNumbers, hlength]

/-- The only argument is alike, or both have the same error. -/
private theorem returns_one (native : String) (h : List.Forall₂ (Value.Alike same) args args') :
    Returns same (one native args) (one native args') := by
  have hlength := h.length_eq
  match h with
  | .nil => exact .error _
  | .cons ha .nil => exact .ok ha
  | .cons _ (.cons _ _) =>
    simp only [one, hlength]
    exact .error _

/-! ### Arithmetic and comparison -/

/-- Sums of alike arguments are the same number. -/
private theorem returns_add (h : List.Forall₂ (Value.Alike same) args args') :
    Returns same (add args) (add args') := by
  rw [add, add, numbers_eq "+" h]
  exact returns_map _ _ fun _ => .number _

/-- Products of alike arguments are the same number. -/
private theorem returns_multiply (h : List.Forall₂ (Value.Alike same) args args') :
    Returns same (multiply args) (multiply args') := by
  rw [multiply, multiply, numbers_eq "*" h]
  exact returns_map _ _ fun _ => .number _

/-- Differences of alike arguments are the same number. -/
private theorem returns_subtract (h : List.Forall₂ (Value.Alike same) args args') :
    Returns same (subtract args) (subtract args') := by
  have htwo := twoNumbers_eq "-" h
  -- One argument is negated, two are subtracted.
  match h with
  | .nil => exact .error _
  | .cons ha .nil =>
    rw [subtract, subtract, number_eq "-" ha]
    exact returns_map _ _ fun _ => .number _
  | .cons _ (.cons _ _) =>
    simp only [subtract, htwo]
    exact returns_map _ _ fun _ => .number _

/-- Quotients and remainders of alike arguments are the same, the error for a zero included. -/
private theorem returns_dividing (native : String) (f : Float → Float → Float)
    (h : List.Forall₂ (Value.Alike same) args args') :
    Returns same (dividing native f args) (dividing native f args') := by
  simp only [dividing, twoNumbers_eq native h]
  split
  · exact .error _
  · split
    · exact .error _
    · exact .ok (.number _)

/-- Alike arguments compare the same way. -/
private theorem returns_comparing (native : String) (holds : Float → Float → Bool)
    (h : List.Forall₂ (Value.Alike same) args args') :
    Returns same (comparing native holds args) (comparing native holds args') := by
  rw [comparing, comparing, twoNumbers_eq native h]
  exact returns_map _ _ fun _ => .boolean _

/-! ### Connectives, lists and tests -/

/-- Of alike arguments all are truthy on both sides, or on neither. -/
private theorem returns_allTruthy (h : List.Forall₂ (Value.Alike same) args args') :
    Returns same (allTruthy args) (allTruthy args') := by
  have hall : args.all Value.isTruthy = args'.all Value.isTruthy := by
    induction h with
    | nil => rfl
    | cons hv _ ih => rw [List.all_cons, List.all_cons, hv.isTruthy_eq, ih]
  rw [allTruthy, allTruthy, hall]
  exact .ok (.boolean _)

/-- Of alike arguments one is truthy on both sides, or on neither. -/
private theorem returns_anyTruthy (h : List.Forall₂ (Value.Alike same) args args') :
    Returns same (anyTruthy args) (anyTruthy args') := by
  have hany : args.any Value.isTruthy = args'.any Value.isTruthy := by
    induction h with
    | nil => rfl
    | cons hv _ ih => rw [List.any_cons, List.any_cons, hv.isTruthy_eq, ih]
  rw [anyTruthy, anyTruthy, hany]
  exact .ok (.boolean _)

/-- The first parts of alike pairs are alike. -/
private theorem returns_car (h : List.Forall₂ (Value.Alike same) args args') :
    Returns same (car args) (car args') := by
  have hone := returns_one "car" h
  unfold car
  generalize one "car" args = result at hone
  generalize one "car" args' = result' at hone
  cases hone with
  | error e => exact .error e
  | ok hv =>
    cases hv with
    | pair hcar _ => exact .ok hcar
    | _ => exact .error _

/-- The second parts of alike pairs are alike. -/
private theorem returns_cdr (h : List.Forall₂ (Value.Alike same) args args') :
    Returns same (cdr args) (cdr args') := by
  have hone := returns_one "cdr" h
  unfold cdr
  generalize one "cdr" args = result at hone
  generalize one "cdr" args' = result' at hone
  cases hone with
  | error e => exact .error e
  | ok hv =>
    cases hv with
    | pair _ hcdr => exact .ok hcdr
    | _ => exact .error _

/-- A test that alike values pass or fail together answers the same for alike arguments. -/
private theorem returns_testing (native : String) {holds : Value → Bool}
    (hholds : ∀ {v v' : Value}, v.Alike same v' → holds v = holds v')
    (h : List.Forall₂ (Value.Alike same) args args') :
    Returns same (testing native holds args) (testing native holds args') := by
  have hone := returns_one native h
  unfold testing
  generalize one native args = result at hone
  generalize one native args' = result' at hone
  cases hone with
  | error e => exact .error e
  | ok hv =>
    simp only [Except.map, hholds hv]
    exact .ok (.boolean _)

/-! ### Equality -/

/-- Alike values can both be compared, or neither can. -/
private theorem isIncomparable_eq (h : v.Alike same v') : isIncomparable v = isIncomparable v' := by
  simp only [isIncomparable, h.isCallable_eq, h.type_eq]

end

section

variable {t t' : SymbolTable}

/-- Whether a comparable value equals another one: symbols are equal if their names are. -/
private theorem beq_eq {v v' w w' : Value} (hv : v.Alike (t.Same t') v')
    (hw : w.Alike (t.Same t') w')
    (hcomparable : isIncomparable v = false) : (v == w) = (v' == w') := by
  cases hv with
  | symbol ha =>
    cases hw with
    | symbol hb => exact ha.beq_eq hb
    | _ => rfl
  -- Pairs and functions are not comparable; all other values hold no symbols.
  | pair => cases hcomparable
  | closure => cases hcomparable
  | native => cases hcomparable
  | _ => cases hw <;> rfl

/-- Comparing alike arguments with their neighbours gives the same answer. -/
private theorem allEqual_eq {args args' : List Value}
    (h : List.Forall₂ (Value.Alike (t.Same t')) args args')
    (hcomparable : ∀ v ∈ args, isIncomparable v = false) : allEqual args = allEqual args' := by
  -- Induction along the arguments, two at a time, as the comparison goes.
  match h with
  | .nil => rfl
  | .cons _ .nil => rfl
  | .cons ha (.cons hb hrest) =>
    have hhead := beq_eq ha hb (hcomparable _ List.mem_cons_self)
    have htail := allEqual_eq (.cons hb hrest) fun v hv => hcomparable v (List.mem_cons_of_mem _ hv)
    simp only [allEqual, hhead, htail]

/-- The equality of alike arguments is the same answer, or the same error. -/
private theorem returns_equal {args args' : List Value}
    (h : List.Forall₂ (Value.Alike (t.Same t')) args args') :
    Returns (t.Same t') (equal args) (equal args') := by
  -- The first argument without equality, which decides the error, is in the same place.
  have hfind : Option.Rel (Value.Alike (t.Same t')) (args.find? isIncomparable)
      (args'.find? isIncomparable) := by
    induction h with
    | nil => exact .none
    | cons hv _ ih =>
      rw [List.find?_cons, List.find?_cons, ← isIncomparable_eq hv]
      split
      · exact .some hv
      · exact ih
  unfold equal
  cases hbad : args.find? isIncomparable with
  | some bad =>
    rw [hbad] at hfind
    generalize args'.find? isIncomparable = bad' at hfind
    cases hfind with
    | some hv =>
      simp only [hv.type_eq]
      exact .error _
  | none =>
    have hnone := hbad
    rw [hbad] at hfind
    generalize args'.find? isIncomparable = bad' at hfind
    cases hfind
    rw [List.find?_eq_none] at hnone
    simp only [allEqual_eq h fun v hv => by simpa using hnone v hv]
    exact .ok (.boolean _)

end

/-! ### The registry -/

/-- Printing alike arguments writes the same line. -/
private theorem uniform_print : NativeFn.Uniform print := by
  intro before s s' args args' frame hs hargs
  have htexts : args.map s.render = args'.map s'.render := by
    induction hargs with
    | nil => rfl
    | cons hv _ ih => rw [List.map_cons, List.map_cons, State.render_eq hv, ih]
  simp only [print, htexts]
  exact .value (hs.write _) (.refl _ _) .null

/-- No standard native function depends on symbols. -/
theorem uniform_natives {native : Native} (h : native ∈ natives) :
    NativeFn.Uniform native.run := by
  -- One case for each function, in the order of the list.
  simp only [natives, List.mem_cons, List.not_mem_nil, or_false] at h
  rcases h with rfl | rfl | rfl | rfl | rfl | rfl | rfl | rfl | rfl | rfl | rfl | rfl | rfl |
    rfl | rfl | rfl | rfl | rfl | rfl | rfl | rfl
  · exact uniform_computing fun _ _ => returns_add
  · exact uniform_computing fun _ _ => returns_subtract
  · exact uniform_computing fun _ _ => returns_multiply
  · exact uniform_computing fun _ _ => returns_dividing _ _
  · exact uniform_computing fun _ _ => returns_dividing _ _
  · exact uniform_computing fun _ _ => returns_equal
  · exact uniform_computing fun _ _ => returns_comparing _ _
  · exact uniform_computing fun _ _ => returns_comparing _ _
  · exact uniform_computing fun _ _ => returns_comparing _ _
  · exact uniform_computing fun _ _ => returns_comparing _ _
  · exact uniform_computing fun _ _ => returns_allTruthy
  · exact uniform_computing fun _ _ => returns_anyTruthy
  · exact uniform_print
  · exact uniform_computing fun _ _ => fun h => .ok (Value.Alike.ofList h)
  · exact uniform_computing fun _ _ => returns_car
  · exact uniform_computing fun _ _ => returns_cdr
  · exact uniform_computing fun _ _ => returns_testing _ fun h => by rw [h.type_eq]
  · exact uniform_computing fun _ _ => returns_testing _ fun h => by rw [h.type_eq]
  · exact uniform_computing fun _ _ => returns_testing _ fun h => by rw [h.type_eq]
  · exact uniform_computing fun _ _ => returns_testing _ Value.Alike.isCallable_eq
  · exact uniform_computing fun _ _ => returns_testing _ fun h => by rw [isList, isList, h.type_eq]

/-- A call of a native function gives alike outcomes for alike arguments. -/
theorem invoke_alike (name : String) {before : Array String} {s s' : State}
    {args args' : List Value} (frame : FrameId) (hs : s.Alike before s')
    (hargs : List.Forall₂ (Value.Alike (s.Same s')) args args') :
    (registry.invoke name args frame s).Alike before s s'
      (registry.invoke name args' frame s') := by
  -- The name finds the same native, and the arguments are of one number.
  simp only [Registry.invoke, hargs.length_eq]
  split
  · exact .error hs (.refl _ _) _
  · rename_i native hfind
    split
    · exact uniform_natives (Registry.mem_ofList (List.mem_of_find?_eq_some hfind)) frame hs hargs
    · exact .error hs (.refl _ _) _

end Standard

end LispSession
