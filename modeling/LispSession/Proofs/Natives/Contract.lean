import LispSession.Native.Standard
import LispSession.Proofs.Natives.Registration

/-!
# The contract of the standard functions

The arity of a native function is checked before it runs, and most functions match the number of
their arguments once more. The two agree: where the arity accepts the arguments a standard function
does not fail because of their number, but only because of what they are. It leaves the state as
it is, except that `print` writes a line.

* `FailsByType`       a result that is a value or a type error
* `computes_or_print` every standard function but `print` only computes, and fails by type
* `invoke_cases`      what a call by name can lead to
* `invoke_contract`   the contract of a call
-/

namespace LispSession

/-- An arity of one count accepts that count only. -/
private theorem Arity.eq_of_accepts_oneOf {count n : Nat} (h : (oneOf [count]).accepts n = true) :
    n = count := by
  simpa [accepts] using h

/-- An arity of at least one rejects nothing but the empty list. -/
private theorem Arity.rejects_atLeast_one_iff {α : Type} {args : List α} :
    (atLeast 1).accepts args.length = false ↔ args = [] := by
  simp [accepts]

namespace Standard

variable {α β : Type}

/-- If the result is an error, it is about the type of an argument. -/
def FailsByType (result : Except EvalError α) : Prop :=
  ∀ e, result = .error e → ∃ fault, e = .type fault

/-- A computation that gives a value raises no error at all. -/
private theorem failsByType_ok (a : α) : FailsByType (.ok a) := fun _ h => nomatch h

/-- An error about the type of an argument is one that is allowed. -/
private theorem failsByType_error (fault : ArgumentFault) :
    FailsByType (.error (.type fault) : Except EvalError α) := by
  rintro _ ⟨⟩
  exact ⟨fault, rfl⟩

/-- A computation on the result adds no error. -/
private theorem FailsByType.map {result : Except EvalError α} (h : FailsByType result) (f : α → β) :
    FailsByType (result.map f) := by
  rintro e he
  cases result with
  | ok a => cases he
  | error e' =>
    cases he
    exact h e rfl

/-- An error that is about a type stays so where it is passed on. -/
private theorem FailsByType.passedOn {result : Except EvalError α} (h : FailsByType result)
    {e : EvalError} (he : result = .error e) : FailsByType (.error e : Except EvalError β) := by
  obtain ⟨fault, rfl⟩ := h e he
  exact failsByType_error fault

/-! ### Arguments -/

/-- Taking a number raises an error about the type of what is none. -/
private theorem failsByType_number (native : String) (v : Value) :
    FailsByType (number native v) := by
  cases v with
  | number x => exact failsByType_ok x
  | _ => exact failsByType_error _

/-- Taking numbers raises an error about the type of the first argument that is none. -/
private theorem failsByType_numbers (native : String) (args : List Value) :
    FailsByType (numbers native args) := by
  induction args with
  | nil => exact failsByType_ok []
  | cons v args ih =>
    unfold numbers
    -- The first argument that is no number decides the error.
    cases hv : number native v with
    | error e => exact (failsByType_number native v).passedOn hv
    | ok x =>
      cases hrest : numbers native args with
      | error e => exact ih.passedOn hrest
      | ok xs => exact failsByType_ok (x :: xs)

/-- One argument is there if the arity says so. -/
private theorem one_of_accepts (native : String) {args : List Value}
    (h : (Arity.oneOf [1]).accepts args.length = true) : ∃ v, one native args = .ok v := by
  obtain ⟨v, rfl⟩ := List.length_eq_one_iff.mp (Arity.eq_of_accepts_oneOf h)
  exact ⟨v, rfl⟩

/-- Taking two numbers raises an error about a type, if there are two arguments. -/
private theorem failsByType_twoNumbers (native : String) {args : List Value} (h : args.length = 2) :
    FailsByType (twoNumbers native args) := by
  -- The first argument is looked at before the second.
  obtain ⟨a, b, rfl⟩ := List.length_eq_two.mp h
  simp only [twoNumbers]
  cases ha : number native a with
  | error e => exact (failsByType_number native a).passedOn ha
  | ok x =>
    cases hb : number native b with
    | error e => exact (failsByType_number native b).passedOn hb
    | ok y => exact failsByType_ok (x, y)

/-! ### The functions -/

/-- Where the arity accepts the arguments, the function fails by their types only. -/
def SuitsArity (arity : Arity) (f : List Value → Except EvalError Value) : Prop :=
  ∀ args, arity.accepts args.length = true → FailsByType (f args)

/-- One argument is negated and two are subtracted, both after their types are looked at. -/
private theorem suitsArity_subtract : SuitsArity (.oneOf [1, 2]) subtract := by
  intro args h
  unfold subtract
  split
  · exact (failsByType_number "-" _).map _
  · rename_i hone
    -- One argument has been dealt with, so there are two.
    have hcounts : args.length = 1 ∨ args.length = 2 := by simpa [Arity.accepts] using h
    have hlength : args.length ≠ 1 := fun hlength =>
      have ⟨v, hv⟩ := List.length_eq_one_iff.mp hlength
      hone v hv
    exact (failsByType_twoNumbers "-" (hcounts.resolve_left hlength)).map _

/-- Division by zero is an error about an argument, as a wrong type is. -/
private theorem suitsArity_dividing (native : String) (f : Float → Float → Float) :
    SuitsArity (.oneOf [2]) (dividing native f) := by
  intro args h
  have htwo := failsByType_twoNumbers native (Arity.eq_of_accepts_oneOf h)
  unfold dividing
  cases hargs : twoNumbers native args with
  | error e => exact htwo.passedOn hargs
  | ok operands =>
    simp only
    split
    · exact failsByType_error _
    · exact failsByType_ok _

/-- A comparison takes two numbers. -/
private theorem suitsArity_comparing (native : String) (holds : Float → Float → Bool) :
    SuitsArity (.oneOf [2]) (comparing native holds) :=
  fun _ h => (failsByType_twoNumbers native (Arity.eq_of_accepts_oneOf h)).map _

/-- The equality of values raises its own error about a type, whatever its arity. -/
private theorem suitsArity_equal (arity : Arity) : SuitsArity arity equal := by
  intro args _
  unfold equal
  split
  · exact failsByType_error _
  · exact failsByType_ok _

/-- The first part is taken of a pair only; anything else is an error about its type. -/
private theorem suitsArity_car : SuitsArity (.oneOf [1]) car := by
  intro args h
  obtain ⟨v, hv⟩ := one_of_accepts "car" h
  unfold car
  rw [hv]
  cases v with
  | pair first second => exact failsByType_ok first
  | _ => exact failsByType_error _

/-- The second part is taken of a pair only; anything else is an error about its type. -/
private theorem suitsArity_cdr : SuitsArity (.oneOf [1]) cdr := by
  intro args h
  obtain ⟨v, hv⟩ := one_of_accepts "cdr" h
  unfold cdr
  rw [hv]
  cases v with
  | pair first second => exact failsByType_ok second
  | _ => exact failsByType_error _

/-- A test for a kind of value raises no error. -/
private theorem suitsArity_testing (native : String) (holds : Value → Bool) :
    SuitsArity (.oneOf [1]) (testing native holds) := by
  intro args h
  obtain ⟨v, hv⟩ := one_of_accepts native h
  unfold testing
  rw [hv]
  exact failsByType_ok _

/-- The function only computes a value, and fails by the types of its arguments only. -/
structure Computes (native : Native) : Prop where
  name_ne : native.name ≠ "print"
  run : ∃ f, native.run = computing f ∧ SuitsArity native.arity f

/-- A function that computes its answer, under another name than printing, computes within its
    arity. -/
private theorem Computes.of {name : String} {arity : Arity}
    {f : List Value → Except EvalError Value}
    (hname : name ≠ "print") (h : SuitsArity arity f) : Computes ⟨name, arity, computing f⟩ :=
  ⟨hname, f, rfl, h⟩

/-- Every standard function but `print` only computes a value. -/
theorem computes_or_print {native : Native} (h : native ∈ natives) :
    Computes native ∨ native = ⟨"print", .atLeast 1, print⟩ := by
  -- One case for each function, in the order of the list.
  simp only [natives, List.mem_cons, List.not_mem_nil, or_false] at h
  rcases h with rfl | rfl | rfl | rfl | rfl | rfl | rfl | rfl | rfl | rfl | rfl | rfl | rfl |
    rfl | rfl | rfl | rfl | rfl | rfl | rfl | rfl
  · exact .inl (.of (by decide) fun args _ => (failsByType_numbers "+" args).map _)
  · exact .inl (.of (by decide) suitsArity_subtract)
  · exact .inl (.of (by decide) fun args _ => (failsByType_numbers "*" args).map _)
  · exact .inl (.of (by decide) (suitsArity_dividing _ _))
  · exact .inl (.of (by decide) (suitsArity_dividing _ _))
  · exact .inl (.of (by decide) (suitsArity_equal _))
  · exact .inl (.of (by decide) (suitsArity_comparing _ _))
  · exact .inl (.of (by decide) (suitsArity_comparing _ _))
  · exact .inl (.of (by decide) (suitsArity_comparing _ _))
  · exact .inl (.of (by decide) (suitsArity_comparing _ _))
  · exact .inl (.of (by decide) fun _ _ => failsByType_ok _)
  · exact .inl (.of (by decide) fun _ _ => failsByType_ok _)
  · exact .inr rfl
  · exact .inl (.of (by decide) fun _ _ => failsByType_ok _)
  · exact .inl (.of (by decide) suitsArity_car)
  · exact .inl (.of (by decide) suitsArity_cdr)
  · exact .inl (.of (by decide) (suitsArity_testing _ _))
  · exact .inl (.of (by decide) (suitsArity_testing _ _))
  · exact .inl (.of (by decide) (suitsArity_testing _ _))
  · exact .inl (.of (by decide) (suitsArity_testing _ _))
  · exact .inl (.of (by decide) (suitsArity_testing _ _))

end Standard

/-- What the call of a native function with some arguments may lead to. -/
structure Native.Contract (native : Native) (args : List Value) (s : State)
    (outcome : Outcome Value) : Prop where
  /-- The number of the arguments is wrong just if the arity rejects it. -/
  arity_iff : (∃ callee expected got s', outcome = .error (.arity callee expected got) s') ↔
    native.arity.accepts args.length = false
  /-- Then the error tells the name, the arity and the number. -/
  rejected : native.arity.accepts args.length = false →
    outcome = .error (.arity native.name native.arity args.length) s
  /-- Every other error is about a type. -/
  fault : native.arity.accepts args.length = true →
    ∀ e s', outcome = .error e s' → ∃ fault, e = .type fault
  env : outcome.state.env = s.env
  /-- Nothing is written unless there is something to print. -/
  silent : native.name ≠ "print" ∨ args = [] → outcome.state.output = s.output
  /-- If there is, one line is written. -/
  printed : native.name = "print" → args ≠ [] →
    outcome = .value .null (s.write (" ".intercalate (args.map s.render)))

namespace Standard

variable {native : Native} {args : List Value}

/-- A call that is rejected for its number of arguments keeps the contract. -/
private theorem contract_rejected (hrejected : native.arity.accepts args.length = false)
    (hprint : native.name = "print" → args = []) (s : State) :
    native.Contract args s (.error (.arity native.name native.arity args.length) s) where
  arity_iff := ⟨fun _ => hrejected, fun _ => ⟨_, _, _, _, rfl⟩⟩
  rejected _ := rfl
  fault haccepted := by rw [hrejected] at haccepted; cases haccepted
  env := rfl
  silent _ := rfl
  printed hname hargs := absurd (hprint hname) hargs

/-- A call that computes its answer keeps the contract, if all its errors are about types. -/
private theorem contract_computed (haccepted : native.arity.accepts args.length = true)
    (hname : native.name ≠ "print") {result : Except EvalError Value} (h : FailsByType result)
    (s : State) : native.Contract args s (.ofExcept s result) where
  arity_iff := by
    refine ⟨fun ⟨callee, expected, got, s', hresult⟩ => ?_, fun hrejected => ?_⟩
    · -- An error would be about a type.
      cases result with
      | ok v => cases hresult
      | error e =>
        obtain ⟨fault, rfl⟩ := h e rfl
        cases hresult
    · rw [haccepted] at hrejected
      cases hrejected
  rejected hrejected := by rw [haccepted] at hrejected; cases hrejected
  fault _ e s' hresult := by
    cases result with
    | ok v => cases hresult
    | error e' =>
      cases hresult
      exact h e rfl
  env := by rw [Outcome.state_ofExcept]
  silent _ := by rw [Outcome.state_ofExcept]
  printed hprint := absurd hprint hname

/-- Printing keeps the contract: it writes one line and answers. -/
private theorem contract_print (hargs : args ≠ []) (frame : FrameId) (s : State) :
    Native.Contract ⟨"print", .atLeast 1, print⟩ args s (print args frame s) where
  arity_iff := ⟨nofun, fun hrejected => absurd (Arity.rejects_atLeast_one_iff.mp hrejected) hargs⟩
  rejected hrejected := absurd (Arity.rejects_atLeast_one_iff.mp hrejected) hargs
  fault _ _ _ hresult := nomatch hresult
  env := rfl
  silent h := h.elim (absurd rfl) (absurd · hargs)
  printed _ _ := rfl

/-- The standard natives are ordered by name. -/
theorem ordered_registry : registry.Ordered := Registry.ordered_ofList natives

/-- Every call of a standard function keeps the contract: it fails because of the number of its
    arguments just if the arity rejects it, and otherwise because of a type; the environment stays,
    and nothing is written but one line by `print`, which does not fail. -/
theorem invoke_contract (h : native ∈ registry.natives) (args : List Value) (frame : FrameId)
    (s : State) : native.Contract args s (registry.invoke native.name args frame s) := by
  have hcases := computes_or_print (Registry.mem_ofList h)
  rw [ordered_registry.invoke_eq h]
  split
  -- The function runs.
  · rename_i haccepted
    obtain hcomputes | rfl := hcases
    · obtain ⟨f, hrun, hf⟩ := hcomputes.run
      rw [hrun]
      exact contract_computed haccepted hcomputes.name_ne (hf args haccepted) s
    · refine contract_print (fun hargs => ?_) frame s
      rw [hargs] at haccepted
      cases haccepted
  -- It is not even called, and `print` only where it has nothing to print.
  · rename_i hrejected
    refine contract_rejected (Bool.eq_false_iff.mpr hrejected) (fun hname => ?_) s
    obtain hcomputes | rfl := hcases
    · exact absurd hname hcomputes.name_ne
    · exact Arity.rejects_atLeast_one_iff.mp (Bool.eq_false_iff.mpr hrejected)

/-- Three numbers are too many for a difference, and a difference needs numbers. -/
theorem invoke_contract_subtract :
    let subtraction : Native := ⟨"-", .oneOf [1, 2], computing subtract⟩
    let many : List Value := [.number 1, .number 2, .number 3]
    let other : List Value := [.number 1, .string "x"]
    (∀ frame s, subtraction.Contract many s (registry.invoke "-" many frame s)) ∧
      (∀ frame s, subtraction.Contract other s (registry.invoke "-" other frame s)) ∧
      (EvalError.arity "-" subtraction.arity many.length).message =
        "`-` expects 1 or 2 arguments, but was called with 3" := by
  intro subtraction many other
  have hmem : subtraction ∈ registry.natives := ordered_registry.find?_eq_some_iff.mp rfl
  exact ⟨invoke_contract hmem many, invoke_contract hmem other, by decide +kernel⟩

end Standard

end LispSession
