import LispSession.Number.Remainder
import LispSession.Value.Equality
import LispSession.Native.Registry

/-! # The standard native functions

Arithmetic and comparison of numbers, equality of atoms, connectives, lists, tests of
types, and output. All of them but `print` only compute a value from their arguments. -/

namespace LispSession.Standard

/-- A function that computes its value from its arguments alone. -/
def computing (f : List Value → Except EvalError Value) : NativeFn :=
  fun args _ s => .ofExcept s (f args)

/-! ## Arguments -/

/-- A number. -/
def number (native : String) : Value → Except EvalError Float
  | .number x => .ok x
  | other => .error (.type (.notNumber native other.type))

/-- Nothing but numbers; the first argument that is none decides the error. -/
def numbers (native : String) : List Value → Except EvalError (List Float)
  | [] => .ok []
  | value :: values =>
    match number native value with
    | .error e => .error e
    | .ok x =>
      match numbers native values with
      | .error e => .error e
      | .ok xs => .ok (x :: xs)

/-- One argument. -/
def one (native : String) : List Value → Except EvalError Value
  | [a] => .ok a
  | args => .error (.arity native (.oneOf [1]) args.length)

/-- Two numbers. -/
def twoNumbers (native : String) : List Value → Except EvalError (Float × Float)
  | [a, b] =>
    match number native a with
    | .error e => .error e
    | .ok x =>
      match number native b with
      | .error e => .error e
      | .ok y => .ok (x, y)
  | args => .error (.arity native (.oneOf [2]) args.length)

/-! ## Arithmetic -/

/-- The sum, from the left; the sum of nothing is minus zero, which changes no sum. -/
def add (args : List Value) : Except EvalError Value :=
  (numbers "+" args).map fun xs => .number (xs.foldl (· + ·) (-0.0))

/-- The opposite of one number, or the difference of two. -/
def subtract : List Value → Except EvalError Value
  | [a] => (number "-" a).map fun x => .number (-x)
  | args => (twoNumbers "-" args).map fun (x, y) => .number (x - y)

/-- The product, from the left. -/
def multiply (args : List Value) : Except EvalError Value :=
  (numbers "*" args).map fun xs => .number (xs.foldl (· * ·) 1.0)

/-- A number computed from two, the second of which must not be zero. -/
def dividing (native : String) (f : Float → Float → Float) (args : List Value) :
    Except EvalError Value :=
  match twoNumbers native args with
  | .error e => .error e
  | .ok (x, y) =>
    if y == 0.0 then .error (.type (.zeroDivisor native)) else .ok (.number (f x y))

/-! ## Comparison and connectives -/

/-- A relation between two numbers. -/
def comparing (native : String) (holds : Float → Float → Bool) (args : List Value) :
    Except EvalError Value :=
  (twoNumbers native args).map fun (x, y) => .boolean (holds x y)

/-- Each value equals the next one. -/
def allEqual : List Value → Bool
  | a :: b :: rest => a == b && allEqual (b :: rest)
  | _ => true

/-- A value that has no equality: a function or a pair. -/
def isIncomparable (value : Value) : Bool := value.isCallable || value.type == .pair

/-- Equality of atoms; values of different types are unequal. -/
def equal (args : List Value) : Except EvalError Value :=
  match args.find? isIncomparable with
  | some bad => .error (.type (.incomparable "=" bad.type))
  | none => .ok (.boolean (allEqual args))

/-- All arguments are truthy. -/
def allTruthy (args : List Value) : Except EvalError Value :=
  .ok (.boolean (args.all Value.isTruthy))

/-- Some argument is truthy. -/
def anyTruthy (args : List Value) : Except EvalError Value :=
  .ok (.boolean (args.any Value.isTruthy))

/-! ## Lists, tests and output -/

/-- The proper list of the arguments. -/
def list (args : List Value) : Except EvalError Value := .ok (.ofList args)

/-- The first part of a pair. -/
def car (args : List Value) : Except EvalError Value :=
  match one "car" args with
  | .error e => .error e
  | .ok (.pair first _) => .ok first
  | .ok other => .error (.type (.notPair "car" other.type))

/-- The second part of a pair. -/
def cdr (args : List Value) : Except EvalError Value :=
  match one "cdr" args with
  | .error e => .error e
  | .ok (.pair _ second) => .ok second
  | .ok other => .error (.type (.notPair "cdr" other.type))

/-- A test of one value. -/
def testing (native : String) (holds : Value → Bool) (args : List Value) :
    Except EvalError Value :=
  (one native args).map fun value => .boolean (holds value)

/-- A pair or the empty list. -/
def isList (value : Value) : Bool := value.type == .pair || value.type == .null

/-- Write one line: the texts of the arguments, separated by spaces. -/
def print : NativeFn := fun args _ s =>
  .value .null (s.write (" ".intercalate (args.map s.render)))

/-! ## The registry -/

/-- The standard functions. -/
def natives : List Native :=
  [⟨"+", .atLeast 1, computing add⟩,
   ⟨"-", .oneOf [1, 2], computing subtract⟩,
   ⟨"*", .atLeast 2, computing multiply⟩,
   ⟨"/", .oneOf [2], computing (dividing "/" (· / ·))⟩,
   ⟨"modulo", .oneOf [2], computing (dividing "modulo" Number.remainder)⟩,
   ⟨"=", .atLeast 2, computing equal⟩,
   ⟨">", .oneOf [2], computing (comparing ">" fun x y => y < x)⟩,
   ⟨"<", .oneOf [2], computing (comparing "<" fun x y => x < y)⟩,
   ⟨">=", .oneOf [2], computing (comparing ">=" fun x y => y ≤ x)⟩,
   ⟨"<=", .oneOf [2], computing (comparing "<=" fun x y => x ≤ y)⟩,
   ⟨"and", .atLeast 2, computing allTruthy⟩,
   ⟨"or", .atLeast 2, computing anyTruthy⟩,
   ⟨"print", .atLeast 1, print⟩,
   ⟨"list", .atLeast 0, computing list⟩,
   ⟨"car", .oneOf [1], computing car⟩,
   ⟨"cdr", .oneOf [1], computing cdr⟩,
   ⟨"null?", .oneOf [1], computing (testing "null?" (·.type == .null))⟩,
   ⟨"string?", .oneOf [1], computing (testing "string?" (·.type == .string))⟩,
   ⟨"number?", .oneOf [1], computing (testing "number?" (·.type == .number))⟩,
   ⟨"function?", .oneOf [1], computing (testing "function?" Value.isCallable)⟩,
   ⟨"list?", .oneOf [1], computing (testing "list?" isList)⟩]

/-- The registry of the standard functions. -/
def registry : Registry := .ofList natives

end LispSession.Standard
