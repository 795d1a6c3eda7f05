/-! # Arities

How many arguments a function accepts. -/

namespace LispSession

/-- The accepted numbers of arguments. -/
inductive Arity where
  | atLeast (least : Nat)
  /-- One of these numbers. -/
  | oneOf (counts : List Nat)
deriving DecidableEq, Repr

namespace Arity

/-- A number of arguments is accepted. -/
def accepts (arity : Arity) (count : Nat) : Bool :=
  match arity with
  | atLeast least => least ≤ count
  | oneOf counts => counts.contains count

/-- The accepted numbers in words. -/
def text : Arity → String
  | atLeast least => "at least " ++ Nat.repr least
  | oneOf [count] => "exactly " ++ Nat.repr count
  | oneOf counts => " or ".intercalate (counts.map Nat.repr)

end Arity

end LispSession
