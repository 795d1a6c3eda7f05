import LispSession.Expr.ParseError
import LispSession.Native.Arity
import LispSession.Value.Basic

/-! # Errors

What can go wrong in an evaluation, by its cause, and the words for it. -/

namespace LispSession

/-- What is wrong with the arguments of a native function. -/
inductive ArgumentFault where
  | notNumber (callee : String) (found : ValueType)
  | zeroDivisor (callee : String)
  | incomparable (callee : String) (found : ValueType)
  | notPair (callee : String) (found : ValueType)
  /-- A cause of its own, in words. -/
  | other (reason : String)

/-- The fault in words. -/
def ArgumentFault.reason : ArgumentFault → String
  | notNumber callee found => "`" ++ callee ++ "` expects numbers, got a " ++ found.name
  | zeroDivisor callee => "`" ++ callee ++ "` by zero"
  | incomparable callee found => "`" ++ callee ++ "` cannot compare a " ++ found.name
  | notPair callee found => "`" ++ callee ++ "` expects a pair, got a " ++ found.name
  | other reason => reason

/-- Why an evaluation failed. -/
inductive EvalError where
  /-- The text is not a program; nothing was evaluated. -/
  | parse (e : ParseError)
  | unbound (name : String)
  | arity (callee : String) (expected : Arity) (got : Nat)
  | type (fault : ArgumentFault)
  /-- A value that is not a function was called; it is known by its text. -/
  | notCallable (shown : String)
  | stackExhausted (limit : Nat)

namespace EvalError

/-- What went wrong, in words. -/
def message : EvalError → String
  | parse e => e.message
  | unbound name => "symbol `" ++ name ++ "` is not defined"
  | arity callee expected got =>
    "`" ++ callee ++ "` expects " ++ expected.text ++ " arguments, but was called with " ++
      Nat.repr got
  | type fault => "type error: " ++ fault.reason
  | notCallable shown => "`" ++ shown ++ "` is not a function"
  | stackExhausted limit =>
    "stack exhausted: more than " ++ Nat.repr limit ++ " nested function calls"

/-- The error ends the whole evaluation, and not only the statement it occurs in. -/
def isFatal : EvalError → Bool
  | stackExhausted _ => true
  | _ => false

end EvalError

end LispSession
