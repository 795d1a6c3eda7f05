import LispSession.Number.Render
import LispSession.Value.Basic

/-! # The text of a value

Strings are written bare and the empty list as nothing at all. A chain of pairs is one
parenthesis, with the items separated by spaces; where the chain does not end in the
empty list, its last value follows after a dot. -/

namespace LispSession

namespace Value

/-- The text of a value that is not a pair. -/
def renderAtom (symbols : SymbolTable) : Value → String
  | number x => Number.render x
  | string text => text
  | symbol name => symbols.nameOf name
  | boolean true => "#t"
  | boolean false => "#f"
  | closure fn _ => "function " ++ Nat.repr fn.arity
  | native name => "native " ++ name
  | null | pair _ _ => ""

mutual

/-- The text of a value. -/
def render (symbols : SymbolTable) : Value → String
  | pair car cdr => "(" ++ car.render symbols ++ cdr.renderTail symbols ++ ")"
  | value => value.renderAtom symbols

/-- The text of what follows the first item of a chain of pairs. -/
def renderTail (symbols : SymbolTable) : Value → String
  | null => ""
  | pair car cdr => " " ++ car.render symbols ++ cdr.renderTail symbols
  | value => " . " ++ value.renderAtom symbols

end

end Value

end LispSession
