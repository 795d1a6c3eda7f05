import LispSession.Token.Basic

/-! # Parse errors

Why a text is not a program: the first token that does not fit what comes before it,
and what is wrong with it. An error whose token is the end of the input is different in
kind from any other: more text may still complete the program. -/

namespace LispSession

/-- What was needed in the place of a token. -/
inductive Expected where
  | opening
  | closing
  | symbol
  | literal
  | lambda
  /-- The first word of a form: a function's name, a keyword or a function itself. -/
  | head

namespace Expected

/-- The words for what was needed. -/
def text : Expected → String
  | opening => "'('"
  | closing => "')'"
  | symbol => "a symbol"
  | literal => "a literal"
  | lambda => "a lambda declaration"
  | head => "a symbol, keyword or lambda declaration"

end Expected

/-- A part that a special form must have. -/
inductive Part where
  | value
  | condition
  | consequent
  | alternative
  | car
  | cdr

namespace Part

/-- The name of the part. -/
def text : Part → String
  | value => "value"
  | condition => "condition"
  | consequent => "then branch"
  | alternative => "else branch"
  | car => "car"
  | cdr => "cdr"

end Part

/-- Why a token does not fit. -/
inductive Misfit where
  | unexpected (needed : Expected)
  /-- The form is closed before one of its parts. -/
  | missing (form : Keyword) (part : Part)
  /-- The form is closed before its first expression. -/
  | emptyBody (form : Keyword)
  | notParameter
  | repeatedParameter
  | notQuotable
  /-- The characters of a number token do not denote a number. -/
  | unreadableNumber

namespace Misfit

/-- What is wrong with the token, in words. -/
def reason (token : Token) : Misfit → String
  | unexpected needed => "unexpected " ++ token.describe ++ ", expecting " ++ needed.text
  | missing form part => "`" ++ form.text ++ "` is missing its " ++ part.text
  | emptyBody form => "`" ++ form.text ++ "` requires at least one body expression"
  | notParameter => token.describe ++ " cannot be used as a parameter name"
  | repeatedParameter => "duplicate parameter name `" ++ token.text ++ "`"
  | notQuotable =>
    "cannot quote " ++ token.describe ++ "; only a symbol or a list can be quoted"
  | unreadableNumber =>
    "could not read number `" ++ token.text ++ "`: invalid float literal"

end Misfit

/-- The first token that does not fit, and why. -/
structure ParseError where
  misfit : Misfit
  token : Token

namespace ParseError

/-- What is wrong, in words. -/
def reason (e : ParseError) : String := e.misfit.reason e.token

/-- What is wrong and where. -/
def message (e : ParseError) : String :=
  "parse error at line " ++ Nat.repr e.token.first.line ++
    ", column " ++ Nat.repr e.token.first.column ++ ": " ++ e.reason

/-- The text ends before its last statement does. -/
def isIncomplete (e : ParseError) : Bool := e.token.kind == .endOfInput

end ParseError

end LispSession
