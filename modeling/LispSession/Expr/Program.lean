import LispSession.Token.Cursor
import LispSession.Expr.Assembly

/-! # Programs

A program is read by fitting the significant tokens of its text in order, and then the
end of the input. The first token that does not fit fails the whole reading; the symbols
met before it stay in the table.

* `step_endOfInput`  the end of the input fits into no assembly
* `feed_append`      tokens may be fitted in two goes -/

namespace LispSession

namespace Assembly

/-- The end of the input is never a part of a statement. -/
theorem step_endOfInput (a : Assembly) {token : Token} (h : token.kind = .endOfInput) :
    ∃ misfit, a.step token = .error misfit := by
  obtain ⟨expecting, forms, statements, symbols⟩ := a
  cases expecting <;>
    simp [step, stepExpression, stepHead, stepParam, stepItem, literal, h]
  split <;> simp

/-- Fit tokens in order, up to the first that does not fit. -/
def feed (a : Assembly) : List Token → Assembly × Option ParseError
  | [] => (a, none)
  | token :: tokens =>
    match a.step token with
    | .ok a => a.feed tokens
    | .error misfit => (a, some ⟨misfit, token⟩)

/-- No tokens change nothing. -/
@[simp] theorem feed_nil (a : Assembly) : a.feed [] = (a, none) := rfl

/-- A token that fits is taken, and the others are fed to what comes of it. -/
theorem feed_cons_of_ok {a b : Assembly} {token : Token} (h : a.step token = .ok b)
    (tokens : List Token) : a.feed (token :: tokens) = b.feed tokens := by
  simp [feed, h]

/-- A token that does not fit stops the reading with an error about it. -/
theorem feed_cons_of_error {a : Assembly} {token : Token} {misfit : Misfit}
    (h : a.step token = .error misfit) (tokens : List Token) :
    a.feed (token :: tokens) = (a, some ⟨misfit, token⟩) := by
  simp [feed, h]

/-- Tokens can be fed in two parts; the second part counts only if the first part fits. -/
theorem feed_append (a : Assembly) (first second : List Token) :
    a.feed (first ++ second) =
      match a.feed first with
      | (b, none) => b.feed second
      | (b, some e) => (b, some e) := by
  induction first generalizing a with
  | nil => simp
  | cons token tokens ih =>
    cases h : a.step token with
    | ok b => simp [feed_cons_of_ok h, ih]
    | error misfit => simp [feed_cons_of_error h]

/-- Fit the end of the input: nothing may be open. -/
def finish (a : Assembly) (last : Token) : Except ParseError (List Expr) :=
  if a.isComplete then .ok a.statements.reverse
  else
    match a.step last with
    | .error misfit => .error ⟨misfit, last⟩
    | .ok a => .ok a.statements.reverse

end Assembly

/-- The outcome of reading a program: its statements or what is wrong with it, and the
    symbols that are known afterwards. -/
structure Reading where
  program : Except ParseError (List Expr)
  symbols : SymbolTable

/-- Read a program from its significant tokens and the end of the input after them. -/
def readTokens (symbols : SymbolTable) (tokens : List Token) (last : Token) : Reading :=
  match (Assembly.start symbols).feed tokens with
  | (a, none) => ⟨a.finish last, a.symbols⟩
  | (a, some e) => ⟨.error e, a.symbols⟩

/-- Read a program from its text. -/
def readProgram (symbols : SymbolTable) (text : String) : Reading :=
  readTokens symbols (significantTokens text) (endToken text)

end LispSession
