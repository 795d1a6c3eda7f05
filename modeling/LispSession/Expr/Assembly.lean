import LispSession.Number.Read
import LispSession.Expr.Basic
import LispSession.Expr.ParseError

/-! # Assembling expressions from tokens

Tokens are read one at a time, and each is either fitted into the program or refused; no
token is looked at before its turn and none is read again. What has been read so far is
an `Assembly`: the statements that are complete, the forms that are still open around
the current place, innermost first, and what the next token must be.

The grammar that the steps accept:

```text
program    := statement*
statement  := number | string | boolean | symbol | "'" symbol | "'" list | form
list       := "(" (number | string | boolean | symbol | list)* ")"
form       := "(" "define" symbol statement ")"
            | "(" "define" "(" symbol symbol* ")" statement+ ")"
            | "(" "lambda" "(" symbol* ")" statement+ ")"
            | "(" "if" statement statement statement ")"
            | "(" "begin" statement+ ")"
            | "(" "set!" symbol statement ")"
            | "(" "cons" statement statement ")"
            | "(" symbol statement* ")"
            | "(" "(" "lambda" "(" symbol* ")" statement+ ")" statement* ")"
```

where no name occurs twice among the parameters of a function. -/

namespace LispSession

/-- What becomes of a function once its body is complete. -/
inductive FunctionUse where
  /-- It is an expression. -/
  | expression
  /-- It is applied to the arguments that follow it. -/
  | operator
  /-- It is bound to this name. -/
  | definition (name : Symbol)

namespace FunctionUse

/-- The keyword that opened the function. -/
def form : FunctionUse → Keyword
  | definition _ => .define
  | _ => .lambda

end FunctionUse

/-- An open form that takes expressions. Those it has taken are kept latest first. -/
inductive OpenForm where
  | define (name : Symbol)
  | assign (name : Symbol)
  | branch
  | branchThen (condition : Expr)
  | branchElse (condition consequent : Expr)
  | cons
  | consCdr (car : Expr)
  | sequence (taken : List Expr)
  | body (use : FunctionUse) (params : List Symbol) (taken : List Expr)
  | apply (operator : Operator) (taken : List Expr)
  /-- All parts are there, and only the end of the form can follow. -/
  | complete (form : Expr)

/-- What the next token must be. -/
inductive Expecting where
  /-- The start of an expression, or the end of the innermost open form. -/
  | expression
  /-- The first word of a form. -/
  | head
  /-- The `lambda` of a function that is applied. -/
  | operator
  /-- The name that a definition binds, or the start of a function's name and
      parameters. -/
  | definition
  /-- The name of a function that is defined. -/
  | functionName
  /-- The name that an assignment changes. -/
  | assigned
  /-- The start of a parameter list. -/
  | params (use : FunctionUse)
  /-- A parameter or the end of the parameters; those before it latest first. -/
  | param (use : FunctionUse) (taken : List Symbol)
  /-- What is quoted. -/
  | quoted
  /-- An item of a quoted list or its end; the items before it latest first, and the
      same for each list around it. -/
  | item (taken : List Literal) (outer : List (List Literal))

/-- What has been read of a program. -/
structure Assembly where
  expecting : Expecting
  /-- The open forms around the current place, innermost first. -/
  forms : List OpenForm
  /-- The complete statements, latest first. -/
  statements : List Expr
  symbols : SymbolTable

namespace Assembly

/-- Nothing has been read. -/
def start (symbols : SymbolTable) : Assembly := ⟨.expression, [], [], symbols⟩

/-- No form is open, so that the program may end here. -/
def isComplete (a : Assembly) : Bool :=
  match a.expecting, a.forms with
  | .expression, [] => true
  | _, _ => false

/-- Wait for an expression, with the given forms open. -/
def within (a : Assembly) (forms : List OpenForm) : Assembly :=
  { a with expecting := .expression, forms := forms }

/-- Wait for something else inside the forms that are open. -/
def expect (a : Assembly) (expecting : Expecting) : Assembly :=
  { a with expecting := expecting }

/-- Fit a complete expression into the innermost open form, or into the program. -/
def deliver (a : Assembly) (e : Expr) : List OpenForm → Assembly
  | [] => { a with expecting := .expression, forms := [], statements := e :: a.statements }
  | .define name :: forms => a.within (.complete (.define name e) :: forms)
  | .assign name :: forms => a.within (.complete (.assign name e) :: forms)
  | .branch :: forms => a.within (.branchThen e :: forms)
  | .branchThen condition :: forms => a.within (.branchElse condition e :: forms)
  | .branchElse condition consequent :: forms =>
    a.within (.complete (.branch condition consequent e) :: forms)
  | .cons :: forms => a.within (.consCdr e :: forms)
  | .consCdr car :: forms => a.within (.complete (.cons car e) :: forms)
  | .sequence taken :: forms => a.within (.sequence (e :: taken) :: forms)
  | .body use params taken :: forms => a.within (.body use params (e :: taken) :: forms)
  | .apply operator taken :: forms => a.within (.apply operator (e :: taken) :: forms)
  -- A complete form takes nothing more; no token leads here.
  | .complete form :: forms => a.within (.complete form :: forms)

/-- A function whose body is complete goes where it is used. -/
def deliverFunction (a : Assembly) (use : FunctionUse) (fn : Lambda) (forms : List OpenForm) :
    Assembly :=
  match use with
  | .expression => a.deliver (.lambda fn) forms
  | .operator => a.within (.apply (.lambda fn) [] :: forms)
  | .definition name => a.deliver (.define name (.lambda fn)) forms

/-- End the innermost open form. -/
def close (a : Assembly) : Except Misfit Assembly :=
  match a.forms with
  | [] => .error (.unexpected .opening)
  | .define _ :: _ => .error (.missing .define .value)
  | .assign _ :: _ => .error (.missing .assign .value)
  | .branch :: _ => .error (.missing .branch .condition)
  | .branchThen _ :: _ => .error (.missing .branch .consequent)
  | .branchElse _ _ :: _ => .error (.missing .branch .alternative)
  | .cons :: _ => .error (.missing .cons .car)
  | .consCdr _ :: _ => .error (.missing .cons .cdr)
  | .sequence [] :: _ => .error (.emptyBody .sequence)
  | .sequence taken :: forms => .ok (a.deliver (.sequence taken.reverse) forms)
  | .body use _ [] :: _ => .error (.emptyBody use.form)
  | .body use params taken :: forms =>
    .ok (a.deliverFunction use (.mk params taken.reverse) forms)
  | .apply operator taken :: forms => .ok (a.deliver (.apply operator taken.reverse) forms)
  | .complete form :: forms => .ok (a.deliver form forms)

/-- The symbol for the characters of a token, and the assembly that knows it. -/
def intern (a : Assembly) (token : Token) : Symbol × Assembly :=
  let (symbol, symbols) := a.symbols.intern token.text
  (symbol, { a with symbols := symbols })

/-- The characters between the quotes of a string token. -/
def unquote (text : String) : String :=
  String.ofList (text.toList.drop 1).dropLast

/-- The literal that a token denotes, and the assembly that knows its symbol. -/
def literal (a : Assembly) (token : Token) : Except Misfit (Literal × Assembly) :=
  match token.kind with
  | .symbol =>
    let (symbol, a) := a.intern token
    .ok (.symbol symbol, a)
  | .boolean => .ok (.boolean (token.text == "#t"), a)
  | .string => .ok (.string (unquote token.text), a)
  | .number =>
    match Number.read? token.text with
    | some x => .ok (.number x, a)
    | none => .error .unreadableNumber
  | _ => .error (.unexpected .literal)

/-- Start an expression with a token, or end the innermost form with it. -/
def stepExpression (a : Assembly) (token : Token) : Except Misfit Assembly :=
  match a.forms with
  | .complete form :: forms =>
    if token.kind = .rightParen then .ok (a.deliver form forms)
    else .error (.unexpected .closing)
  | forms =>
    match token.kind with
    | .symbol | .number | .boolean | .string =>
      match a.literal token with
      | .ok (l, a) => .ok (a.deliver l.toExpr forms)
      | .error misfit => .error misfit
    | .quote => .ok (a.expect .quoted)
    | .leftParen => .ok (a.expect .head)
    | .rightParen => a.close
    | _ => .error (.unexpected .opening)

/-- Open a form with its first word. -/
def stepHead (a : Assembly) (token : Token) : Except Misfit Assembly :=
  match token.kind with
  | .keyword .define => .ok (a.expect .definition)
  | .keyword .lambda => .ok (a.expect (.params .expression))
  | .keyword .branch => .ok (a.within (.branch :: a.forms))
  | .keyword .sequence => .ok (a.within (.sequence [] :: a.forms))
  | .keyword .assign => .ok (a.expect .assigned)
  | .keyword .cons => .ok (a.within (.cons :: a.forms))
  | .leftParen => .ok (a.expect .operator)
  | .symbol =>
    let (symbol, a) := a.intern token
    .ok (a.within (.apply (.variable symbol) [] :: a.forms))
  | _ => .error (.unexpected .head)

/-- Continue a parameter list, or end it. A name is interned before it is compared with
    those before it. -/
def stepParam (a : Assembly) (use : FunctionUse) (taken : List Symbol) (token : Token) :
    Except Misfit Assembly :=
  match token.kind with
  | .rightParen => .ok (a.within (.body use taken.reverse [] :: a.forms))
  | .symbol =>
    let (symbol, a) := a.intern token
    if symbol ∈ taken then .error .repeatedParameter
    else .ok (a.expect (.param use (symbol :: taken)))
  | _ => .error .notParameter

/-- Continue a quoted list, or end it. -/
def stepItem (a : Assembly) (taken : List Literal) (outer : List (List Literal))
    (token : Token) : Except Misfit Assembly :=
  match token.kind with
  | .leftParen => .ok (a.expect (.item [] (taken :: outer)))
  | .rightParen =>
    match outer with
    | [] => .ok (a.deliver (.data taken.reverse) a.forms)
    | around :: outer => .ok (a.expect (.item (.list taken.reverse :: around) outer))
  | _ =>
    match a.literal token with
    | .ok (l, a) => .ok (a.expect (.item (l :: taken) outer))
    | .error misfit => .error misfit

/-- Fit the next token, or say why it does not fit. -/
def step (a : Assembly) (token : Token) : Except Misfit Assembly :=
  match a.expecting with
  | .expression => a.stepExpression token
  | .head => a.stepHead token
  | .operator =>
    if token.kind = .keyword .lambda then .ok (a.expect (.params .operator))
    else .error (.unexpected .lambda)
  | .definition =>
    match token.kind with
    | .leftParen => .ok (a.expect .functionName)
    | .symbol =>
      let (symbol, a) := a.intern token
      .ok (a.within (.define symbol :: a.forms))
    | _ => .error (.unexpected .symbol)
  | .functionName =>
    match token.kind with
    | .symbol =>
      let (symbol, a) := a.intern token
      .ok (a.expect (.param (.definition symbol) []))
    | _ => .error (.unexpected .symbol)
  | .assigned =>
    match token.kind with
    | .symbol =>
      let (symbol, a) := a.intern token
      .ok (a.within (.assign symbol :: a.forms))
    | _ => .error (.unexpected .symbol)
  | .params use =>
    if token.kind = .leftParen then .ok (a.expect (.param use []))
    else .error (.unexpected .opening)
  | .param use taken => a.stepParam use taken token
  | .quoted =>
    match token.kind with
    | .leftParen => .ok (a.expect (.item [] []))
    | .symbol =>
      let (symbol, a) := a.intern token
      .ok (a.deliver (.quoted symbol) a.forms)
    | _ => .error .notQuotable
  | .item taken outer => a.stepItem taken outer token

end Assembly

end LispSession
