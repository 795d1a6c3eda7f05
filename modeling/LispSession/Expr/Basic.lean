import LispSession.Symbol

/-! # Expressions

What a program is made of. The special forms are told apart when a program is read, so
an expression shows by its shape what it does, and quoted lists are data of their own. -/

namespace LispSession

/-- An element of a quoted list. -/
inductive Literal where
  | symbol (name : Symbol)
  | number (x : Float)
  | string (text : String)
  | boolean (b : Bool)
  | list (items : List Literal)

mutual

/-- A statement of a program, or a part of one. -/
inductive Expr where
  /-- A name that stands for the value bound to it. -/
  | variable (name : Symbol)
  | number (x : Float)
  | string (text : String)
  | boolean (b : Bool)
  /-- A quoted name, which stands for itself. -/
  | quoted (name : Symbol)
  /-- A quoted list. -/
  | data (items : List Literal)
  | cons (car cdr : Expr)
  | define (name : Symbol) (value : Expr)
  | lambda (fn : Lambda)
  | branch (condition consequent alternative : Expr)
  | sequence (body : List Expr)
  | assign (name : Symbol) (value : Expr)
  | apply (operator : Operator) (arguments : List Expr)

/-- A function: the names of its parameters and the expressions of its body. -/
inductive Lambda where
  | mk (params : List Symbol) (body : List Expr)

/-- What is applied to arguments. -/
inductive Operator where
  | variable (name : Symbol)
  | lambda (fn : Lambda)

end

namespace Lambda

/-- The names of the parameters, in order. -/
def params : Lambda → List Symbol
  | mk params _ => params

/-- The expressions of the body, in order. -/
def body : Lambda → List Expr
  | mk _ body => body

/-- How many arguments the function takes. -/
def arity (fn : Lambda) : Nat := fn.params.length

/-- The parameters of a function that has been made of some. -/
@[simp] theorem params_mk (params : List Symbol) (body : List Expr) :
    (mk params body).params = params := rfl

/-- The body of a function that has been made of one. -/
@[simp] theorem body_mk (params : List Symbol) (body : List Expr) :
    (mk params body).body = body := rfl

end Lambda

/-- A literal that stands as a statement: a symbol there is a variable, and a list is
    data. -/
def Literal.toExpr : Literal → Expr
  | .symbol name => .variable name
  | .number x => .number x
  | .string text => .string text
  | .boolean b => .boolean b
  | .list items => .data items

end LispSession
