import LispSession.Value.Basic

/-! # Equality of values

Two values are equal when they have the same shape and equal parts. Numbers are compared
as numbers, so that zero equals minus zero and "not a number" differs from itself;
closures are equal when their functions are written alike and were created in the same
frame. -/

namespace LispSession

mutual

/-- Equality of quoted data. -/
def Literal.equal : Literal → Literal → Bool
  | .symbol a, .symbol b => a == b
  | .number x, .number y => x == y
  | .string s, .string t => s == t
  | .boolean a, .boolean b => a == b
  | .list as, .list bs => Literal.equalLists as bs
  | _, _ => false

/-- Equality of quoted items, one by one. -/
def Literal.equalLists : List Literal → List Literal → Bool
  | [], [] => true
  | a :: as, b :: bs => a.equal b && Literal.equalLists as bs
  | _, _ => false

end

mutual

/-- Equality of expressions. -/
def Expr.equal : Expr → Expr → Bool
  | .variable a, .variable b => a == b
  | .number x, .number y => x == y
  | .string s, .string t => s == t
  | .boolean a, .boolean b => a == b
  | .quoted a, .quoted b => a == b
  | .data as, .data bs => Literal.equalLists as bs
  | .cons a₁ a₂, .cons b₁ b₂ => a₁.equal b₁ && a₂.equal b₂
  | .define a e, .define b f => a == b && e.equal f
  | .lambda f, .lambda g => f.equal g
  | .branch a₁ a₂ a₃, .branch b₁ b₂ b₃ => a₁.equal b₁ && a₂.equal b₂ && a₃.equal b₃
  | .sequence as, .sequence bs => Expr.equalLists as bs
  | .assign a e, .assign b f => a == b && e.equal f
  | .apply f as, .apply g bs => f.equal g && Expr.equalLists as bs
  | _, _ => false

/-- Equality of functions: the same parameters and equal bodies. -/
def Lambda.equal : Lambda → Lambda → Bool
  | .mk ps as, .mk qs bs => ps == qs && Expr.equalLists as bs

/-- Equality of operators. -/
def Operator.equal : Operator → Operator → Bool
  | .variable a, .variable b => a == b
  | .lambda f, .lambda g => f.equal g
  | _, _ => false

/-- Equality of expressions, one by one. -/
def Expr.equalLists : List Expr → List Expr → Bool
  | [], [] => true
  | a :: as, b :: bs => a.equal b && Expr.equalLists as bs
  | _, _ => false

end

/-- Equality of values. -/
def Value.equal : Value → Value → Bool
  | .number x, .number y => x == y
  | .string s, .string t => s == t
  | .symbol a, .symbol b => a == b
  | .boolean a, .boolean b => a == b
  | .null, .null => true
  | .pair a₁ a₂, .pair b₁ b₂ => a₁.equal b₁ && a₂.equal b₂
  | .closure f i, .closure g j => f.equal g && i == j
  | .native a, .native b => a == b
  | _, _ => false

instance : BEq Value := ⟨Value.equal⟩

end LispSession
