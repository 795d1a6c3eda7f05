import LispSession.Expr.Basic

/-! # Values

What expressions evaluate to. A closure refers to the frame it was created in by the
place of that frame among all frames, and a native function is referred to by name, so
values own nothing but their parts. -/

namespace LispSession

/-- The place of a frame among the frames of an environment. -/
structure FrameId where
  index : Nat
deriving DecidableEq, Repr

namespace FrameId

/-- The outermost frame. -/
def global : FrameId := ⟨0⟩

end FrameId

/-- A value of the language. -/
inductive Value where
  | number (x : Float)
  | string (text : String)
  | symbol (name : Symbol)
  | boolean (b : Bool)
  /-- The empty list. -/
  | null
  | pair (car cdr : Value)
  /-- A function with the frame it was created in. -/
  | closure (fn : Lambda) (frame : FrameId)
  /-- A native function, by its registered name. -/
  | native (name : String)

/-- The types of values. -/
inductive ValueType where
  | number
  | string
  | symbol
  | boolean
  | null
  | pair
  | function
  | native
deriving DecidableEq, Repr

/-- The name of the type, as messages give it. -/
def ValueType.name : ValueType → String
  | number => "number"
  | string => "string"
  | symbol => "symbol"
  | boolean => "boolean"
  | null => "null"
  | pair => "pair"
  | function => "function"
  | native => "native function"

namespace Value

instance : Inhabited Value := ⟨null⟩

/-- The type of a value. -/
def type : Value → ValueType
  | number _ => .number
  | string _ => .string
  | symbol _ => .symbol
  | boolean _ => .boolean
  | null => .null
  | pair _ _ => .pair
  | closure _ _ => .function
  | native _ => .native

/-- The value lets a conditional take its first branch. Exactly these do not: false, the
    number zero, the empty string and the empty list. -/
def isTruthy : Value → Bool
  | boolean b => b
  | number x => x != 0.0
  | string text => text != ""
  | null => false
  | _ => true

/-- The value can be called. -/
def isCallable : Value → Bool
  | closure _ _ => true
  | native _ => true
  | _ => false

/-- The pairs that put the items of a list in front of a tail. -/
def listOnto (items : List Value) (tail : Value) : Value :=
  items.foldr pair tail

/-- A proper list. -/
def ofList (items : List Value) : Value := listOnto items null

/-- The list of no values. -/
@[simp] theorem ofList_nil : ofList [] = null := rfl

/-- The list of values is a pair of the first one and the list of the others. -/
@[simp] theorem ofList_cons (item : Value) (items : List Value) :
    ofList (item :: items) = pair item (ofList items) := rfl

end Value

mutual

/-- The value of quoted data: names stay symbols, and lists become pairs. -/
def Literal.toValue : Literal → Value
  | .symbol name => .symbol name
  | .number x => .number x
  | .string text => .string text
  | .boolean b => .boolean b
  | .list items => Literal.listValue items

/-- The proper list of the values of quoted items. -/
def Literal.listValue : List Literal → Value
  | [] => .null
  | item :: items => .pair item.toValue (Literal.listValue items)

end

/-- A quoted list is the list of the values that its items stand for. -/
theorem Literal.listValue_eq (items : List Literal) :
    Literal.listValue items = Value.ofList (items.map Literal.toValue) := by
  induction items with
  | nil => rfl
  | cons item items ih => simp [Literal.listValue, ih]

end LispSession
