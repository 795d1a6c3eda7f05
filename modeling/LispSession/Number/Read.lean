/-! # Reading numbers

The decimal texts of numbers and the value of each: an optional sign, then either one
of the words for infinity and for "not a number" in any case of letters, or digits with
an optional point among them and an optional power of ten. The value is the number
nearest to the exact decimal, the even one of two that are equally near. -/

namespace LispSession.Number

/-- The value of a run of decimal digits, continuing from the value of those before it. -/
def digitsValue (before : Nat) (digits : List Char) : Nat :=
  digits.foldl (fun n c => 10 * n + (c.toNat - '0'.toNat)) before

/-- `mantissa` times ten to the power `exponent`. -/
def ofDecimal (mantissa : Nat) (exponent : Int) : Float :=
  Float.ofScientific mantissa (exponent < 0) exponent.natAbs

/-- An optional sign, and what follows it. -/
def splitSign : List Char → Bool × List Char
  | '+' :: rest => (false, rest)
  | '-' :: rest => (true, rest)
  | text => (false, text)

/-- The power of ten that ends a decimal: nothing at all, or a letter `e`, an optional
    sign and at least one digit. -/
def readExponent? : List Char → Option Int
  | [] => some 0
  | c :: text =>
    if c == 'e' || c == 'E' then
      let (negative, digits) := splitSign text
      if digits.isEmpty || !digits.all Char.isDigit then none
      else
        let value : Int := digitsValue 0 digits
        some (if negative then -value else value)
    else none

/-- An unsigned decimal: digits on at least one side of an optional point, then an
    optional power of ten. -/
def readDecimal? (text : List Char) : Option Float :=
  let whole := text.takeWhile Char.isDigit
  let rest := text.dropWhile Char.isDigit
  let fraction := match rest with
    | '.' :: tail => tail.takeWhile Char.isDigit
    | _ => []
  let rest := match rest with
    | '.' :: tail => tail.dropWhile Char.isDigit
    | _ => rest
  if whole.isEmpty && fraction.isEmpty then none
  else
    (readExponent? rest).map fun exponent =>
      ofDecimal (digitsValue (digitsValue 0 whole) fraction) (exponent - fraction.length)

/-- An unsigned number: a decimal or one of the words. -/
def readUnsigned? (text : List Char) : Option Float :=
  let word := String.ofList (text.map Char.toLower)
  if word == "inf" || word == "infinity" then some (1.0 / 0.0)
  else if word == "nan" then some (0.0 / 0.0)
  else readDecimal? text

/-- The number that a text denotes, if it is the text of one. -/
def read? (text : String) : Option Float :=
  let (negative, rest) := splitSign text.toList
  (readUnsigned? rest).map fun x => if negative then -x else x

end LispSession.Number
