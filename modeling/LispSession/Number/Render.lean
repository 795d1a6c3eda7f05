import LispSession.Number.Shortest

/-! # The text of a number

The shortest decimal that is read back as the number, always written out in full:
never with a power of ten, and with a point only where a fraction follows it. -/

namespace LispSession.Number

open Float.Model (UnpackedFloat)

/-- The decimal `n * 10 ^ p`, written out. -/
def positional (n : Nat) (p : Int) : String :=
  let digits := Nat.toDigits 10 n
  let places := (-p).toNat
  if 0 ≤ p then String.ofList (digits ++ List.replicate p.toNat '0')
  else if places < digits.length then
    let whole := digits.length - places
    String.ofList (digits.take whole ++ '.' :: digits.drop whole)
  else String.ofList ('0' :: '.' :: List.replicate (places - digits.length) '0' ++ digits)

/-- The sign, written only when it is negative. -/
def signText : UnpackedFloat.Sign → String
  | .positive => ""
  | .negative => "-"

/-- The text of a number. Zero keeps its sign. -/
def render (x : Float) : String :=
  match x.toModel.unpack with
  | .notANumber => "NaN"
  | .infinity sign => signText sign ++ "inf"
  | .zero sign => signText sign ++ "0"
  | .finite sign m q _ => signText sign ++ positional (shortest m q).1 (shortest m q).2

end LispSession.Number
