/-! # Remainder of a division

The remainder of the quotient cut off toward zero. It is exact: both operands are whole
multiples of one power of two, and the remainder of those multiples is a number again. -/

namespace LispSession.Number

open Float.Model (UnpackedFloat)

/-- The number nearest to `m * 2 ^ q` with the given sign. -/
def ofBinary (sign : UnpackedFloat.Sign) (m : Nat) (q : Int) : Float :=
  .ofModel (.pack (UnpackedFloat.round .binary64 sign m q))

/-- What remains of `x` after taking away `y` as often as it fits. The sign is that of
    `x`, also where nothing remains; there is no remainder of an infinity, nor by zero. -/
def remainder (x y : Float) : Float :=
  match x.toModel.unpack, y.toModel.unpack with
  | .finite sign m q _, .finite _ n r _ =>
    let common := min q r
    let rest := (m * Nat.pow 2 (q - common).toNat) % (n * Nat.pow 2 (r - common).toNat)
    if rest = 0 then .ofModel (.pack (.zero sign)) else ofBinary sign rest common
  | .finite .., .infinity _ => x
  | .zero _, .finite .. => x
  | .zero _, .infinity _ => x
  | _, _ => 0.0 / 0.0

end LispSession.Number
