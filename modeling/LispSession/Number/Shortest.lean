/-! # Shortest decimals

The decimal with the fewest digits that is read back as a given number. A number
`m * 2 ^ q` owns an interval of reals that are nearer to it than to any other number;
the ends belong to it when `m` is even. Among the decimals of the interval that lie on
the coarsest grid `10 ^ p`, the one nearest to the number is taken, and of two that are
equally near the greater. All of this is exact arithmetic on natural numbers. -/

namespace LispSession.Number

/-- A positive number and the ends of the interval it owns, over a common denominator. -/
structure Interval where
  center : Nat
  lower : Nat
  upper : Nat
  /-- The ends belong to the interval. -/
  closed : Bool
  denominator : Nat

/-- The least exponent of a number's last binary digit. -/
def leastExponent : Int := -1074

/-- The least mantissa that uses all binary digits. -/
def leastFullMantissa : Nat := Nat.pow 2 52

/-- The interval of `m * 2 ^ q`. The gap below the least full mantissa is half as wide as
    the gap above it, except at the least exponent. -/
def Interval.ofBinary (m : Nat) (q : Int) : Interval :=
  let below := if m = leastFullMantissa ∧ leastExponent < q then 1 else 2
  let scale := Nat.pow 2 q.toNat
  { center := 4 * m * scale
    lower := (4 * m - below) * scale
    upper := (4 * m + 2) * scale
    closed := m % 2 == 0
    denominator := 4 * Nat.pow 2 (-q).toNat }

/-- The decimal `n * 10 ^ p` lies in the interval. -/
def Interval.contains (v : Interval) (n : Nat) (p : Int) : Bool :=
  let point := n * Nat.pow 10 p.toNat * v.denominator
  let scale := Nat.pow 10 (-p).toNat
  if v.closed then v.lower * scale ≤ point && point ≤ v.upper * scale
  else v.lower * scale < point && point < v.upper * scale

/-- The greatest `n` with `n * 10 ^ p` at most the center. -/
def Interval.floor (v : Interval) (p : Int) : Nat :=
  v.center * Nat.pow 10 (-p).toNat / (v.denominator * Nat.pow 10 p.toNat)

/-- The center is strictly nearer to `n * 10 ^ p` than to the next decimal of that grid. -/
def Interval.nearerBelow (v : Interval) (n : Nat) (p : Int) : Bool :=
  2 * (v.center * Nat.pow 10 (-p).toNat) < (2 * n + 1) * Nat.pow 10 p.toNat * v.denominator

/-- The decimal of the grid `10 ^ p` that stands for the center, if one lies in the
    interval. -/
def Interval.onGrid? (v : Interval) (p : Int) : Option Nat :=
  let n := v.floor p
  if v.contains n p then
    if v.contains (n + 1) p && !v.nearerBelow n p then some (n + 1) else some n
  else if v.contains (n + 1) p then some (n + 1)
  else none

/-- The decimal `n * 10 ^ p` on the coarsest grid that has one, from `p` down through at
    most `steps` finer grids. -/
def Interval.search (v : Interval) : Nat → Int → Nat × Int
  | 0, p => (v.floor p, p)
  | steps + 1, p =>
    match v.onGrid? p with
    | some n => (n, p)
    | none => v.search steps (p - 1)

/-- A power of ten that is not below `m * 2 ^ q`, and less than a thousand times as great:
    `1233 / 4096` is the decimal logarithm of two, rounded down. -/
def gridAbove (m : Nat) (q : Int) : Int :=
  (m.log2 + 1 + q) * 1233 / 4096 + 1

/-- The shortest decimal of `m * 2 ^ q` as its digits and their power of ten. Seventeen
    digits are always enough, so the search ends within its steps. -/
def shortest (m : Nat) (q : Int) : Nat × Int :=
  (Interval.ofBinary m q).search 24 (gridAbove m q)

end LispSession.Number
