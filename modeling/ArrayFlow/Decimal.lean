/-!
# Decimal numbers read as floats

A request writes a number in decimal, as a significand of at most 64 bits and a power of ten
(`ArrayFlow.Decimal`). It is read as a float in two roundings
(`ArrayFlow.Decimal.toFloat?`): the significand is rounded to the nearest float, and the result is
multiplied, or divided, by the float nearest to the power of ten, by at most `10^308` at a time.
The result is then not always the float nearest to the number: `0.010000000000000009` reads as
the float just below the nearest one. A number too large for a float is refused.

`ArrayFlow.Decimal.nearest` rounds a natural number to the nearest float, ties to the even one.
-/

namespace ArrayFlow

/-- **A decimal number**: `± significand · 10^exponent`. -/
structure Decimal where
  /-- Whether the number is negative; a negative zero is a zero of its own. -/
  negative : Bool
  /-- The digits, as a number below `2^64`. -/
  significand : Nat
  /-- The power of ten. -/
  exponent : Int

namespace Decimal

/-- **The float nearest to a natural number**; of two equally near, the one with an even last
digit. Below `2^53` every natural number is a float. -/
def nearest (n : Nat) : Float :=
  if n < 9007199254740992 then Float.ofNat n
  else
    let shift := Nat.log2 n - 52
    let q := n >>> shift
    let r := n - (q <<< shift)
    let half := 1 <<< (shift - 1)
    let q := if half < r || (r == half && q % 2 == 1) then q + 1 else q
    Float.scaleB (Float.ofNat q) (Int.ofNat shift)

/-- The float nearest to `10^k`. -/
def powerOfTen (k : Nat) : Float := nearest (Nat.pow 10 k)

/-- Scales `f` by `10^e`, by at most `10^308` at a time, as long as `fuel` lasts: a product
that overflows is refused, and a quotient that reaches zero stays there. -/
def scale (fuel : Nat) (f : Float) (e : Int) : Option Float :=
  if e.natAbs ≤ 308 then
    if 0 ≤ e then
      let g := f * powerOfTen e.natAbs
      if g.isInf then none else some g
    else some (f / powerOfTen e.natAbs)
  else if f == 0.0 then some f
  else if 0 ≤ e then none
  else
    match fuel with
    | 0 => some 0.0
    | fuel + 1 => scale fuel (f / powerOfTen 308) (e + 308)

/-- **Reads a decimal number as a float**: the nearest float to the significand, scaled by the
power of ten; `none` when the number is too large for a float. -/
def toFloat? (d : Decimal) : Option Float :=
  (scale (d.exponent.natAbs / 308 + 1) (nearest d.significand) d.exponent).map fun f =>
    if d.negative then -f else f

end Decimal

end ArrayFlow
