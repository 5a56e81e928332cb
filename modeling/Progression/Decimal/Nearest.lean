import Progression.Decimal.Digits

/-! From exact numbers to floats. A quotient of naturals becomes the nearest double, and of two
that are equally near the one with the even significand. All of it is computed on naturals. -/

namespace Progression.Decimal

/-- The natural nearest to `num / den`; halves go to the even neighbour. -/
def roundHalfEven (num den : Nat) : Nat :=
  let quotient := num / den
  let rest := num % den
  if 2 * rest < den then quotient
  else if den < 2 * rest then quotient + 1
  else quotient + quotient % 2

/-- Numerator and denominator of `num / den` divided by two to the power `scale`. -/
def unscale (num den : Nat) (scale : Int) : Nat × Nat :=
  if 0 ≤ scale then (num, den * Nat.pow 2 scale.toNat) else (num * Nat.pow 2 (-scale).toNat, den)

/-- The exponent of the unit in the last place of a double near `num / den`: with it the quotient
is below two to the 53rd, and at least two to the 52nd unless the exponent is the least one. -/
def unitExponent (num den : Nat) : Int :=
  let guess : Int := (num.log2 : Int) - (den.log2 : Int) - 53
  let (n, d) := unscale num den guess
  max (-1074) (if n < d * Nat.pow 2 53 then guess else guess + 1)

/-- The bits of the positive infinite double; those of every finite one are below them. -/
def infinityBits : Nat := 0x7FF * Nat.pow 2 52

/-- The bits of the nonnegative double nearest to `num / den`. Exponent and significand add up to
them: a significand that rounds up to the next power of two carries into the exponent. -/
def nearestBits (num den : Nat) : Nat :=
  if num = 0 then 0
  else
    let exponent := unitExponent num den
    let (n, d) := unscale num den exponent
    min infinityBits ((exponent + 1074).toNat * Nat.pow 2 52 + roundHalfEven n d)

/-- The double nearest to `num / den`, or to its opposite. -/
def nearest (negative : Bool) (num den : Nat) : Float :=
  Float.ofBits (UInt64.ofNat (nearestBits num den + if negative then Nat.pow 2 63 else 0))

/-- The double nearest to an integer. -/
def ofInteger (i : Int) : Float := nearest (decide (i < 0)) i.natAbs 1

/-- The double nearest to a numeral with a sign or none, digits, and possibly a dot among them. -/
def float? (cs : List Char) : Option Float :=
  let (negative, body) := splitSign cs
  let whole := body.takeWhile (· ≠ '.')
  let fraction := (body.dropWhile (· ≠ '.')).drop 1
  (natural? (whole ++ fraction)).map fun n => nearest negative n (Nat.pow 10 fraction.length)

end Progression.Decimal
