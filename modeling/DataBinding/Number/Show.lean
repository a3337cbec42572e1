import DataBinding.Number.Basic
import DataBinding.Number.Shortest

/-!
# The text of a number

A number is written with the fewest digits that identify it, always positionally and without a
point when it is whole: `0.1`, `100000000000000000000`. The zeros are written `0`, the others `NaN`,
`Infinity` and `-Infinity`. Two further forms serve inspection: `signedText` tells the zeros
apart, and `inspect` marks every number as one (`10.0`) and uses an exponent for the very large
and the very small.
-/

namespace DataBinding

namespace Decimal

/-- The digits of the decimal, as a text. -/
def digitsText (d : Decimal) : List Char :=
  Nat.toDigits 10 d.digits

/-- Positional form. `point` is what follows the digits of a whole decimal. -/
def positional (d : Decimal) (point : List Char) : List Char :=
  let ds := d.digitsText
  if 0 ≤ d.exponent then ds ++ List.replicate d.exponent.toNat '0' ++ point
  else
    let places := (-d.exponent).toNat
    if places < ds.length then
      ds.take (ds.length - places) ++ '.' :: ds.drop (ds.length - places)
    else '0' :: '.' :: List.replicate (places - ds.length) '0' ++ ds

/-- The exponent of the leading digit. -/
def leadingExponent (d : Decimal) : Int :=
  d.exponent + d.digitsText.length - 1

/-- Exponent form: one digit, the others after a point, the exponent after an `e`. -/
def scientific (d : Decimal) : List Char :=
  let fraction :=
    match d.digitsText.tail with
    | [] => []
    | ds => '.' :: ds
  d.digitsText.take 1 ++ fraction ++ 'e' :: (toString d.leadingExponent).toList

end Decimal

namespace Number

/-- The shortest decimal of the absolute value of a finite number other than zero. -/
def decimal (n : Number) : Decimal :=
  (Decimal.Interval.of n.significand n.scale
    (n.fractionField = 0 && 1 < n.exponentField)).shortest

/-- The text `digits` with the sign of `n` in front. -/
def withSign (n : Number) (digits : List Char) : String :=
  String.ofList (if n.isNegative then '-' :: digits else digits)

/-- The text of a number in rendered output. -/
def text (n : Number) : String :=
  if n.isNaN then "NaN"
  else if n.isInfinite then n.withSign "Infinity".toList
  else if n.isZero then "0"
  else n.withSign (n.decimal.positional [])

/-- The text of a number that tells the two zeros apart. -/
def signedText (n : Number) : String :=
  if n.isZero then n.withSign ['0'] else n.text

/-- The text of a number for inspection: the point is always there, and numbers below `0.0001` or
from `10 ^ 16` on are written with an exponent. -/
def inspect (n : Number) : String :=
  if n.isNaN then "NaN"
  else if n.isInfinite then n.withSign "inf".toList
  else if n.isZero then n.withSign "0.0".toList
  else
    let d := n.decimal
    if -4 ≤ d.leadingExponent && d.leadingExponent < 16 then n.withSign (d.positional ['.', '0'])
    else n.withSign d.scientific

end Number

end DataBinding
