/-!
# The shortest decimal of a binary number

Between a binary number and each of its neighbours lies a border; every real between the two
borders rounds to the number, and the borders themselves do when the significand is even. The
shortest decimal is the one with the fewest digits in that interval. Among those with as few it is
the nearest to the number, and the larger one if two are equally near. All of it is exact
arithmetic on natural numbers.
-/

namespace DataBinding

/-- The decimal `digits * 10 ^ exponent`. -/
structure Decimal where
  digits : Nat
  exponent : Int
deriving DecidableEq

namespace Decimal

/-- The number of decimal digits of `n`. -/
def length (n : Nat) : Nat :=
  (Nat.toDigits 10 n).length

/-- The same decimal without trailing zeros among its digits. -/
def strip (d : Decimal) : Decimal :=
  if h : d.digits ≠ 0 ∧ d.digits % 10 = 0 then strip ⟨d.digits / 10, d.exponent + 1⟩ else d
termination_by d.digits
decreasing_by
  have := h.1
  omega

/-- The interval of reals that round to a number, as fractions over one denominator: the number
itself, the lower and the upper border, and whether the borders belong to it. -/
structure Interval where
  value : Nat
  lower : Nat
  upper : Nat
  denominator : Nat
  closed : Bool

/-- The interval of `significand * 2 ^ scale`. The lower border is half as far away when the
number begins a new power of two, since its lower neighbour is then half as far. -/
def Interval.of (significand : Nat) (scale : Int) (beginsPower : Bool) : Interval :=
  let shift := scale - 2
  let factor := Nat.pow 2 shift.toNat
  { value := 4 * significand * factor
    lower := (4 * significand - if beginsPower then 1 else 2) * factor
    upper := (4 * significand + 2) * factor
    denominator := Nat.pow 2 (-shift).toNat
    closed := significand % 2 = 0 }

/-- The interval in units of `10 ^ exponent`. -/
def Interval.inUnits (i : Interval) (exponent : Int) : Interval :=
  let up := Nat.pow 10 (-exponent).toNat
  { value := i.value * up
    lower := i.lower * up
    upper := i.upper * up
    denominator := i.denominator * Nat.pow 10 exponent.toNat
    closed := i.closed }

/-- Whether the whole number `c` lies in the interval. -/
def Interval.holds (i : Interval) (c : Nat) : Bool :=
  if i.closed then i.lower ≤ c * i.denominator && c * i.denominator ≤ i.upper
  else i.lower < c * i.denominator && c * i.denominator < i.upper

/-- The whole number of the interval that is nearest to its value, if it holds one of the two
whole numbers around the value; of two equally near ones the larger. -/
def Interval.nearest? (i : Interval) : Option Nat :=
  let below := i.value / i.denominator
  match i.holds below, i.holds (below + 1) with
  | true, true =>
    some (if (2 * below + 1) * i.denominator ≤ 2 * i.value then below + 1 else below)
  | true, false => some below
  | false, true => some (below + 1)
  | false, false => none

/-- The exponent of the leading decimal digit of a positive value. -/
def Interval.leading (i : Interval) : Int :=
  if i.denominator ≤ i.value then (length (i.value / i.denominator) : Int) - 1
  else -(length ((i.denominator - 1) / i.value) : Int)

/-- The first grid from the leading digit on, with at most 17 digits, that has a point in the
interval. Seventeen digits are enough for every binary64 number. -/
def Interval.shortest (i : Interval) : Decimal :=
  let point (n : Nat) : Option Decimal :=
    let exponent := i.leading - n
    (i.inUnits exponent).nearest?.map fun digits => ⟨digits, exponent⟩
  (((List.range 17).findSome? point).getD ⟨0, 0⟩).strip

end Decimal

end DataBinding
