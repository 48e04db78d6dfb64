import OpTree.Decimal.Binary

set_option autoImplicit false

/-!
# Shortest decimals

The decimal with the fewest digits among those that round to a given binary number. Of several
with that many digits the nearest is taken, and of two equally near the larger one. All of it is
exact arithmetic on natural numbers.
-/

namespace OpTree.Decimal

def leadingZeros (unit : Nat) : Nat → Nat → Nat
  | 0, _ => 0
  | fuel + 1, value =>
    if unit ≤ 10 * value then 0 else leadingZeros unit fuel (10 * value) + 1

/-- The number `p` with `10 ^ (p - 1) ≤ value / unit < 10 ^ p`. -/
def Interval.magnitude (i : Interval) : Int :=
  if i.value / i.unit = 0 then
    -(leadingZeros i.unit 400 i.value : Int)
  else
    (Nat.toDigits 10 (i.value / i.unit)).length

def Interval.onGrid (i : Interval) (exponent : Int) : Option Nat :=
  let step := i.unit * Nat.pow 10 exponent.toNat
  let low := i.low * Nat.pow 10 (-exponent).toNat
  let value := i.value * Nat.pow 10 (-exponent).toNat
  let high := i.high * Nat.pow 10 (-exponent).toNat
  let down := value / step
  let up := down + 1
  let downRounds := if i.closed then low ≤ down * step else low < down * step
  let upRounds := if i.closed then up * step ≤ high else up * step < high
  if downRounds then
    if upRounds ∧ up * step - value ≤ value - down * step then some up else some down
  else if upRounds then
    some up
  else
    none

structure Digits where
  digits : List Char
  point : Int
  deriving DecidableEq, Repr

def dropTrailingZeros (digits : List Char) : List Char :=
  (digits.reverse.dropWhile fun c => c == '0').reverse

def Digits.ofScaled (coefficient : Nat) (exponent : Int) : Digits :=
  let digits := Nat.toDigits 10 coefficient
  { digits := dropTrailingZeros digits, point := digits.length + exponent }

/-- The shortest decimal that rounds to `significand * 2 ^ exponent`, which is not zero.
Seventeen digits are always enough. -/
def shortest (significand : Nat) (exponent : Int) : Digits :=
  let i := Interval.around significand exponent
  let p := i.magnitude
  let hit := (List.range 17).findSome? fun (n : Nat) =>
    let grid := p - ((n : Int) + 1)
    (i.onGrid grid).map fun coefficient => Digits.ofScaled coefficient grid
  hit.getD (Digits.ofScaled 0 0)

end OpTree.Decimal
