set_option autoImplicit false

namespace OpTree.Decimal

inductive Parts where
  | nan
  | infinite (negative : Bool)
  | finite (negative : Bool) (significand : Nat) (exponent : Int)
  deriving DecidableEq, Repr

def leastExponent : Int := -1074

def hiddenBit : Nat := 0x10000000000000

def Parts.ofBits (bits : Nat) : Parts :=
  let negative := decide (0x8000000000000000 ≤ bits)
  let biased : Nat := bits / hiddenBit % 0x800
  let fraction : Nat := bits % hiddenBit
  if biased = 0x7FF then
    if fraction = 0 then .infinite negative else .nan
  else if biased = 0 then
    .finite negative fraction leastExponent
  else
    .finite negative (hiddenBit + fraction) (leastExponent + (biased - 1))

def Parts.ofFloat (x : Float) : Parts :=
  Parts.ofBits x.toBits.toNat

/-- A positive number and the ends of the interval that rounds to it, all over `unit`. -/
structure Interval where
  low : Nat
  value : Nat
  high : Nat
  unit : Nat
  closed : Bool
  deriving DecidableEq, Repr

/-- The reals that round to `significand * 2 ^ exponent`. Below a power of two the gap is half
as wide, except at the least exponent; of two numbers equally near, the even one is taken. -/
def Interval.around (significand : Nat) (exponent : Int) : Interval :=
  let scale := Nat.pow 2 exponent.toNat
  let below := if significand = hiddenBit ∧ exponent ≠ leastExponent then 1 else 2
  { low := (4 * significand - below) * scale
    value := 4 * significand * scale
    high := (4 * significand + 2) * scale
    unit := 4 * Nat.pow 2 (-exponent).toNat
    closed := decide (significand % 2 = 0) }

end OpTree.Decimal
