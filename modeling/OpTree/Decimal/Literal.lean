import OpTree.Numeral

set_option autoImplicit false

namespace OpTree.Decimal

/-- What a literal says, before rounding: a magnitude `coefficient * 10 ^ exponent`. -/
inductive Magnitude where
  | nan
  | infinite
  | finite (coefficient : Nat) (exponent : Int)
  deriving DecidableEq, Repr

structure Literal where
  negative : Bool
  magnitude : Magnitude
  deriving DecidableEq, Repr

def digitsValue (digits : List Char) : Nat :=
  Nat.ofDigitChars 10 digits 0

def takeDigits (text : List Char) : List Char × List Char :=
  (text.takeWhile Char.isDigit, text.dropWhile Char.isDigit)

def takeSign : List Char → Bool × List Char
  | '-' :: rest => (true, rest)
  | '+' :: rest => (false, rest)
  | text => (false, text)

def readPower (text : List Char) : Option Int :=
  let (negative, digits) := takeSign text
  if digits.isEmpty || !digits.all Char.isDigit then none
  else some (if negative then -(digitsValue digits : Int) else digitsValue digits)

def readExponent : List Char → Option Int
  | [] => some 0
  | c :: rest => if c = 'e' ∨ c = 'E' then readPower rest else none

def takeFraction : List Char → List Char × List Char
  | '.' :: rest => takeDigits rest
  | text => ([], text)

def readFinite (text : List Char) : Option Magnitude :=
  let (whole, afterWhole) := takeDigits text
  let (fraction, afterFraction) := takeFraction afterWhole
  if whole.isEmpty && fraction.isEmpty then none
  else (readExponent afterFraction).map fun power =>
    .finite (digitsValue (whole ++ fraction)) (power - fraction.length)

def readMagnitude (text : List Char) : Option Magnitude :=
  let lower := text.map Char.toLower
  if lower = "nan".toList then some .nan
  else if lower = "inf".toList ∨ lower = "infinity".toList then some .infinite
  else readFinite text

def Literal.read (text : List Char) : Option Literal :=
  let (negative, rest) := takeSign text
  (readMagnitude rest).map fun magnitude => { negative, magnitude }

/-- Ten to this power exceeds every finite number by far. -/
def overflowPower : Int := 310

/-- Ten to this power is less than half of the least positive number. -/
def underflowPower : Int := -325

def nearest (coefficient : Nat) (exponent : Int) : Float :=
  let top := (Nat.toDigits 10 coefficient).length + exponent
  if coefficient = 0 ∨ top ≤ underflowPower then
    Float.ofScientific 0 false 0
  else if overflowPower < top then
    Float.ofScientific 1 false 400
  else
    Float.ofScientific coefficient (decide (exponent < 0)) exponent.natAbs

def Magnitude.toFloat : Magnitude → Float
  | .nan => Float.ofBits 0x7FF8000000000000
  | .infinite => Float.ofBits 0x7FF0000000000000
  | .finite coefficient exponent => nearest coefficient exponent

def Literal.toFloat (l : Literal) : Float :=
  if l.negative then -l.magnitude.toFloat else l.magnitude.toFloat

end OpTree.Decimal
