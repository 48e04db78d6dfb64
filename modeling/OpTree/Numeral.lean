set_option autoImplicit false

namespace OpTree

inductive NumeralFault where
  | empty
  | invalidDigit
  | tooLarge
  | tooSmall
  deriving DecidableEq, Repr

def NumeralFault.message : NumeralFault → String
  | .empty => "cannot parse integer from empty string"
  | .invalidDigit => "invalid digit found in string"
  | .tooLarge => "number too large to fit in target type"
  | .tooSmall => "number too small to fit in target type"

namespace Numeral

def digitValue (c : Char) : Nat :=
  c.toNat - '0'.toNat

/-- The magnitude of further digits after `value`, at most `limit`. -/
def extend (limit : Nat) (excess : NumeralFault) : Nat → List Char → Except NumeralFault Nat
  | value, [] => .ok value
  | value, c :: rest =>
    if c.isDigit then
      if 10 * value + digitValue c ≤ limit then
        extend limit excess (10 * value + digitValue c) rest
      else
        .error excess
    else
      .error .invalidDigit

def magnitude (limit : Nat) (excess : NumeralFault) : List Char → Except NumeralFault Nat
  | [] => .error .invalidDigit
  | c :: rest => extend limit excess 0 (c :: rest)

def readSigned : List Char → Except NumeralFault Int64
  | [] => .error .empty
  | '+' :: digits => (magnitude 0x7FFFFFFFFFFFFFFF .tooLarge digits).map fun n => Int64.ofInt n
  | '-' :: digits => (magnitude 0x8000000000000000 .tooSmall digits).map fun n => Int64.ofInt (-n)
  | c :: rest =>
    (magnitude 0x7FFFFFFFFFFFFFFF .tooLarge (c :: rest)).map fun n => Int64.ofInt n

def readUnsigned : List Char → Except NumeralFault Nat
  | [] => .error .empty
  | '+' :: digits => magnitude 0xFFFFFFFFFFFFFFFF .tooLarge digits
  | c :: rest => magnitude 0xFFFFFFFFFFFFFFFF .tooLarge (c :: rest)

def writeNat (n : Nat) : List Char :=
  Nat.toDigits 10 n

def writeSigned (n : Int64) : List Char :=
  if n.toInt < 0 then '-' :: writeNat n.toInt.natAbs else writeNat n.toInt.natAbs

end Numeral

end OpTree
