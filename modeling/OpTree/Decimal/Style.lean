import OpTree.Decimal.Shortest

set_option autoImplicit false

namespace OpTree.Decimal

structure Style where
  /-- Powers of ten of the first digit that are written positionally, both included. -/
  positionalFrom : Int
  positionalTo : Int
  infinity : String
  nan : String
  deriving DecidableEq, Repr

def Digits.positional (d : Digits) : List Char :=
  if d.point ≤ 0 then
    '0' :: '.' :: (List.replicate (-d.point).toNat '0' ++ d.digits)
  else
    let whole := d.point.toNat
    if d.digits.length ≤ whole then
      d.digits ++ List.replicate (whole - d.digits.length) '0' ++ ['.', '0']
    else
      d.digits.take whole ++ '.' :: d.digits.drop whole

def Digits.scientific (d : Digits) : List Char :=
  let power := 'e' :: (toString (d.point - 1)).toList
  match d.digits with
  | [] => '0' :: power
  | [c] => c :: power
  | c :: rest => c :: '.' :: (rest ++ power)

def Style.magnitude (style : Style) (significand : Nat) (exponent : Int) : List Char :=
  if significand = 0 then
    ['0', '.', '0']
  else
    let d := shortest significand exponent
    if style.positionalFrom ≤ d.point - 1 ∧ d.point - 1 ≤ style.positionalTo then
      d.positional
    else
      d.scientific

def signed (negative : Bool) (text : List Char) : List Char :=
  if negative then '-' :: text else text

def Style.write (style : Style) (x : Float) : String :=
  match Parts.ofFloat x with
  | .nan => style.nan
  | .infinite negative => String.ofList (signed negative style.infinity.toList)
  | .finite negative significand exponent =>
    String.ofList (signed negative (style.magnitude significand exponent))

end OpTree.Decimal
