import OpTree.Decimal.Style
import OpTree.Operation

set_option autoImplicit false

namespace OpTree

structure FunctionValue where
  name : String
  params : List String
  body : OpId
  deriving DecidableEq, Repr

inductive Value where
  | int (n : Int64)
  | float (x : Float)
  | bool (b : Bool)
  | str (s : String)
  | function (f : FunctionValue)
  deriving DecidableEq, Repr

inductive Kind where
  | int
  | float
  | bool
  | str
  | function
  deriving DecidableEq, Repr

def Kind.name : Kind → String
  | .int => "int"
  | .float => "float"
  | .bool => "bool"
  | .str => "str"
  | .function => "function"

def FunctionValue.text (f : FunctionValue) : String :=
  "<function " ++ f.name ++ "(" ++ String.intercalate ", " f.params ++ ")>"

namespace Value

def kind : Value → Kind
  | int _ => .int
  | float _ => .float
  | bool _ => .bool
  | str _ => .str
  | function _ => .function

/-- Zero, `false` and the empty text do not count as true; NaN does. -/
def isTruthy : Value → Bool
  | int n => n != 0
  | float x => x != 0
  | bool b => b
  | str s => !s.isEmpty
  | function _ => true

def floatStyle : Decimal.Style where
  positionalFrom := -4
  positionalTo := 15
  infinity := "inf"
  nan := "NaN"

def text : Value → String
  | int n => String.ofList (Numeral.writeSigned n)
  | float x => floatStyle.write x
  | bool b => if b then "true" else "false"
  | str s => s
  | function f => f.text

/-- What a loop over the value visits: the characters of a text; nothing else can be visited. -/
def items? : Value → Option (List Value)
  | str s => some (s.toList.map fun c => str (String.singleton c))
  | _ => none

end Value

end OpTree
