import OpTree.Value

set_option autoImplicit false

namespace OpTree

inductive EvalError where
  | unboundVariable (name : String)
  | notAFunction (name : String) (found : Kind)
  | typeMismatch (operator : BinaryOp) (left right : Kind)
  | notIterable (found : Kind)
  | divisionByZero
  | integerOverflow (operator : BinaryOp)
  | missingParameter (id : OpId) (opcode : Opcode) (key : String)
  | callDepthExceeded (limit : Nat)
  deriving DecidableEq, Repr

namespace EvalError

def quoted (text : String) : String :=
  "\x60" ++ text ++ "\x60"

def message : EvalError → String
  | unboundVariable name => "unbound variable: " ++ name
  | notAFunction name found => quoted name ++ " is not a function (found " ++ found.name ++ ")"
  | typeMismatch operator left right =>
    "type mismatch: cannot apply " ++ quoted operator.name ++ " to " ++ left.name ++ " and " ++
      right.name
  | notIterable found => found.name ++ " is not iterable"
  | divisionByZero => "division by zero"
  | integerOverflow operator => "integer overflow in " ++ quoted operator.name
  | missingParameter id opcode key =>
    "operation " ++ id.text ++ " (" ++ quoted opcode.tag ++ ") is missing required parameter " ++
      quoted key
  | callDepthExceeded limit =>
    "maximum call depth exceeded (limit: " ++ String.ofList (Numeral.writeNat limit) ++ ")"

end EvalError

end OpTree
