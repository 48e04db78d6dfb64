import OpTree.Decimal.Literal
import OpTree.EvalError
import OpTree.Scopes

set_option autoImplicit false

namespace OpTree

def Value.ofText (text : String) : Value :=
  match Numeral.readSigned text.toList with
  | .ok n => .int n
  | .error _ =>
    match Decimal.Literal.read text.toList with
    | some literal => .float literal.toFloat
    | none =>
      if text = "true" then .bool true
      else if text = "false" then .bool false
      else .str text

namespace Scopes

def resolve (s : Scopes) (slot : Slot) (name : String) : Except EvalError Value :=
  match s.lookup slot name with
  | some value => .ok value
  | none => .error (.unboundVariable name)

def coerce (s : Scopes) (slot : Slot) (raw : String) : Except EvalError Value :=
  match raw.toList with
  | '$' :: name => s.resolve slot (String.ofList name)
  | _ => .ok (Value.ofText raw)

end Scopes

end OpTree
