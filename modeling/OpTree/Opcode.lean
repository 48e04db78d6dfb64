set_option autoImplicit false

namespace OpTree

inductive BinaryOp where
  | add
  | sub
  | mul
  | div
  | eq
  | lt
  | gt
  deriving DecidableEq, Repr

def BinaryOp.name : BinaryOp → String
  | .add => "add"
  | .sub => "sub"
  | .mul => "mul"
  | .div => "div"
  | .eq => "eq"
  | .lt => "lt"
  | .gt => "gt"

inductive Opcode where
  | assign
  | print
  | binary (operator : BinaryOp)
  | conditional
  | otherwise
  | whileLoop
  | forLoop
  | breakLoop
  | continueLoop
  | giveBack
  | function
  | call
  /-- An operation that does nothing when it is run. -/
  | unknown (tag : String)
  deriving DecidableEq, Repr

namespace Opcode

def tag : Opcode → String
  | assign => "assign"
  | print => "print"
  | binary operator => operator.name
  | conditional => "if"
  | otherwise => "else"
  | whileLoop => "while"
  | forLoop => "for"
  | breakLoop => "break"
  | continueLoop => "continue"
  | giveBack => "return"
  | function => "function"
  | call => "call"
  | unknown tag => tag

def glossary : List Opcode :=
  [assign, print, binary .add, binary .sub, binary .mul, binary .div, binary .eq, binary .lt,
    binary .gt, conditional, otherwise, whileLoop, forLoop, breakLoop, continueLoop, giveBack,
    function, call]

def ofTag (tag : String) : Opcode :=
  (glossary.find? fun opcode => opcode.tag == tag).getD (unknown tag)

def isKnown : Opcode → Bool
  | unknown _ => false
  | _ => true

def index? (opcode : Opcode) : Option Nat :=
  glossary.findIdx? fun known => known == opcode

theorem tag_ofTag (tag : String) : (ofTag tag).tag = tag := by
  unfold ofTag
  cases h : glossary.find? fun opcode => opcode.tag == tag with
  | none => rfl
  | some opcode => simpa using List.find?_some h

theorem glossary_known : ∀ opcode ∈ glossary, ofTag opcode.tag = opcode ∧ opcode.isKnown := by
  decide

end Opcode

end OpTree
