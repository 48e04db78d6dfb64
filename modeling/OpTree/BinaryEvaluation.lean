import OpTree.EvalError

set_option autoImplicit false

namespace OpTree

inductive Number where
  | int (n : Int64)
  | float (x : Float)
  deriving DecidableEq, Repr

namespace Number

def ofValue? : Value → Option Number
  | .int n => some (int n)
  | .float x => some (float x)
  | _ => none

def toFloat : Number → Float
  | int n => Float.ofInt n.toInt
  | float x => x

end Number

def int64? (n : Int) : Option Int64 :=
  if -0x8000000000000000 ≤ n ∧ n < 0x8000000000000000 then some (Int64.ofInt n) else none

namespace BinaryOp

def numbers (operator : BinaryOp) (left right : Value) : Except EvalError (Number × Number) :=
  match Number.ofValue? left, Number.ofValue? right with
  | some l, some r => .ok (l, r)
  | _, _ => .error (.typeMismatch operator left.kind right.kind)

def arithmetic (operator : BinaryOp) (onInts : Int → Int → Int)
    (onFloats : Float → Float → Float) (left right : Value) : Except EvalError Value := do
  match ← operator.numbers left right with
  | (.int a, .int b) =>
    match int64? (onInts a.toInt b.toInt) with
    | some n => .ok (.int n)
    | none => .error (.integerOverflow operator)
  | (l, r) => .ok (.float (onFloats l.toFloat r.toFloat))

def divide (left right : Value) : Except EvalError Value := do
  let (l, r) ← numbers .div left right
  if r.toFloat == 0 then .error .divisionByZero
  else .ok (.float (l.toFloat / r.toFloat))

/-- Equality of values of one kind, functions by their bodies; an integer and a floating-point
number are compared as the latter. Values of other kinds differ. -/
def equal : Value → Value → Bool
  | .int a, .int b => a == b
  | .float a, .float b => a == b
  | .int a, .float b => (Number.int a).toFloat == b
  | .float a, .int b => a == (Number.int b).toFloat
  | .bool a, .bool b => a == b
  | .str a, .str b => a == b
  | .function f, .function g => f.body == g.body
  | _, _ => false

/-- Whether the left operand comes before the right one: texts by the order of code points, two
integers exactly, other numbers as floating-point numbers. NaN comes before nothing and nothing
before NaN. -/
def less : Number → Number → Bool
  | .int a, .int b => decide (a.toInt < b.toInt)
  | l, r => decide (l.toFloat < r.toFloat)

def compareBy (operator : BinaryOp) (onTexts : String → String → Bool)
    (onNumbers : Number → Number → Bool) (left right : Value) : Except EvalError Value :=
  match left, right with
  | .str a, .str b => .ok (.bool (onTexts a b))
  | _, _ => (operator.numbers left right).map fun (l, r) => .bool (onNumbers l r)

def eval (operator : BinaryOp) (left right : Value) : Except EvalError Value :=
  match operator with
  | .add => arithmetic .add (· + ·) (· + ·) left right
  | .sub => arithmetic .sub (· - ·) (· - ·) left right
  | .mul => arithmetic .mul (· * ·) (· * ·) left right
  | .div => divide left right
  | .eq => .ok (.bool (equal left right))
  | .lt => compareBy .lt (fun a b => decide (a < b)) less left right
  | .gt => compareBy .gt (fun a b => decide (b < a)) (fun l r => less r l) left right

end BinaryOp

end OpTree
