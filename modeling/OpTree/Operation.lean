import OpTree.Numeral
import OpTree.Opcode

set_option autoImplicit false

namespace OpTree

structure OpId where
  raw : Int64
  deriving DecidableEq, Repr

namespace OpId

def text (id : OpId) : String :=
  String.ofList (Numeral.writeSigned id.raw)

end OpId

structure Operation where
  id : OpId
  opcode : Opcode
  parent : Option OpId
  sequence : Int64
  deriving DecidableEq, Repr

namespace Operation

/-- Siblings come in the order of their sequence numbers, equal ones in that of identifiers. -/
def precedes (a b : Operation) : Bool :=
  decide (a.sequence.toInt < b.sequence.toInt) ||
    (decide (a.sequence = b.sequence) && decide (a.id.raw.toInt < b.id.raw.toInt))

def inOrder (ops : List Operation) : List Operation :=
  ops.foldr (fun op sorted =>
    sorted.takeWhile (·.precedes op) ++ op :: sorted.dropWhile (·.precedes op)) []

end Operation

end OpTree
