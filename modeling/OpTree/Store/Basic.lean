import OpTree.Operation
import OpTree.Parameters
import OpTree.Table

set_option autoImplicit false

namespace OpTree

structure OperationRow where
  tag : String
  parent : Option OpId
  sequence : Int64
  deriving DecidableEq, Repr

structure ParameterRow where
  owner : OpId
  key : String
  value : Option String
  deriving DecidableEq, Repr

structure Store where
  operations : Table OperationRow
  parameters : Table ParameterRow
  deriving DecidableEq, Repr

def Operation.ofRow (key : Int64) (row : OperationRow) : Operation where
  id := ⟨key⟩
  opcode := Opcode.ofTag row.tag
  parent := row.parent
  sequence := row.sequence

namespace Store

def empty : Store where
  operations := Table.empty
  parameters := Table.empty

def allOperations (s : Store) : List Operation :=
  s.operations.rows.map fun entry => Operation.ofRow entry.1 entry.2

def childrenById (s : Store) (parent : Option OpId) : List Operation :=
  (s.operations.rows.filter fun entry => entry.2.parent == parent).map fun entry =>
    Operation.ofRow entry.1 entry.2

def operation? (s : Store) (id : OpId) : Option Operation :=
  (s.operations.get? id.raw).map (Operation.ofRow id.raw)

def contains (s : Store) (id : OpId) : Bool :=
  (s.operations.get? id.raw).isSome

def children (s : Store) (parent : Option OpId) : List Operation :=
  Operation.inOrder (s.childrenById parent)

def firstChild? (s : Store) (parent : OpId) (opcode : Opcode) : Option Operation :=
  (s.children (some parent)).find? fun op => op.opcode.tag == opcode.tag

def parameterRows (s : Store) (id : OpId) : List (String × Option String) :=
  (s.parameters.rows.filter fun entry => entry.2.owner == id).map fun entry =>
    (entry.2.key, entry.2.value)

def parametersOf (s : Store) (id : OpId) : Parameters :=
  Parameters.ofRows (s.parameterRows id)

end Store

end OpTree
