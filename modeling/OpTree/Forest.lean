import OpTree.Store.Basic

set_option autoImplicit false

namespace OpTree

inductive Forest where
  | nil
  | node (op : Operation) (params : Parameters) (inner : Forest) (next : Forest)
  deriving DecidableEq, Repr

namespace Forest

def operations : Forest → List Operation
  | nil => []
  | node op _ inner next => op :: (inner.operations ++ next.operations)

end Forest

namespace Store

def forestTo (s : Store) : Nat → List Operation → Forest
  | 0, _ => .nil
  | fuel + 1, ops => ops.foldr
      (fun op next =>
        .node op (s.parametersOf op.id) (s.forestTo fuel (s.children (some op.id))) next)
      .nil

/-- Operations and all below them. No chain of parents is longer than the number of operations. -/
def forestOf (s : Store) (ops : List Operation) : Forest :=
  s.forestTo (s.operations.size + 1) ops

def forest (s : Store) : Forest :=
  s.forestOf (s.children none)

end Store

end OpTree
