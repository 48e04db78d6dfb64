import OpTree.Forest
import OpTree.Store.Writes

set_option autoImplicit false

namespace OpTree

structure Line where
  level : Nat
  text : String
  deriving DecidableEq, Repr

def indentation (level : Nat) : String :=
  String.ofList (List.replicate (4 * level) ' ')

def Line.render (line : Line) : String :=
  indentation line.level ++ line.text ++ "\n"

/-- A key and its text; a missing text is shown as `null`. -/
def parameterText (entry : String × Option String) : String :=
  entry.1 ++ ": " ++ entry.2.getD "null"

def Parameters.text (p : Parameters) : String :=
  if p.isEmpty then ""
  else " [" ++ String.intercalate ", " (p.entries.map parameterText) ++ "]"

def nodeText (op : Operation) (params : Parameters) : String :=
  op.opcode.tag ++ params.text

namespace Forest

def lines (level : Nat) : Forest → List Line
  | nil => []
  | node op params nil next => ⟨level, nodeText op params⟩ :: next.lines level
  | node op params inner next =>
    ⟨level, nodeText op params ++ " \x7b"⟩ ::
      (inner.lines (level + 1) ++ ⟨level, "\x7d"⟩ :: next.lines level)

def render (f : Forest) : String :=
  String.join ((f.lines 0).map Line.render)

end Forest

namespace Store

def render (s : Store) : String :=
  s.forest.render

def renderSubtree (s : Store) (id : OpId) : Except StoreError String :=
  match s.operation? id with
  | none => .error (.noSuchOperation id)
  | some op => .ok (s.forestOf [op]).render

end Store

end OpTree
