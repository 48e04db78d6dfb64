import OpTree.Blank

set_option autoImplicit false

namespace OpTree

/-- Blanks around an entry do not belong to it, and an empty entry keeps its place. -/
def entries (text : String) : List String :=
  (text.toList.splitOn ',').map fun part => String.ofList (trim part)

end OpTree
