import OpTree.Entries
import OpTree.Utf8

set_option autoImplicit false

namespace OpTree

abbrev Name := List UInt8

/-- The names on the way from the root to an entry, innermost first. -/
abbrev Way := List Name

abbrev Path := List UInt8

namespace Name

def limit : Nat := 255

def isTooLong (name : Name) : Bool :=
  limit < name.length

def same : Name :=
  Utf8.bytes "."

def outer : Name :=
  Utf8.bytes ".."

end Name

namespace Way

/-- The working directory, two steps below the root. Its own name is ten bytes zero, which no path
that can be opened has. -/
def home : Way :=
  [List.replicate 10 0, Utf8.bytes "tmp"]

def step (way : Way) (name : Name) : Way :=
  if name = [] ∨ name = Name.same then way
  else if name = Name.outer then way.drop 1
  else name :: way

def isOutward (way : Way) : Bool :=
  way.isSuffixOf home

def beside (ending : String) : Way → Way
  | [] => []
  | name :: way => (name ++ Utf8.bytes ending) :: way

def size (way : Way) : Nat :=
  way.foldr (fun name size => name.length + 1 + size) 0

def stepLimit : Nat := 511

/-- The number of bytes that a way may have to be opened. It leaves eight bytes for the ending of
a companion. -/
def limit : Nat := 504

end Way

namespace Path

def ofString (text : String) : Path :=
  Utf8.bytes text

def limit : Nat := 4095

def slash : UInt8 := 47

/-- The names on a path. There are empty ones where slashes meet. -/
def names (path : Path) : List Name :=
  path.splitOn slash

def start (path : Path) : Way :=
  if path.head? = some slash then [] else Way.home

end Path

end OpTree
