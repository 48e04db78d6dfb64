import OpTree.Entries

set_option autoImplicit false

namespace OpTree.Input

def dropLast {α : Type} [DecidableEq α] (symbol : α) (line : List α) : List α :=
  if line.getLast? = some symbol then line.dropLast else line

/-- The ended lines among parts between line feeds, and the last part unless it is empty. -/
def endLines {α : Type} [DecidableEq α] (carriageReturn : α) : List (List α) → List (List α)
  | [] => []
  | [part] => if part.isEmpty then [] else [part]
  | part :: next :: rest =>
    dropLast carriageReturn part :: endLines carriageReturn (next :: rest)

def lines {α : Type} [DecidableEq α] (lineFeed carriageReturn : α) (input : List α) :
    List (List α) :=
  endLines carriageReturn (input.splitOn lineFeed)

def ofText (text : String) : List (Option String) :=
  (lines '\n' '\x0d' text.toList).map fun line => some (String.ofList line)

def ofBytes (bytes : List UInt8) : List (Option String) :=
  (lines 10 13 bytes).map fun line => String.fromUTF8? (ByteArray.mk line.toArray)

end OpTree.Input
