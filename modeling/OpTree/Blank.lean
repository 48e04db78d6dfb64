set_option autoImplicit false

namespace OpTree

/-- The ranges of code points with the property `White_Space`, ends included. -/
def blankRanges : List (Nat × Nat) :=
  [(0x0009, 0x000D), (0x0020, 0x0020), (0x0085, 0x0085), (0x00A0, 0x00A0), (0x1680, 0x1680),
    (0x2000, 0x200A), (0x2028, 0x2029), (0x202F, 0x202F), (0x205F, 0x205F), (0x3000, 0x3000)]

def isBlank (c : Char) : Bool :=
  blankRanges.any fun range => decide (range.1 ≤ c.toNat) && decide (c.toNat ≤ range.2)

def trimStart (text : List Char) : List Char :=
  text.dropWhile isBlank

def trimEnd (text : List Char) : List Char :=
  (text.reverse.dropWhile isBlank).reverse

def trim (text : List Char) : List Char :=
  trimEnd (trimStart text)

def firstWord (text : List Char) : List Char :=
  text.takeWhile fun c => !isBlank c

def afterWord (text : List Char) : List Char :=
  (text.dropWhile fun c => !isBlank c).drop 1

/-- The first word of a text and the rest after one separating blank; nothing if all is blank. -/
def nextWord (text : List Char) : Option (List Char × List Char) :=
  match trimStart text with
  | [] => none
  | c :: rest => some (firstWord (c :: rest), afterWord (c :: rest))

end OpTree
