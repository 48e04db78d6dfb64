set_option autoImplicit false

namespace OpTree.Utf8

def bytes (text : String) : List UInt8 :=
  text.toList.flatMap String.utf8EncodeChar

def tail : UInt8 × UInt8 :=
  (0x80, 0xBF)

/-- The bounds of the second byte after a first one. They leave out numbers that have a shorter
form, the surrogates and what is above the last character. -/
def second (lead : UInt8) : UInt8 × UInt8 :=
  if lead = 0xE0 then (0xA0, 0xBF)
  else if lead = 0xED then (0x80, 0x9F)
  else if lead = 0xF0 then (0x90, 0xBF)
  else if lead = 0xF4 then (0x80, 0x8F)
  else tail

def following (lead : UInt8) : List (UInt8 × UInt8) :=
  if lead < 0xC2 then []
  else if lead < 0xE0 then [tail]
  else if lead < 0xF0 then [second lead, tail]
  else if lead < 0xF5 then [second lead, tail, tail]
  else []

/-- How many bytes keep to bounds in order, up to the first one that does not. -/
def countWithin : List (UInt8 × UInt8) → List UInt8 → Nat
  | (low, high) :: bounds, b :: rest =>
    if low ≤ b ∧ b ≤ high then countWithin bounds rest + 1 else 0
  | _, _ => 0

/-- The parts of bytes that are shown as one character each. -/
def pieces : List UInt8 → List (List UInt8)
  | [] => []
  | lead :: rest =>
    let size := countWithin (following lead) rest
    (lead :: rest.take size) :: pieces (rest.drop size)
termination_by bytes => bytes.length
decreasing_by
  rw [List.length_drop, List.length_cons]
  omega

def character (piece : List UInt8) : String :=
  (String.fromUTF8? (ByteArray.mk piece.toArray)).getD "\ufffd"

def text (bytes : List UInt8) : String :=
  String.join ((pieces bytes).map character)

theorem pieces_flatten (bytes : List UInt8) : (pieces bytes).flatten = bytes := by
  fun_induction pieces bytes with
  | case1 => rfl
  | case2 lead rest size ih => simp [ih]

end OpTree.Utf8
