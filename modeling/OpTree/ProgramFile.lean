import OpTree.Entries
import OpTree.Store.Writes

set_option autoImplicit false

/-!
# Program files

A store is kept in a file as lines of fields separated by tabs. The first line tells that it is a
program file, the second holds the greatest keys ever used, and each further line is a row of a
table. A backslash, a tab and a line end inside a field are escaped. Decoding undoes encoding.
-/

namespace OpTree

namespace ProgramFile

def escape : List Char → List Char
  | [] => []
  | c :: rest =>
    if c = '\\' then '\\' :: '\\' :: escape rest
    else if c = '\t' then '\\' :: 't' :: escape rest
    else if c = '\n' then '\\' :: 'n' :: escape rest
    else c :: escape rest

def unescape : List Char → Option (List Char)
  | [] => some []
  | '\\' :: '\\' :: rest => (unescape rest).map ('\\' :: ·)
  | '\\' :: 't' :: rest => (unescape rest).map ('\t' :: ·)
  | '\\' :: 'n' :: rest => (unescape rest).map ('\n' :: ·)
  | c :: rest => if c = '\\' then none else (unescape rest).map (c :: ·)

def writeFields (fields : List (List Char)) : List Char :=
  List.intercalate ['\t'] (fields.map escape)

def readFields (line : List Char) : Option (List (List Char)) :=
  (line.splitOn '\t').mapM unescape

inductive Record where
  | operation (key : Int64) (row : OperationRow)
  | parameter (key : Int64) (row : ParameterRow)
  deriving DecidableEq, Repr

def readInt (text : List Char) : Option Int64 :=
  (Numeral.readSigned text).toOption

def writeParent : Option OpId → List Char
  | none => []
  | some parent => Numeral.writeSigned parent.raw

def readParent (text : List Char) : Option (Option OpId) :=
  if text.isEmpty then some none else (readInt text).map fun raw => some ⟨raw⟩

namespace Record

def fields : Record → List (List Char)
  | operation key row =>
    ["operation".toList, Numeral.writeSigned key, writeParent row.parent,
      Numeral.writeSigned row.sequence, row.tag.toList]
  | parameter key row =>
    ["parameter".toList, Numeral.writeSigned key, Numeral.writeSigned row.owner.raw,
      row.key.toList] ++ (row.value.map String.toList).toList

def ofFields? : List (List Char) → Option Record
  | [kind, key, parent, sequence, tag] =>
    if kind = "operation".toList then do
      let key ← readInt key
      let parent ← readParent parent
      let sequence ← readInt sequence
      some (operation key { tag := String.ofList tag, parent, sequence })
    else if kind = "parameter".toList then do
      let number ← readInt key
      let owner ← readInt parent
      some (parameter number
        { owner := ⟨owner⟩, key := String.ofList sequence, value := some (String.ofList tag) })
    else none
  | [kind, key, owner, name] =>
    if kind = "parameter".toList then do
      let key ← readInt key
      let owner ← readInt owner
      some (parameter key { owner := ⟨owner⟩, key := String.ofList name, value := none })
    else none
  | _ => none

def write (record : Record) : List Char :=
  writeFields record.fields

def read (line : List Char) : Option Record :=
  (readFields line).bind ofFields?

def operation? : Record → Option (Int64 × OperationRow)
  | operation key row => some (key, row)
  | parameter _ _ => none

def parameter? : Record → Option (Int64 × ParameterRow)
  | operation _ _ => none
  | parameter key row => some (key, row)

end Record

def heading : List Char :=
  "program: rows of operations and parameters".toList

def records (s : Store) : List Record :=
  (s.operations.rows.map fun entry => Record.operation entry.1 entry.2) ++
    s.parameters.rows.map fun entry => Record.parameter entry.1 entry.2

def lines (s : Store) : List (List Char) :=
  heading :: writeFields [Numeral.writeSigned s.operations.last,
      Numeral.writeSigned s.parameters.last] :: (records s).map Record.write

def encode (s : Store) : String :=
  String.ofList ((lines s).flatMap fun line => line ++ ['\n'])

def endedLines? (text : List Char) : Option (List (List Char)) :=
  let parts := text.splitOn '\n'
  if parts.getLast? = some [] then some parts.dropLast else none

def readKeys (line : List Char) : Option (Int64 × Int64) := do
  match ← readFields line with
  | [operation, parameter] => some (← readInt operation, ← readInt parameter)
  | _ => none

def ofLines? : List (List Char) → Option Store
  | first :: keys :: rows =>
    if first = heading then do
      let (lastOperation, lastParameter) ← readKeys keys
      let rows ← rows.mapM Record.read
      let operations ← Table.ofRows? (rows.filterMap Record.operation?) lastOperation
      let parameters ← Table.ofRows? (rows.filterMap Record.parameter?) lastParameter
      some { operations, parameters }
    else none
  | _ => none

def decode (text : String) : Option Store :=
  (endedLines? text.toList).bind ofLines?

end ProgramFile

inductive Content where
  | program (store : Store)
  | other (bytes : ByteArray)

namespace Content

instance : DecidableEq Content
  | program a, program b => decidable_of_iff (a = b) ⟨congrArg program, program.inj⟩
  | other a, other b => @decidable_of_iff _ (a = b) ⟨congrArg other, other.inj⟩ (a.decEq b)
  | program _, other _ => isFalse nofun
  | other _, program _ => isFalse nofun

def ofBytes (bytes : ByteArray) : Content :=
  match (String.fromUTF8? bytes).bind ProgramFile.decode with
  | some store => program store
  | none => other bytes

def toBytes : Content → ByteArray
  | program store => (ProgramFile.encode store).toUTF8
  | other bytes => bytes

def empty : Content :=
  other .empty

/-- Whether there is no program in a file yet. A single byte is not worth more than none. -/
def isBlank : Content → Bool
  | program _ => false
  | other bytes => bytes.size ≤ 1

end Content

end OpTree
