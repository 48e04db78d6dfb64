import OpTree.Store.Basic

set_option autoImplicit false

namespace OpTree

inductive StoreError where
  | noSuchOperation (id : OpId)
  | keysExhausted
  | sequenceExhausted
  deriving DecidableEq, Repr

def StoreError.message : StoreError → String
  | noSuchOperation id => "no operation with id " ++ id.text
  | keysExhausted => "storage error: database or disk is full"
  | sequenceExhausted =>
    "storage error: Invalid column type Real at index: 0, name: COALESCE(MAX(sequence), 0) + 1"

namespace Store

def require (s : Store) (id : OpId) : Except StoreError Unit :=
  if s.contains id then .ok () else .error (.noSuchOperation id)

def requireParent (s : Store) : Option OpId → Except StoreError Unit
  | none => .ok ()
  | some parent => s.require parent

def create (s : Store) (opcode : Opcode) (parent : Option OpId) (sequence : Int64) :
    Except StoreError (OpId × Store) := do
  s.requireParent parent
  match s.operations.insert { tag := opcode.tag, parent, sequence } with
  | none => .error .keysExhausted
  | some (key, operations) => .ok (⟨key⟩, { s with operations })

def greater (n : Int64) : Option Int64 → Int64
  | none => n
  | some m => if m.toInt < n.toInt then n else m

def greatestSequence (s : Store) (parent : Option OpId) : Option Int64 :=
  s.operations.rows.foldl
    (fun greatest entry =>
      if entry.2.parent == parent then some (greater entry.2.sequence greatest) else greatest)
    none

def nextSequence (s : Store) (parent : Option OpId) : Except StoreError Int64 :=
  match s.greatestSequence parent with
  | none => .ok 1
  | some n => if n.toInt < 0x7FFFFFFFFFFFFFFF then .ok (n + 1) else .error .sequenceExhausted

def append (s : Store) (opcode : Opcode) (parent : Option OpId) :
    Except StoreError (OpId × Store) := do
  let sequence ← s.nextSequence parent
  s.create opcode parent sequence

def insertParameter (s : Store) (row : ParameterRow) : Except StoreError Store :=
  match s.parameters.insert row with
  | none => .error .keysExhausted
  | some (_, parameters) => .ok { s with parameters }

/-- Adds a parameter, even if the operation has one with the key. -/
def addParameter (s : Store) (owner : OpId) (key : String) (value : Option String) :
    Except StoreError Store := do
  s.require owner
  s.insertParameter { owner, key, value }

def firstParameter? (s : Store) (owner : OpId) (key : String) : Option Int64 :=
  (s.parameters.rows.find? fun entry => entry.2.owner == owner && entry.2.key == key).map Prod.fst

/-- Gives a parameter a text: the first one with the key, or else a new one. -/
def setParameter (s : Store) (owner : OpId) (key : String) (value : String) :
    Except StoreError Store := do
  s.require owner
  match s.firstParameter? owner key with
  | none => s.insertParameter { owner, key, value := some value }
  | some found =>
    .ok { s with parameters := s.parameters.map fun row parameter =>
            if row = found then { parameter with value := some value } else parameter }

def subtreeTo (s : Store) : Nat → OpId → List OpId
  | 0, id => [id]
  | fuel + 1, id => id :: (s.children (some id)).flatMap fun child => s.subtreeTo fuel child.id

def subtree (s : Store) (id : OpId) : List OpId :=
  s.subtreeTo s.operations.size id

def remove (s : Store) (ids : List OpId) : Store where
  operations := s.operations.filter fun key _ => !ids.contains ⟨key⟩
  parameters := s.parameters.filter fun _ row => !ids.contains row.owner

def delete (s : Store) (id : OpId) : Except StoreError (Nat × Store) := do
  s.require id
  .ok ((s.subtree id).length, s.remove (s.subtree id))

/-- Numbers the operations under a parent from one on in their order, and tells how many. -/
def resequence (s : Store) (parent : Option OpId) : Except StoreError (Nat × Store) := do
  s.requireParent parent
  let siblings := (s.children parent).map Operation.id
  .ok (siblings.length,
    { s with operations := s.operations.map fun key row =>
        match siblings.idxOf? ⟨key⟩ with
        | none => row
        | some place => { row with sequence := Int64.ofNat (place + 1) } })

end Store

end OpTree
