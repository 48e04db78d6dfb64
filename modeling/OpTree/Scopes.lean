import OpTree.Value

set_option autoImplicit false

/-!
# Scopes

Scopes lie in a row of slots; slot zero is the root scope, which is always there. A scope knows
the one that it was opened in, and a name is looked up from scope to scope outwards. A name is
only ever bound in the scope that is given. Scopes are released in the reverse order of opening,
and the next one takes over the slot.
-/

namespace OpTree

abbrev Slot := Nat

structure Scope where
  parent : Option Slot
  bindings : List (String × Value)
  deriving DecidableEq, Repr

namespace Scope

def get? (scope : Scope) (name : String) : Option Value :=
  (scope.bindings.find? fun entry => entry.1 == name).map Prod.snd

def bindIn (name : String) (value : Value) : List (String × Value) → List (String × Value)
  | [] => [(name, value)]
  | entry :: rest =>
    if entry.1 = name then (name, value) :: rest else entry :: bindIn name value rest

def bind (scope : Scope) (name : String) (value : Value) : Scope :=
  { scope with bindings := bindIn name value scope.bindings }

end Scope

structure Scopes where
  slots : Array Scope
  deriving DecidableEq, Repr

namespace Scopes

def root : Slot := 0

def initial : Scopes where
  slots := #[{ parent := none, bindings := [] }]

def depth (s : Scopes) : Nat :=
  s.slots.size

def openChild (s : Scopes) (parent : Slot) : Scopes where
  slots := s.slots.push { parent := some parent, bindings := [] }

/-- Releases a scope and all that were opened after it. The root scope stays. -/
def release (s : Scopes) (slot : Slot) : Scopes :=
  if slot = root then s else { slots := s.slots.shrink slot }

def lookupFrom (s : Scopes) (name : String) : Nat → Slot → Option Value
  | 0, _ => none
  | fuel + 1, slot =>
    match s.slots[slot]? with
    | none => none
    | some scope =>
      match scope.get? name with
      | some value => some value
      | none =>
        match scope.parent with
        | none => none
        | some parent => s.lookupFrom name fuel parent

/-- The value of a name in a scope or the nearest one around it. A scope was opened after the
ones around it, so that none of them lies in a later slot. -/
def lookup (s : Scopes) (slot : Slot) (name : String) : Option Value :=
  s.lookupFrom name (slot + 1) slot

/-- Binds a name in a scope; nothing happens if the scope is not there. -/
def bind (s : Scopes) (slot : Slot) (name : String) (value : Value) : Scopes where
  slots := s.slots.modify slot fun scope => scope.bind name value

end Scopes

end OpTree
