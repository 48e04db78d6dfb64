import OpTree.Proofs.Matching
import OpTree.Proofs.MatchedValues
import OpTree.Proofs.Restoration
import OpTree.Proofs.Siblings

set_option autoImplicit false

/-!
# Programs that correspond

Two stores correspond if their operations do, block for block, up to operations that do nothing
and to those behind a `return`. Runs of the two stores are compared from scopes from which the
same can be seen (`View`): slots, identifiers and sequence numbers never show. One run may need
more fuel, as an operation that does nothing still takes some.
-/

namespace OpTree

/-- Whether operations with the opcode have no effect as members of a block. -/
def Opcode.isIdle : Opcode → Bool
  | otherwise | breakLoop | continueLoop | unknown _ => true
  | _ => false

/-- Whether the children of operations with the opcode are ever run as a block. -/
def Opcode.holdsBlock : Opcode → Bool
  | conditional | otherwise | whileLoop | forLoop | function => true
  | _ => false

/-- What can be seen from a scope of one state and from a scope of another one matches. -/
structure View (val : Value → Value → Prop) (e e' : Slot) (s t : RunState) : Prop where
  wellFormed : s.scopes.WellFormed
  wellFormed' : t.scopes.WellFormed
  live : e < s.scopes.depth
  live' : e' < t.scopes.depth
  calls : t.calls = s.calls
  lookup : ∀ name, Option.Rel val (s.scopes.lookup e name) (t.scopes.lookup e' name)

namespace View

variable {val : Value → Value → Prop} {e e' : Slot} {s t : RunState}

theorem initial : View val Scopes.root Scopes.root RunState.initial RunState.initial where
  wellFormed := .initial
  wellFormed' := .initial
  live := Nat.zero_lt_one
  live' := Nat.zero_lt_one
  calls := rfl
  lookup _ := .none

theorem bind (view : View val e e' s t) (name : String) {v w : Value} (values : val v w) :
    View val e e' { s with scopes := s.scopes.bind e name v }
      { t with scopes := t.scopes.bind e' name w } where
  wellFormed := view.wellFormed.bind v
  wellFormed' := view.wellFormed'.bind w
  live := by simpa using view.live
  live' := by simpa using view.live'
  calls := view.calls
  lookup other := by
    rw [Scopes.lookup_bind view.wellFormed view.live,
      Scopes.lookup_bind view.wellFormed' view.live']
    split
    · exact .some values
    · exact view.lookup other

theorem openChild (view : View val e e' s t) :
    View val s.scopes.depth t.scopes.depth { s with scopes := s.scopes.openChild e }
      { t with scopes := t.scopes.openChild e' } where
  wellFormed := view.wellFormed.openChild view.live
  wellFormed' := view.wellFormed'.openChild view.live'
  live := by simp
  live' := by simp
  calls := view.calls
  lookup name := by
    rw [Scopes.lookup_openChild view.wellFormed view.live,
      Scopes.lookup_openChild view.wellFormed' view.live']
    exact view.lookup name

theorem withCalls (view : View val e e' s t) (calls : Nat) :
    View val e e' { s with calls } { t with calls } :=
  { view with calls := rfl }

end View

/-- Blocks that do the same: operations in order that correspond, up to some that do nothing
and to all that stand behind a `return`. Those on the right that do nothing take spare fuel. -/
inductive Aligned (Op : Operation → Operation → Prop) (spare : Nat) :
    List Operation → List Operation → Prop
  | nil : Aligned Op spare [] []
  | both {a b : Operation} {as bs : List Operation} : Op a b → Aligned Op spare as bs →
      Aligned Op spare (a :: as) (b :: bs)
  | left {a : Operation} {as bs : List Operation} : a.opcode.isIdle → Aligned Op spare as bs →
      Aligned Op spare (a :: as) bs
  | right {b : Operation} {as bs : List Operation} : 0 < spare → b.opcode.isIdle →
      Aligned Op spare as bs → Aligned Op spare as (b :: bs)
  | stop {a b : Operation} (as bs : List Operation) : Op a b → a.opcode = .giveBack →
      Aligned Op spare (a :: as) (b :: bs)

theorem Aligned.map {Op : Operation → Operation → Prop} {spare : Nat} {f : Operation → Operation}
    {ops : List Operation} (each : ∀ op ∈ ops, Op op (f op)) :
    Aligned Op spare ops (ops.map f) := by
  induction ops with
  | nil => exact .nil
  | cons op ops ih =>
    exact .both (each op List.mem_cons_self)
      (ih fun other inside => each other (List.mem_cons_of_mem _ inside))

theorem Aligned.append {Op : Operation → Operation → Prop} {spare : Nat}
    {before as bs : List Operation} (each : ∀ op ∈ before, Op op op)
    (rest : Aligned Op spare as bs) : Aligned Op spare (before ++ as) (before ++ bs) := by
  induction before with
  | nil => exact rest
  | cons op before ih =>
    exact .both (each op List.mem_cons_self)
      (ih fun other inside => each other (List.mem_cons_of_mem op inside))

theorem Aligned.refl {Op : Operation → Operation → Prop} {spare : Nat} {ops : List Operation}
    (each : ∀ op ∈ ops, Op op op) : Aligned Op spare ops ops := by
  have whole : Aligned Op spare (ops ++ []) (ops ++ []) := .append each .nil
  rwa [List.append_nil] at whole

theorem Aligned.flip {Op : Operation → Operation → Prop} {spare : Nat} (some : 0 < spare)
    (opcode : ∀ {a b}, Op a b → b.opcode = a.opcode) {as bs : List Operation}
    (aligned : Aligned Op spare as bs) : Aligned (fun b a => Op a b) spare bs as := by
  induction aligned with
  | nil => exact .nil
  | both ab _ ih => exact .both ab ih
  | left idle _ ih => exact .right some idle ih
  | right _ idle _ ih => exact .left idle ih
  | stop as bs ab back => exact .stop bs as ab ((opcode ab).trans back)

structure Correspondence (spare : Nat) (source target : Store) where
  Op : Operation → Operation → Prop
  opcode : ∀ {a b}, Op a b → b.opcode = a.opcode
  parameters : ∀ {a b}, Op a b → target.parametersOf b.id = source.parametersOf a.id
  oneToOne : ∀ {a b a' b'}, Op a b → Op a' b' → (a.id = a'.id ↔ b.id = b'.id)
  roots : Aligned Op spare (source.children none) (target.children none)
  inner : ∀ {a b}, Op a b → a.opcode.holdsBlock →
    Aligned Op spare (source.children (some a.id)) (target.children (some b.id))
  otherwise : ∀ {a b}, Op a b → a.opcode = .conditional →
    Option.Rel Op (source.firstChild? a.id .otherwise) (target.firstChild? b.id .otherwise)

namespace Correspondence

variable {spare : Nat} {source target : Store} (c : Correspondence spare source target)

def Id (i j : OpId) : Prop :=
  ∃ a b, c.Op a b ∧ a.id = i ∧ b.id = j

def Body (i j : OpId) : Prop :=
  ∃ a b, c.Op a b ∧ a.opcode = .function ∧ a.id = i ∧ b.id = j

abbrev Val : Value → Value → Prop :=
  Value.MatchedBy c.Body

abbrev Err : EvalError → EvalError → Prop :=
  EvalError.MatchedBy c.Id

abbrev Sees (e e' : Slot) : RunState → RunState → Prop :=
  View c.Val e e'

def flip (some : 0 < spare) : Correspondence spare target source where
  Op b a := c.Op a b
  opcode ab := (c.opcode ab).symm
  parameters ab := (c.parameters ab).symm
  oneToOne ab ab' := (c.oneToOne ab ab').symm
  roots := c.roots.flip some c.opcode
  inner {b a} ab holds := by
    rw [c.opcode ab] at holds
    exact (c.inner ab holds).flip some c.opcode
  otherwise {b a} ab opcode := by
    have both := c.otherwise ab ((c.opcode ab).symm.trans opcode)
    generalize source.firstChild? a.id .otherwise = left at both ⊢
    generalize target.firstChild? b.id .otherwise = right at both ⊢
    cases both with
    | some oo => exact .some oo
    | none => exact .none

theorem oneToOne_body : OneToOne c.Body := by
  rintro i j i' j' ⟨a, b, ab, _, rfl, rfl⟩ ⟨a', b', ab', _, rfl, rfl⟩
  exact c.oneToOne ab ab'

theorem coerce_matched (e e' : Slot) (raw : String) :
    (Exec.coerce e raw).MatchedBy (c.Sees e e') c.Val c.Err (Exec.coerce e' raw) := by
  refine .inspect fun s t view => ?_
  unfold Scopes.coerce
  split
  case h_1 name _ =>
    have seen := view.lookup (String.ofList name)
    unfold Scopes.resolve
    generalize s.scopes.lookup e (String.ofList name) = v at seen ⊢
    generalize t.scopes.lookup e' (String.ofList name) = w at seen ⊢
    cases seen with
    | some values => exact .done values
    | none => exact .failed (.same nofun)
  case h_2 =>
    refine .done (.refl_of_kind ?_)
    unfold Value.ofText
    repeat' split
    all_goals nofun

end Correspondence

end OpTree
