import OpTree.Proofs.Observations
import Mathlib.Data.List.Find
import Mathlib.Data.Set.Function

set_option autoImplicit false

namespace OpTree

/-- A bijection between the operations of two stores that keeps opcodes, parameters, parents and
the order of siblings. -/
structure TreeIso (source target : Store) (f : Operation → Operation) : Prop where
  bijective : Set.BijOn f {a | a ∈ source.allOperations} {b | b ∈ target.allOperations}
  opcode : ∀ a ∈ source.allOperations, (f a).opcode = a.opcode
  parameters : ∀ a ∈ source.allOperations,
    target.parametersOf (f a).id = source.parametersOf a.id
  root : ∀ a ∈ source.allOperations, (f a).parent = none ↔ a.parent = none
  parent : ∀ a ∈ source.allOperations, ∀ p ∈ source.allOperations,
    (f a).parent = some (f p).id ↔ a.parent = some p.id
  order : ∀ a ∈ source.allOperations, ∀ b ∈ source.allOperations, a.parent = b.parent →
    ((f a).precedes (f b) ↔ a.precedes b)

def Store.rename (store : Store) (f : Operation → Operation) (id : OpId) : OpId :=
  match store.operation? id with
  | some a => (f a).id
  | none => id

def Value.rename (ids : OpId → OpId) : Value → Value
  | .function f => .function { f with body := ids f.body }
  | other => other

def EvalError.rename (ids : OpId → OpId) : EvalError → EvalError
  | .missingParameter id opcode key => .missingParameter (ids id) opcode key
  | other => other

def Observation.rename (ids : OpId → OpId) (r : Observation) : Observation where
  result :=
    match r.result with
    | .ok value => .ok (value.map (Value.rename ids))
    | .error error => .error (error.rename ids)
  lines := r.lines
  globals name := (r.globals name).map (Value.rename ids)

namespace TreeIso

variable {source target : Store} {f : Operation → Operation} {a b : Operation}

theorem rename_id (inside : a ∈ source.allOperations) : source.rename f a.id = (f a).id := by
  have found : source.operation? a.id = some a := Store.operation?_eq_some.2 ⟨inside, rfl⟩
  simp only [Store.rename, found]

theorem aligned (spare : Nat) (parent : Option OpId) :
    Aligned (fun a b => a ∈ source.allOperations ∧ b = f a) spare (source.children parent)
      ((source.children parent).map f) :=
  .map fun _ child => ⟨(Store.mem_children.1 child).1, rfl⟩

variable (iso : TreeIso source target f)

include iso

theorem stored (inside : a ∈ source.allOperations) : f a ∈ target.allOperations :=
  iso.bijective.mapsTo inside

theorem id_eq_iff (left : a ∈ source.allOperations) (right : b ∈ source.allOperations) :
    a.id = b.id ↔ (f a).id = (f b).id := by
  constructor
  · intro same
    rw [Store.eq_of_id_eq left right same]
  · intro same
    have images : f a = f b := Store.eq_of_id_eq (iso.stored left) (iso.stored right) same
    rw [iso.bijective.injOn left right images]

theorem children_map {parent parent' : Option OpId}
    (same : ∀ a ∈ source.allOperations, (f a).parent = parent' ↔ a.parent = parent) :
    target.children parent' = (source.children parent).map f := by
  -- The images are in the order of siblings, and they are all that name the parent.
  refine Store.children_eq ?_ fun op => ?_
  · rw [List.pairwise_map]
    refine Store.children_pairwise.imp_of_mem fun {a b} left right before => ?_
    obtain ⟨left, under⟩ := Store.mem_children.1 left
    obtain ⟨right, under'⟩ := Store.mem_children.1 right
    exact (iso.order a left b right (under.trans under'.symm)).2 before
  · constructor
    · intro inside
      obtain ⟨a, child, rfl⟩ := List.mem_map.1 inside
      obtain ⟨inside, under⟩ := Store.mem_children.1 child
      exact ⟨iso.stored inside, (same a inside).2 under⟩
    · rintro ⟨inside, under⟩
      obtain ⟨a, original, rfl⟩ := iso.bijective.surjOn inside
      exact List.mem_map.2 ⟨a, Store.mem_children.2 ⟨original, (same a original).1 under⟩, rfl⟩

theorem children_of (inside : a ∈ source.allOperations) :
    target.children (some (f a).id) = (source.children (some a.id)).map f :=
  iso.children_map fun b child => iso.parent b child a inside

theorem firstChild_map (inside : a ∈ source.allOperations) (opcode : Opcode) :
    target.firstChild? (f a).id opcode = (source.firstChild? a.id opcode).map f := by
  simp only [Store.firstChild?, iso.children_of inside, List.find?_map]
  congr 1
  refine List.find?_congr fun child under => ?_
  rw [Function.comp_apply, iso.opcode child (Store.mem_children.1 under).1]

def correspondence (spare : Nat) :
    Correspondence spare source target where
  Op a b := a ∈ source.allOperations ∧ b = f a
  opcode := by
    rintro a b ⟨inside, rfl⟩
    exact iso.opcode a inside
  parameters := by
    rintro a b ⟨inside, rfl⟩
    exact iso.parameters a inside
  oneToOne := by
    rintro a b a' b' ⟨inside, rfl⟩ ⟨inside', rfl⟩
    exact iso.id_eq_iff inside inside'
  roots := by
    rw [iso.children_map iso.root]
    exact aligned spare none
  inner := by
    rintro a b ⟨inside, rfl⟩ _
    rw [iso.children_of inside]
    exact aligned spare (some a.id)
  otherwise := by
    rintro a b ⟨inside, rfl⟩ _
    rw [iso.firstChild_map inside]
    cases found : source.firstChild? a.id .otherwise with
    | none => exact .none
    | some o =>
      have child : o ∈ source.children (some a.id) := (Store.firstChild?_some (by decide) found).1
      exact .some ⟨(Store.mem_children.1 child).1, rfl⟩

theorem rename_of_id {spare : Nat} {i j : OpId} (ij : (iso.correspondence spare).Id i j) :
    source.rename f i = j := by
  obtain ⟨a, b, ⟨inside, rfl⟩, rfl, rfl⟩ := ij
  exact rename_id inside

theorem rename_value {spare : Nat} {v w : Value} (values : (iso.correspondence spare).Val v w) :
    v.rename (source.rename f) = w := by
  cases values with
  | function name params ij =>
    obtain ⟨a, b, ab, _, rfl, rfl⟩ := ij
    simp only [Value.rename, iso.rename_of_id ⟨a, b, ab, rfl, rfl⟩]
  | _ => rfl

theorem rename_optional {spare : Nat} {v w : Option Value}
    (values : Option.Rel (iso.correspondence spare).Val v w) :
    v.map (Value.rename (source.rename f)) = w := by
  cases values with
  | none => rfl
  | some values => exact congrArg some (iso.rename_value values)

theorem rename_error {spare : Nat} {error error' : EvalError}
    (errors : (iso.correspondence spare).Err error error') :
    error.rename (source.rename f) = error' := by
  cases errors with
  | missing opcode key ij => simp only [EvalError.rename, iso.rename_of_id ij]
  | same other =>
    cases error with
    | missingParameter id opcode key => exact absurd rfl (other id opcode key)
    | _ => rfl

theorem rename_observation {spare : Nat} {r r' : Observation}
    (both : (iso.correspondence spare).Observed r r') : r.rename (source.rename f) = r' := by
  obtain ⟨result, lines, globals⟩ := r
  obtain ⟨result', lines', globals'⟩ := r'
  obtain ⟨ending, printed, bound⟩ := both
  simp only [Observation.rename, Observation.mk.injEq]
  refine ⟨?_, printed.symm, funext fun name => iso.rename_optional (bound name)⟩
  cases ending with
  | ok values => exact congrArg Except.ok (iso.rename_optional values)
  | error errors => exact congrArg Except.error (iso.rename_error errors)

/-- A program with the same ordered tree as another one is seen to do the same, but for the
identifiers in functions and in errors about parameters; and one ends if and only if the other
one does. -/
theorem shows_iff {mode : Mode} {returns : Returns} {limit : Option Nat} {sink : Option Sink}
    {seen : Observation} :
    (Interpreter.fresh target mode returns limit sink).Shows seen ↔
      ∃ r, (Interpreter.fresh source mode returns limit sink).Shows r ∧
        seen = r.rename (source.rename f) := by
  constructor
  · intro shown
    obtain ⟨r, original, both⟩ :=
      ((iso.correspondence 1).flip Nat.zero_lt_one).shows_matched shown
    exact ⟨r, original, (iso.rename_observation (Correspondence.Observed.of_flip both)).symm⟩
  · rintro ⟨r, shown, rfl⟩
    obtain ⟨r', image, both⟩ := (iso.correspondence 0).shows_matched shown
    rw [iso.rename_observation both]
    exact image

end TreeIso

def Store.definition : Store where
  operations := (Table.ofRows?
    [(1, ⟨"function", none, 1⟩), (2, ⟨"return", some ⟨1⟩, 1⟩)] 2).getD .empty
  parameters := (Table.ofRows? [(1, ⟨⟨1⟩, "name", some "f"⟩)] 1).getD .empty

/-- The same program under other identifiers, in the opposite order, with other numbers. -/
def Store.renumbered : Store where
  operations := (Table.ofRows?
    [(3, ⟨"return", some ⟨8⟩, -4⟩), (8, ⟨"function", none, 7⟩)] 9).getD .empty
  parameters := (Table.ofRows? [(5, ⟨⟨8⟩, "name", some "f"⟩)] 6).getD .empty

/-- The function that is bound in the end goes by its identifier in either program. -/
theorem TreeIso.shows_iff_renumbered :
    let f : Operation → Operation := fun op =>
      if op.id = ⟨1⟩ then ⟨⟨8⟩, .function, none, 7⟩ else ⟨⟨3⟩, .giveBack, some ⟨8⟩, -4⟩
    let seen : Observation := ⟨.ok none, [], fun name =>
      if name = "f" then some (.function ⟨"f", [], ⟨8⟩⟩) else none⟩
    TreeIso .definition .renumbered f ∧
      (Interpreter.fresh .renumbered .interpret .shallow none none).Shows seen ∧
      ∃ r, (Interpreter.fresh .definition .interpret .shallow none none).Shows r ∧
        seen = r.rename (Store.definition.rename f) := by
  intro f seen
  have source : Store.definition.allOperations =
      [⟨⟨1⟩, .function, none, 1⟩, ⟨⟨2⟩, .giveBack, some ⟨1⟩, 1⟩] := by decide
  have target : Store.renumbered.allOperations =
      [⟨⟨3⟩, .giveBack, some ⟨8⟩, -4⟩, ⟨⟨8⟩, .function, none, 7⟩] := by decide
  have iso : TreeIso .definition .renumbered f := by
    have into : ∀ a ∈ Store.definition.allOperations, f a ∈ Store.renumbered.allOperations := by
      rw [source, target]
      decide
    have injective : ∀ a ∈ Store.definition.allOperations,
        ∀ b ∈ Store.definition.allOperations, f a = f b → a = b := by
      rw [source]
      decide
    have onto : ∀ b ∈ Store.renumbered.allOperations,
        ∃ a ∈ Store.definition.allOperations, f a = b := by
      rw [source, target]
      decide
    refine ⟨⟨into, fun a left b right => injective a left b right, onto⟩, ?_, ?_, ?_, ?_, ?_⟩
    all_goals
      rw [source]
      decide
  have shown : (Interpreter.fresh .renumbered .interpret .shallow none none).Shows seen := by
    refine ⟨1, by decide, by decide, funext fun name => ?_⟩
    have scopes : ((Interpreter.fresh .renumbered .interpret .shallow none none).run 1).2.state =
        { RunState.initial with
          scopes := ⟨#[⟨none, [("f", .function ⟨"f", [], ⟨8⟩⟩)]⟩]⟩ } := by decide
    simp only [Interpreter.global, Interpreter.lookup, scopes]
    by_cases here : name = "f"
    · subst here
      decide
    · have other : ("f" == name) = false := by simpa using Ne.symm here
      simp [Scopes.lookup, Scopes.lookupFrom, Scope.get?, seen, here, other, Scopes.root]
  exact ⟨iso, shown, iso.shows_iff.1 shown⟩

end OpTree
