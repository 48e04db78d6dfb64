import OpTree.Interpreter
import OpTree.Proofs.Simulation

set_option autoImplicit false

namespace OpTree

namespace Correspondence

def self (spare : Nat) (store : Store) : Correspondence spare store store where
  Op := Eq
  opcode ab := by rw [ab]
  parameters ab := by rw [ab]
  oneToOne ab ab' := by rw [ab, ab']
  roots := .refl fun _ _ => rfl
  inner ab _ := by
    rw [ab]
    exact .refl fun _ _ => rfl
  otherwise {a b} ab _ := by
    rw [ab]
    cases store.firstChild? b.id .otherwise with
    | none => exact .none
    | some _ => exact .some rfl

section Diagonal

variable {spare : Nat} {source target : Store} {c : Correspondence spare source target}
  (same : ∀ {a b}, c.Op a b → a = b)

include same

theorem id_eq {i j : OpId} (ij : c.Id i j) : i = j := by
  obtain ⟨a, b, ab, rfl, rfl⟩ := ij
  rw [same ab]

theorem val_eq {v w : Value} (values : c.Val v w) : v = w := by
  refine Value.MatchedBy.eq (fun {i j} ij => ?_) values
  obtain ⟨a, b, ab, _, rfl, rfl⟩ := ij
  rw [same ab]

theorem optional_eq {v w : Option Value} (values : Option.Rel c.Val v w) : v = w := by
  cases values with
  | some values => rw [val_eq same values]
  | none => rfl

theorem err_eq {error error' : EvalError} (errors : c.Err error error') : error = error' := by
  cases errors with
  | missing opcode key ij => rw [id_eq same ij]
  | same => rfl

theorem leaves_eq {x y : Exit} (exits : c.Leaves x y) : x = y := by
  cases exits with
  | normal values => rw [optional_eq same values]
  | returned values => rw [optional_eq same values]

end Diagonal

theorem self_val (spare : Nat) (store : Store) (v : Value) : (self spare store).Val v v :=
  .refl fun i => ⟨⟨i, .function, none, 0⟩, _, rfl, rfl, rfl, rfl⟩

theorem self_optional (spare : Nat) (store : Store) (v : Option Value) :
    Option.Rel (self spare store).Val v v := by
  cases v with
  | none => exact .none
  | some v => exact .some (self_val spare store v)

end Correspondence

inductive Task where
  | operation (op : Operation)
  | block (parent : Option OpId)
  deriving DecidableEq, Repr

def Task.exec (store : Store) (settings : Settings) (fuel : Nat) (slot : Slot) : Task → Exec Exit
  | operation op => execute store settings fuel slot op
  | block parent => runBlock store settings fuel slot parent

theorem Task.matched (task : Task) (store : Store) (settings : Settings) (fuel : Nat)
    (e e' : Slot) :
    let c := Correspondence.self 0 store
    (task.exec store settings fuel e).MatchedBy (c.Sees e e') c.Leaves c.Err
      (task.exec store settings fuel e') := by
  intro c
  have paired := c.execute_paired settings fuel
  cases task with
  | operation op => exact paired.matched rfl e e'
  | block parent => exact c.block_matched settings paired (.refl fun _ _ => rfl) e e'

/-- Lines as they are written, each with a newline. -/
def written : List String → String
  | [] => ""
  | line :: rest => line ++ "\n" ++ written rest

theorem Sink.emitAll_buffer (text : String) (lines : List String) :
    (Sink.buffer text).emitAll lines = .buffer (text ++ written lines) := by
  induction lines generalizing text with
  | nil => simp [emitAll, written]
  | cons line rest ih =>
    change (Sink.buffer (text ++ line ++ "\n")).emitAll rest = _
    rw [ih, written]
    simp only [String.append_assoc]

namespace Interpreter

/-- Two interpreters of a program, each in a scope from which the same can be seen. -/
structure Alike (e e' : Slot) (i j : Interpreter) : Prop where
  store : j.store = i.store
  settings : j.settings = i.settings
  calls : j.state.calls = i.state.calls
  wellFormed : i.state.scopes.WellFormed
  wellFormed' : j.state.scopes.WellFormed
  live : e < i.depth
  live' : e' < j.depth
  lookup : ∀ name, j.lookup e' name = i.lookup e name

theorem Alike.symm {e e' : Slot} {i j : Interpreter} (alike : Alike e e' i j) :
    Alike e' e j i where
  store := alike.store.symm
  settings := alike.settings.symm
  calls := alike.calls.symm
  wellFormed := alike.wellFormed'
  wellFormed' := alike.wellFormed
  live := alike.live'
  live' := alike.live
  lookup name := (alike.lookup name).symm

theorem Alike.view {e e' : Slot} {i j : Interpreter} (alike : Alike e e' i j) (spare : Nat)
    (store : Store) : (Correspondence.self spare store).Sees e e' i.state j.state where
  wellFormed := alike.wellFormed
  wellFormed' := alike.wellFormed'
  live := alike.live
  live' := alike.live'
  calls := alike.calls
  lookup name := by
    have same : j.state.scopes.lookup e' name = i.state.scopes.lookup e name := alike.lookup name
    rw [same]
    exact Correspondence.self_optional spare store _

theorem Alike.of_view {e e' : Slot} {i j : Interpreter} (store : j.store = i.store)
    (settings : j.settings = i.settings) {spare : Nat} {program : Store}
    (view : (Correspondence.self spare program).Sees e e' i.state j.state) : Alike e e' i j where
  store := store
  settings := settings
  calls := view.calls
  wellFormed := view.wellFormed
  wellFormed' := view.wellFormed'
  live := view.live
  live' := view.live'
  lookup name := by
    exact (Correspondence.optional_eq id (view.lookup name)).symm

end Interpreter

/-- From scopes from which the same can be seen, a task ends in the same way or does not end
either way, prints the same lines and leaves scopes from which the same can be seen. -/
theorem Task.run_of_alike (task : Task) (fuel : Nat) {e e' : Slot} {i j : Interpreter}
    (alike : Interpreter.Alike e e' i j) :
    let x := task.exec i.store i.settings fuel e
    let y := task.exec j.store j.settings fuel e'
    let o := x.run i.state
    let p := y.run j.state
    p.ending = o.ending ∧
      (o.ending ≠ .unfinished →
        p.lines = o.lines ∧
          (∀ text, i.sink = .buffer text →
            (i.perform x).2.sink = .buffer (text ++ written o.lines)) ∧
          (∀ text, j.sink = .buffer text →
            (j.perform y).2.sink = .buffer (text ++ written o.lines)) ∧
          Interpreter.Alike e e' (i.perform x).2 (j.perform y).2) := by
  intro x y o p
  have same : y = task.exec i.store i.settings fuel e' := by
    simp only [y, alike.store, alike.settings]
  have forth := task.matched i.store i.settings fuel e e' i.state j.state (alike.view 0 i.store)
  have back := task.matched i.store i.settings fuel e' e j.state i.state
    (alike.symm.view 0 i.store)
  rw [← same] at forth back
  have ending : p.ending = o.ending := forth.ending.eq (fun _ _ => Correspondence.leaves_eq id)
    (fun _ _ => Correspondence.err_eq id) back.ending.isUnfinished
  refine ⟨ending, fun finished => ?_⟩
  have lines : p.lines = o.lines := forth.lines finished
  refine ⟨lines, fun text buffer => ?_, fun text buffer => ?_,
    .of_view alike.store alike.settings (forth.state finished)⟩
  · change i.sink.emitAll o.lines = _
    rw [buffer, Sink.emitAll_buffer]
  · change j.sink.emitAll p.lines = _
    rw [buffer, Sink.emitAll_buffer, lines]

/-- A variable is seen from the root scope of one interpreter and, through an empty scope beside
another one, from within another. -/
theorem Task.run_of_alike_nested :
    let settings : Settings := ⟨.unwind, some 7⟩
    let scopes : Scopes := Scopes.initial.bind 0 "y" (.int 5)
    let scopes' : Scopes := ((scopes.openChild 0).openChild 0).bind 2 "z" (.bool true)
    let i : Interpreter :=
      ⟨.assignment, .interpret, settings, .buffer "earlier\n", { scopes, calls := 2 }⟩
    let j : Interpreter :=
      ⟨.assignment, .testRun, settings, .discard, { scopes := scopes', calls := 2 }⟩
    let x := (Task.block none).exec i.store i.settings 1 0
    let y := (Task.block none).exec j.store j.settings 1 1
    Interpreter.Alike 0 1 i j ∧ (x.run i.state).ending ≠ .unfinished ∧
      (y.run j.state).ending = (x.run i.state).ending ∧
      Interpreter.Alike 0 1 (i.perform x).2 (j.perform y).2 := by
  intro settings scopes scopes' i j x y
  have shared : scopes.WellFormed := Scopes.WellFormed.initial.bind _
  have alike : Interpreter.Alike 0 1 i j := by
    refine ⟨rfl, rfl, rfl, shared, ?_, by decide, by decide, fun name => ?_⟩
    · exact ((shared.openChild (by decide)).openChild (by decide)).bind _
    · simp [i, j, scopes, scopes', Interpreter.lookup, Scopes.lookup, Scopes.lookupFrom,
        Scope.get?, Scopes.bind, Scopes.openChild, Scopes.initial, Scope.bind, Scope.bindIn]
  have finished : (x.run i.state).ending ≠ .unfinished := by decide
  have same := Task.run_of_alike (.block none) 1 alike
  exact ⟨alike, finished, same.1, (same.2 finished).2.2.2⟩

end OpTree
