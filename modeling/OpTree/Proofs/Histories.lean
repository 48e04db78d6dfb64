import OpTree.Proofs.FileRoundTrip
import OpTree.Proofs.Siblings

set_option autoImplicit false

/-!
# Histories of a store

A history is a list of requests that are served one after another. A request that fails leaves the
store as it was, and so does reopening (`reopen_eq`). `Change` says all that serving a request can
do to the tables (`change_serve`), so that an invariant is proved by its cases.
-/

namespace OpTree

inductive Request where
  | create (opcode : Opcode) (parent : Option OpId) (sequence : Int64)
  | append (opcode : Opcode) (parent : Option OpId)
  | setParameter (owner : OpId) (key value : String)
  | addParameter (owner : OpId) (key : String) (value : Option String)
  | delete (id : OpId)
  | resequence (parent : Option OpId)
  | reopen
  deriving DecidableEq, Repr

inductive Answer where
  | created (id : OpId)
  | stored
  | counted (count : Nat)
  | reopened
  | unreadable
  | failed (error : StoreError)
  deriving DecidableEq, Repr

def Answer.created? : Answer → Option OpId
  | created id => some id
  | _ => none

def Request.target? : Request → Option OpId
  | create _ parent _ => parent
  | append _ parent => parent
  | setParameter owner _ _ => some owner
  | addParameter owner _ _ => some owner
  | delete id => some id
  | resequence parent => parent
  | reopen => none

def Content.answer (s : Store) : Content → Answer × Store
  | program store => (.reopened, store)
  | other _ => (.unreadable, s)

namespace Store

/-- Closes the file, which then is nothing but bytes, and reads it again. -/
def reopen (s : Store) : Answer × Store :=
  (Content.ofBytes (Content.program s).toBytes).answer s

def attempt (s : Store) : Request → Except StoreError (Answer × Store)
  | .create opcode parent sequence =>
    (s.create opcode parent sequence).map fun made => (.created made.1, made.2)
  | .append opcode parent => (s.append opcode parent).map fun made => (.created made.1, made.2)
  | .setParameter owner key value => (s.setParameter owner key value).map fun t => (.stored, t)
  | .addParameter owner key value => (s.addParameter owner key value).map fun t => (.stored, t)
  | .delete id => (s.delete id).map fun left => (.counted left.1, left.2)
  | .resequence parent => (s.resequence parent).map fun done => (.counted done.1, done.2)
  | .reopen => .ok s.reopen

def serve (s : Store) (request : Request) : Answer × Store :=
  match s.attempt request with
  | .ok served => served
  | .error error => (.failed error, s)

def after (s : Store) : List Request → Store
  | [] => s
  | request :: rest => (s.serve request).2.after rest

def answers (s : Store) : List Request → List Answer
  | [] => []
  | request :: rest => (s.serve request).1 :: (s.serve request).2.answers rest

theorem after_append (s : Store) (before later : List Request) :
    s.after (before ++ later) = (s.after before).after later := by
  induction before generalizing s with
  | nil => rfl
  | cons request before ih => exact ih _

theorem reopen_eq (s : Store) : s.reopen = (.reopened, s) :=
  congrArg (Content.answer s) (Content.ofBytes_toBytes s)

/-- What serving a request can do to a store, with the operation that it creates. -/
inductive Change (s : Store) : Option OpId → Store → Prop
  | same : Change s none s
  | created {row : OperationRow} {key : Int64} {operations : Table OperationRow} :
      s.operations.insert row = some (key, operations) →
      (∀ parent, row.parent = some parent → s.contains parent) →
      Change s (some ⟨key⟩) { s with operations }
  | added {row : ParameterRow} {key : Int64} {parameters : Table ParameterRow} :
      s.parameters.insert row = some (key, parameters) → s.contains row.owner →
      Change s none { s with parameters }
  | given (change : Int64 → ParameterRow → ParameterRow) :
      (∀ key row, (change key row).owner = row.owner) →
      Change s none { s with parameters := s.parameters.map change }
  | deleted (id : OpId) : Change s none (s.remove (s.subtree id))
  | numbered (change : Int64 → OperationRow → OperationRow) :
      (∀ key row, (change key row).parent = row.parent) →
      Change s none { s with operations := s.operations.map change }

section Results

variable {ε α β : Type} {x : Except ε α} {b : β}

theorem bind_eq_ok {f : α → Except ε β} :
    (x >>= f) = .ok b ↔ ∃ a, x = .ok a ∧ f a = .ok b := by
  cases x <;> simp [bind, Except.bind]

theorem map_eq_ok {f : α → β} : x.map f = .ok b ↔ ∃ a, x = .ok a ∧ f a = b := by
  cases x <;> simp [Except.map]

theorem bind_eq_error {f : α → Except ε β} {error : ε} : (x >>= f) = .error error ↔
    x = .error error ∨ ∃ a, x = .ok a ∧ f a = .error error := by
  cases x <;> simp [bind, Except.bind]

theorem map_eq_error {f : α → β} {error : ε} : x.map f = .error error ↔ x = .error error := by
  cases x <;> simp [Except.map]

end Results

variable {s t : Store} {owner id : OpId} {parent : Option OpId}

theorem require_eq_ok : s.require id = .ok () ↔ s.contains id := by
  unfold require
  split <;> simp [*]

theorem requireParent_eq_ok :
    s.requireParent parent = .ok () ↔ ∀ p, parent = some p → s.contains p := by
  cases parent with
  | none => simp [requireParent]
  | some p => simp [requireParent, require_eq_ok]

theorem exists_of_create {opcode : Opcode} {sequence : Int64}
    (made : s.create opcode parent sequence = .ok (id, t)) :
    (∀ p, parent = some p → s.contains p) ∧
      ∃ operations, s.operations.insert ⟨opcode.tag, parent, sequence⟩ =
        some (id.raw, operations) ∧ t = { s with operations } := by
  obtain ⟨_, known, rest⟩ := bind_eq_ok.1 made
  split at rest
  · cases rest
  · rename_i key operations inserted
    cases rest
    exact ⟨requireParent_eq_ok.1 known, operations, inserted, rfl⟩

theorem change_create {opcode : Opcode} {sequence : Int64}
    (made : s.create opcode parent sequence = .ok (id, t)) : s.Change (some id) t := by
  obtain ⟨known, operations, inserted, rfl⟩ := exists_of_create made
  exact .created inserted known

theorem change_append {opcode : Opcode} (made : s.append opcode parent = .ok (id, t)) :
    s.Change (some id) t := by
  obtain ⟨_, _, created⟩ := bind_eq_ok.1 made
  exact change_create created

theorem change_insertParameter {row : ParameterRow} (known : s.contains row.owner)
    (stored : s.insertParameter row = .ok t) : s.Change none t := by
  unfold insertParameter at stored
  split at stored
  · cases stored
  · rename_i key parameters inserted
    cases stored
    exact .added inserted known

theorem change_addParameter {key : String} {value : Option String}
    (stored : s.addParameter owner key value = .ok t) : s.Change none t := by
  obtain ⟨_, known, inserted⟩ := bind_eq_ok.1 stored
  exact change_insertParameter (require_eq_ok.1 known) inserted

theorem change_setParameter {key value : String}
    (stored : s.setParameter owner key value = .ok t) : s.Change none t := by
  obtain ⟨_, known, rest⟩ := bind_eq_ok.1 stored
  split at rest
  · exact change_insertParameter (require_eq_ok.1 known) rest
  · cases rest
    refine .given _ fun key row => ?_
    split <;> rfl

theorem change_delete {count : Nat} (left : s.delete id = .ok (count, t)) : s.Change none t := by
  obtain ⟨_, _, removed⟩ := bind_eq_ok.1 left
  cases removed
  exact .deleted id

theorem change_resequence {count : Nat} (done : s.resequence parent = .ok (count, t)) :
    s.Change none t := by
  obtain ⟨_, _, numbered⟩ := bind_eq_ok.1 done
  cases numbered
  refine .numbered _ fun key row => ?_
  split <;> rfl

theorem change_attempt {request : Request} {answer : Answer}
    (served : s.attempt request = .ok (answer, t)) : s.Change answer.created? t := by
  cases request with
  | create opcode parent sequence =>
    obtain ⟨made, done, same⟩ := map_eq_ok.1 served
    cases same
    exact change_create done
  | append opcode parent =>
    obtain ⟨made, done, same⟩ := map_eq_ok.1 served
    cases same
    exact change_append done
  | setParameter owner key value =>
    obtain ⟨made, done, same⟩ := map_eq_ok.1 served
    cases same
    exact change_setParameter done
  | addParameter owner key value =>
    obtain ⟨made, done, same⟩ := map_eq_ok.1 served
    cases same
    exact change_addParameter done
  | delete id =>
    obtain ⟨left, done, same⟩ := map_eq_ok.1 served
    cases same
    exact change_delete done
  | resequence parent =>
    obtain ⟨made, done, same⟩ := map_eq_ok.1 served
    cases same
    exact change_resequence done
  | reopen =>
    have same : s.reopen = (answer, t) := Except.ok.inj served
    rw [reopen_eq] at same
    cases same
    exact .same

theorem change_serve (s : Store) (request : Request) :
    s.Change (s.serve request).1.created? (s.serve request).2 := by
  unfold serve
  cases attempted : s.attempt request with
  | ok served => exact change_attempt attempted
  | error error => exact .same

/-- What every request keeps holds after every history. -/
theorem after_induction {P : Store → Prop} (step : ∀ {s new t}, s.Change new t → P s → P t)
    (start : P s) (history : List Request) : P (s.after history) := by
  induction history generalizing s with
  | nil => exact start
  | cons request rest ih => exact ih (step (s.change_serve request) start)

end Store

end OpTree
