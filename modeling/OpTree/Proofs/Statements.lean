import OpTree.Proofs.Lineage
import Mathlib.Algebra.GroupWithZero.Nat

set_option autoImplicit false

/-!
# Writes by single statements

A table is changed by statements, one row or one condition at a time. A statement takes effect at
once and stays when a later one meets a fault, unless both are in one transaction. A row must not
refer to an operation that is not there. Written down in this way, each write has the effect that
the store's own definition gives it all at once, and leaves everything as it was if that refuses it
(`perform_eq`). The delicate one is deletion: going down from the operation comes to an end, and
each row is free of references when its turn comes (`deleteBelow_run`).
-/

namespace OpTree

namespace Table

variable {Row : Type} {t u : Table Row}

theorem eq_of_rows (rows : t.rows = u.rows) (last : t.last = u.last) : t = u := by
  cases t
  cases u
  cases rows
  cases last
  rfl

end Table

namespace Store

variable {s : Store} {xs ys : List OpId}

theorem remove_nil (s : Store) : s.remove [] = s := by
  simp [remove, Table.filter]

theorem remove_remove (s : Store) (xs ys : List OpId) :
    (s.remove xs).remove ys = s.remove (xs ++ ys) := by
  have operations : ((s.remove xs).remove ys).operations = (s.remove (xs ++ ys)).operations := by
    refine Table.eq_of_rows ?_ rfl
    simp [remove, Table.filter, List.filter_filter, Bool.and_comm]
  have parameters : ((s.remove xs).remove ys).parameters = (s.remove (xs ++ ys)).parameters := by
    refine Table.eq_of_rows ?_ rfl
    simp [remove, Table.filter, List.filter_filter, Bool.and_comm]
  rw [Store.mk.injEq]
  exact ⟨operations, parameters⟩

theorem remove_congr (same : ∀ id, id ∈ xs ↔ id ∈ ys) : s.remove xs = s.remove ys := by
  simp only [remove, List.contains_eq_mem, same]

end Store

inductive Fault where
  | refused (error : StoreError)
  | dangling
  | endless
  deriving DecidableEq, Repr

/-- Statements one after another. What is done before a fault stays done. -/
abbrev Statement := EStateM Fault Store

namespace Statement

variable {α : Type}

def ask (f : Store → α) : Statement α := fun s => .ok (f s) s

def demand (f : Store → Except StoreError α) : Statement α := fun s =>
  match f s with
  | .ok a => .ok a s
  | .error error => .error (.refused error) s

/-- Statements that are undone together if one of them meets a fault. -/
def transaction (statements : Statement α) : Statement α := fun s =>
  match statements s with
  | .ok a t => .ok a t
  | .error fault _ => .error fault s

def insertOperation (row : OperationRow) : Statement OpId := fun s =>
  if row.parent.all s.contains then
    match s.operations.insert row with
    | some (key, operations) => .ok ⟨key⟩ { s with operations }
    | none => .error (.refused .keysExhausted) s
  else .error .dangling s

def insertParameter (row : ParameterRow) : Statement Unit := fun s =>
  if s.contains row.owner then
    match s.parameters.insert row with
    | some (_, parameters) => .ok () { s with parameters }
    | none => .error (.refused .keysExhausted) s
  else .error .dangling s

def updateParameter (owner : OpId) (key value : String) : Statement Nat := fun s =>
  match s.firstParameter? owner key with
  | none => .ok 0 s
  | some found =>
    .ok 1 { s with parameters := s.parameters.map fun row parameter =>
              if row = found then { parameter with value := some value } else parameter }

def updateSequence (id : OpId) (sequence : Int64) : Statement Unit := fun s =>
  .ok () { s with operations := s.operations.map fun key row =>
             if id = ⟨key⟩ then { row with sequence } else row }

def dropParameters (owner : OpId) : Statement Unit := fun s =>
  .ok () { s with parameters := s.parameters.filter fun _ row => row.owner != owner }

def dropOperation (id : OpId) : Statement Unit := fun s =>
  if (s.allOperations.any fun op => op.parent == some id) ||
      s.parameters.rows.any fun entry => entry.2.owner == id then
    .error .dangling s
  else
    .ok () { s with operations := s.operations.filter fun key _ => ⟨key⟩ != id }

def create (opcode : Opcode) (parent : Option OpId) (sequence : Int64) : Statement OpId := do
  demand fun s => s.requireParent parent
  insertOperation { tag := opcode.tag, parent, sequence }

def append (opcode : Opcode) (parent : Option OpId) : Statement OpId := do
  let sequence ← demand fun s => s.nextSequence parent
  create opcode parent sequence

def addParameter (owner : OpId) (key : String) (value : Option String) : Statement Unit := do
  demand fun s => s.require owner
  insertParameter { owner, key, value }

def setParameter (owner : OpId) (key value : String) : Statement Unit := do
  demand fun s => s.require owner
  let updated ← updateParameter owner key value
  if updated = 0 then
    insertParameter { owner, key, value := some value }

/-- Deletes what is below an operation, then its parameters, then itself. -/
def deleteBelow : Nat → OpId → Statement Nat
  | 0, _ => throw .endless
  | fuel + 1, id => do
    let children ← ask fun s => s.children (some id)
    let counts ← children.mapM fun child => deleteBelow fuel child.id
    dropParameters id
    dropOperation id
    return counts.sum + 1

def delete (fuel : Nat) (id : OpId) : Statement Nat := do
  demand fun s => s.require id
  transaction (deleteBelow fuel id)

def renumber (ops : List Operation) (first : Nat) : Statement Unit :=
  match ops with
  | [] => return
  | op :: rest => do
    updateSequence op.id (Int64.ofNat first)
    renumber rest (first + 1)

def resequence (parent : Option OpId) : Statement Nat := do
  demand fun s => s.requireParent parent
  transaction do
    let siblings ← ask fun s => s.children parent
    renumber siblings 1
    return siblings.length

def perform (fuel : Nat) : Request → Statement Answer
  | .create opcode parent sequence => do return .created (← create opcode parent sequence)
  | .append opcode parent => do return .created (← append opcode parent)
  | .setParameter owner key value => do
    setParameter owner key value
    return .stored
  | .addParameter owner key value => do
    addParameter owner key value
    return .stored
  | .delete id => do return .counted (← delete fuel id)
  | .resequence parent => do return .counted (← resequence parent)
  | .reopen => fun s => .ok s.reopen.1 s.reopen.2

def result (s : Store) : Except StoreError (α × Store) → EStateM.Result Fault Store α
  | .ok (a, t) => .ok a t
  | .error error => .error (.refused error) s

section Results

variable {β : Type} {s t : Store} {x : Statement α} {r : Except StoreError (α × Store)}

theorem bind_of_ok {f : α → Statement β} {a : α} (done : x s = .ok a t) : (x >>= f) s = f a t := by
  change EStateM.bind x f s = f a t
  rw [EStateM.bind, done]

theorem bind_pure_result (f : α → β) (done : x s = result s r) :
    (x >>= fun a => pure (f a)) s = result s (r.map fun left => (f left.1, left.2)) := by
  change EStateM.bind x _ s = _
  rw [EStateM.bind, done]
  cases r <;> rfl

theorem demand_bind {g : Store → Except StoreError β} {f : β → Statement α}
    {h : β → Except StoreError (α × Store)}
    (rest : ∀ b, g s = .ok b → f b s = result s (h b)) :
    (demand g >>= f) s = result s (g s >>= h) := by
  cases found : g s with
  | ok b =>
    have demanded : demand g s = .ok b s := by rw [demand, found]
    rw [bind_of_ok demanded]
    exact rest b found
  | error error =>
    change EStateM.bind (demand g) f s = _
    rw [EStateM.bind, demand, found]
    rfl

theorem map_bind {γ : Type} (read : Except StoreError β) (f : β → Except StoreError α) (g : α → γ) :
    (read >>= f).map g = read >>= fun b => (f b).map g := by
  cases read <;> rfl

theorem map_map {γ δ : Type} (x : Except StoreError α) (f : α → γ) (g : γ → δ) :
    (x.map f).map g = x.map fun a => g (f a) := by
  cases x <;> rfl

theorem transaction_of_ok {a : α} (done : x s = .ok a t) : transaction x s = .ok a t := by
  rw [transaction, done]

end Results

section Insertion

variable {s : Store} {opcode : Opcode} {parent : Option OpId}

theorem create_run (sequence : Int64) :
    create opcode parent sequence s = result s (s.create opcode parent sequence) := by
  refine demand_bind fun _ known => ?_
  have there : parent.all s.contains := by
    cases parent with
    | none => rfl
    | some p => exact Store.requireParent_eq_ok.1 known p rfl
  rw [insertOperation, if_pos there]
  split <;> simp [result, *]

theorem append_run : append opcode parent s = result s (s.append opcode parent) :=
  demand_bind fun sequence _ => create_run sequence

theorem insertParameter_run {row : ParameterRow} (known : s.contains row.owner) :
    insertParameter row s = result s ((s.insertParameter row).map fun t => ((), t)) := by
  rw [insertParameter, if_pos known, Store.insertParameter]
  split <;> simp [result, Except.map, *]

theorem addParameter_run (owner : OpId) (key : String) (value : Option String) :
    addParameter owner key value s =
      result s ((s.addParameter owner key value).map fun t => ((), t)) := by
  rw [Store.addParameter, map_bind]
  exact demand_bind fun _ known => insertParameter_run (Store.require_eq_ok.1 known)

theorem setParameter_run (owner : OpId) (key value : String) :
    setParameter owner key value s =
      result s ((s.setParameter owner key value).map fun t => ((), t)) := by
  rw [Store.setParameter, map_bind]
  refine demand_bind fun _ known => ?_
  cases found : s.firstParameter? owner key with
  | none =>
    -- No row has been changed when the insertion is tried.
    have updated : updateParameter owner key value s = .ok 0 s := by
      rw [updateParameter, found]
    rw [bind_of_ok updated]
    exact insertParameter_run (Store.require_eq_ok.1 known)
  | some row =>
    have updated : updateParameter owner key value s = .ok 1 { s with
        parameters := s.parameters.map fun k parameter =>
          if k = row then { parameter with value := some value } else parameter } := by
      rw [updateParameter, found]
    rw [bind_of_ok updated]
    rfl

end Insertion

section Deletion

variable {s : Store} {gone : List OpId} {d : Operation} {n : Nat}

theorem notReferred {t : Store} {id : OpId} (childless : ∀ op ∈ t.allOperations, op.parent ≠ some id)
    (bare : ∀ entry ∈ t.parameters.rows, entry.2.owner ≠ id) : dropOperation id t =
      .ok () { t with operations := t.operations.filter fun key _ => ⟨key⟩ != id } := by
  rw [dropOperation, if_neg]
  simpa using ⟨childless, fun key row there => bare (key, row) there⟩

/-- An operation is dropped with its parameters once its children are gone. -/
theorem drop_run (below : ∀ child ∈ s.children (some d.id), child.id ∈ gone) :
    ∃ rest, dropParameters d.id (s.remove gone) = .ok () rest ∧
      dropOperation d.id rest = .ok () (s.remove (d.id :: gone)) := by
  have childless : ∀ op ∈ (s.remove gone).allOperations, op.parent ≠ some d.id := by
    intro op there under
    obtain ⟨stored, kept⟩ := Store.mem_allOperations_remove.1 there
    exact kept (below op (Store.mem_children.2 ⟨stored, under⟩))
  let rest : Store := { s.remove gone with
    parameters := (s.remove gone).parameters.filter fun _ row => row.owner != d.id }
  have bare : ∀ entry ∈ rest.parameters.rows, entry.2.owner ≠ d.id := by
    intro entry there
    simpa using (List.mem_filter.1 there).2
  have one : ({ rest with operations := rest.operations.filter fun key _ => ⟨key⟩ != d.id } :
      Store) = (s.remove gone).remove [d.id] := by
    simp only [rest, Store.remove, List.contains_cons, List.contains_nil, Bool.or_false]
    rfl
  have same : ∀ id, id ∈ gone ++ [d.id] ↔ id ∈ d.id :: gone := by
    simp [or_comm]
  refine ⟨rest, rfl, ?_⟩
  rw [notReferred (t := rest) childless bare, one, Store.remove_remove, Store.remove_congr same]

/-- Deleting one child after another, when some have been deleted already. -/
theorem children_run (gone : List OpId) {ops : List Operation} {run : Operation → Statement Nat}
    (each : ∀ (t : Store), ∀ op ∈ ops, op ∈ t.allOperations → t.Acyclic → t.DepthAtMost n op →
      run op t = .ok (t.subtreeTo n op.id).length (t.remove (t.subtreeTo n op.id)))
    (distinct : ops.Nodup) (acyclic : s.Acyclic) (under : ∀ op ∈ ops, s.IsParent d op)
    (depth : ∀ op ∈ ops, s.DepthAtMost n op)
    (apart : ∀ op ∈ ops, ∀ id ∈ s.subtreeTo n op.id, id ∉ gone) :
    ops.mapM run (s.remove gone) =
      .ok (ops.map fun op => (s.subtreeTo n op.id).length)
        (s.remove (gone ++ ops.flatMap fun op => s.subtreeTo n op.id)) := by
  induction ops generalizing gone with
  | nil => simp; rfl
  | cons op ops ih =>
    obtain ⟨fresh, distinct⟩ := List.nodup_cons.1 distinct
    have edge := under op List.mem_cons_self
    have kept : op.id ∉ gone := apart op List.mem_cons_self op.id (Store.mem_subtreeTo n op.id)
    have stored : op ∈ (s.remove gone).allOperations :=
      Store.mem_allOperations_remove.2 ⟨edge.2.1, kept⟩
    have first := each (s.remove gone) op List.mem_cons_self stored (acyclic.remove gone)
      ((depth op List.mem_cons_self).remove gone)
    rw [Store.subtreeTo_remove (apart op List.mem_cons_self), Store.remove_remove] at first
    have later : ∀ o ∈ ops, ∀ id ∈ s.subtreeTo n o.id, id ∉ gone ++ s.subtreeTo n op.id := by
      intro o there id inside
      have other : o ≠ op := by
        rintro rfl
        exact fresh there
      have beside := under o (List.mem_cons_of_mem op there)
      rw [List.mem_append, not_or]
      exact ⟨apart o (List.mem_cons_of_mem op there) id inside,
        acyclic.apart beside.2.1 edge.2.1 (beside.2.2.trans edge.2.2.symm) other inside⟩
    have rest := ih _ (fun t o there => each t o (List.mem_cons_of_mem op there)) distinct
      (fun o there => under o (List.mem_cons_of_mem op there))
      (fun o there => depth o (List.mem_cons_of_mem op there)) later
    rw [List.mapM_cons, bind_of_ok first, bind_of_ok rest, List.append_assoc]
    rfl

theorem deleteBelow_of_children {counts : List Nat}
    (done : ((s.children (some d.id)).mapM fun child => deleteBelow n child.id) s =
      .ok counts (s.remove gone))
    (below : ∀ child ∈ s.children (some d.id), child.id ∈ gone) :
    deleteBelow (n + 1) d.id s = .ok (counts.sum + 1) (s.remove (d.id :: gone)) := by
  have asked : ask (fun s => s.children (some d.id)) s = .ok (s.children (some d.id)) s := rfl
  obtain ⟨rest, bared, dropped⟩ := drop_run below
  rw [deleteBelow, bind_of_ok asked, bind_of_ok done, bind_of_ok bared, bind_of_ok dropped]
  rfl

theorem deleteBelow_run (acyclic : s.Acyclic) (stored : d ∈ s.allOperations)
    (depth : s.DepthAtMost n d) : deleteBelow (n + 1) d.id s =
      .ok (s.subtreeTo n d.id).length (s.remove (s.subtreeTo n d.id)) := by
  induction n generalizing s d with
  | zero =>
    have none : s.children (some d.id) = [] := depth
    have done : ((s.children (some d.id)).mapM fun child => deleteBelow 0 child.id) s =
        .ok [] (s.remove []) := by
      rw [none, Store.remove_nil]
      rfl
    exact deleteBelow_of_children done (by simp [none])
  | succ n ih =>
    have run := children_run [] (fun t op _ there acyclic depth => ih acyclic there depth)
      Store.children_nodup acyclic (fun op there => Store.isParent_of_child stored there) depth
      (fun _ _ _ _ => List.not_mem_nil)
    rw [Store.remove_nil, List.nil_append] at run
    have inside : ∀ child ∈ s.children (some d.id),
        child.id ∈ (s.children (some d.id)).flatMap fun op => s.subtreeTo n op.id :=
      fun child there => List.mem_flatMap.2 ⟨child, there, Store.mem_subtreeTo n child.id⟩
    rw [deleteBelow_of_children run inside, Store.subtreeTo, List.length_cons, List.length_flatMap]

theorem delete_run {id : OpId} {fuel : Nat} (acyclic : s.Acyclic)
    (enough : s.operations.size < fuel) : delete fuel id s = result s (s.delete id) := by
  refine demand_bind fun _ known => ?_
  obtain ⟨d, stored, rfl⟩ := Store.contains_iff.1 (Store.require_eq_ok.1 known)
  obtain ⟨n, rfl⟩ := Nat.exists_eq_add_of_lt enough
  have depth := Store.depthAtMost_size acyclic stored
  have done := deleteBelow_run acyclic stored (depth.le (Nat.le_add_right _ n))
  rw [depth.subtreeTo_eq (Nat.le_add_right _ n)] at done
  exact transaction_of_ok done

end Deletion

section Numbering

/-- What resequencing makes of the rows of some operations, numbered from `first` on. -/
def numbered (ids : List OpId) (first : Nat) (key : Int64) (row : OperationRow) : OperationRow :=
  match ids.idxOf? ⟨key⟩ with
  | none => row
  | some place => { row with sequence := Int64.ofNat (place + first) }

theorem numbered_cons {ids : List OpId} {id : OpId} (fresh : id ∉ ids) (first : Nat) (key : Int64)
    (row : OperationRow) : numbered (id :: ids) first key row =
      numbered ids (first + 1) key
        (if id = ⟨key⟩ then { row with sequence := Int64.ofNat first } else row) := by
  by_cases here : id = ⟨key⟩
  · subst here
    have absent : ids.idxOf? ⟨key⟩ = none := List.idxOf?_eq_none_iff.2 fresh
    simp [numbered, List.idxOf?_cons, absent]
  · rw [numbered, numbered, List.idxOf?_cons, if_neg here]
    have other : (id == ⟨key⟩) = false := by simpa using here
    cases ids.idxOf? ⟨key⟩ <;> simp [other, Nat.add_assoc, Nat.add_comm 1]

theorem renumber_run {s : Store} {ops : List Operation} (distinct : (ops.map Operation.id).Nodup)
    (first : Nat) : renumber ops first s = .ok () { s with
      operations := s.operations.map (numbered (ops.map Operation.id) first) } := by
  induction ops generalizing s first with
  | nil =>
    have all : s.operations.map (numbered [] first) = s.operations :=
      Table.eq_of_rows (List.map_id s.operations.rows) rfl
    rw [List.map_nil, all]
    rfl
  | cons op ops ih =>
    obtain ⟨fresh, distinct⟩ := List.nodup_cons.1 distinct
    have updated : updateSequence op.id (Int64.ofNat first) s = .ok () { s with
        operations := s.operations.map fun key row =>
          if op.id = ⟨key⟩ then { row with sequence := Int64.ofNat first } else row } := rfl
    rw [renumber, bind_of_ok updated, ih distinct]
    have same : (s.operations.map fun key row =>
        if op.id = ⟨key⟩ then { row with sequence := Int64.ofNat first } else row).map
          (numbered (ops.map Operation.id) (first + 1)) =
        s.operations.map (numbered ((op :: ops).map Operation.id) first) := by
      refine Table.eq_of_rows ?_ rfl
      simp only [Table.map, List.map_map, List.map_cons]
      refine List.map_congr_left fun entry _ => ?_
      rw [numbered_cons fresh]
      rfl
    rw [same]

theorem resequence_run {s : Store} {parent : Option OpId} :
    resequence parent s = result s (s.resequence parent) := by
  refine demand_bind fun _ _ => transaction_of_ok ?_
  have asked : ask (fun s => s.children parent) s = .ok (s.children parent) s := rfl
  rw [bind_of_ok asked, bind_of_ok (renumber_run Store.children_ids_nodup 1),
    List.length_map]
  rfl

end Numbering

section Requests

variable {s : Store} {fuel : Nat} {request : Request}

theorem perform_eq_of_delete
    (deletes : ∀ id, request = .delete id → delete fuel id s = result s (s.delete id)) :
    perform fuel request s = result s (s.attempt request) := by
  cases request with
  | create opcode parent sequence => exact bind_pure_result Answer.created (create_run sequence)
  | append opcode parent => exact bind_pure_result Answer.created append_run
  | setParameter owner key value =>
    have run := setParameter_run (s := s) owner key value
    exact (bind_pure_result (fun _ => Answer.stored) run).trans (by rw [map_map]; rfl)
  | addParameter owner key value =>
    have run := addParameter_run (s := s) owner key value
    exact (bind_pure_result (fun _ => Answer.stored) run).trans (by rw [map_map]; rfl)
  | delete id => exact bind_pure_result Answer.counted (deletes id rfl)
  | resequence parent => exact bind_pure_result Answer.counted resequence_run
  | reopen => simp only [perform, Store.attempt, Store.reopen_eq, result]

theorem perform_eq (acyclic : s.Acyclic) (enough : s.operations.size < fuel) (request : Request) :
    perform fuel request s = result s (s.attempt request) :=
  perform_eq_of_delete fun _ _ => delete_run acyclic enough

end Requests

end Statement

end OpTree
