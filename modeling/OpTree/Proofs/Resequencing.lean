import OpTree.Proofs.Insertions
import OpTree.Proofs.Statements
import Mathlib.Data.List.Perm.Subperm

set_option autoImplicit false

namespace OpTree

namespace Operation

variable {op : Operation} {ops : List Operation} {ids : List OpId}

def renumber (ids : List OpId) (op : Operation) : Operation :=
  match ids.idxOf? op.id with
  | none => op
  | some place => { op with sequence := Int64.ofNat (place + 1) }

theorem ofRow_numbered (ids : List OpId) (key : Int64) (row : OperationRow) :
    ofRow key (Statement.numbered ids 1 key row) = (ofRow key row).renumber ids := by
  unfold Statement.numbered renumber ofRow
  cases ids.idxOf? ⟨key⟩ <;> rfl

@[simp] theorem id_renumber (ids : List OpId) (op : Operation) : (op.renumber ids).id = op.id := by
  unfold renumber
  cases ids.idxOf? op.id <;> rfl

@[simp] theorem opcode_renumber (ids : List OpId) (op : Operation) :
    (op.renumber ids).opcode = op.opcode := by
  unfold renumber
  cases ids.idxOf? op.id <;> rfl

@[simp] theorem parent_renumber (ids : List OpId) (op : Operation) :
    (op.renumber ids).parent = op.parent := by
  unfold renumber
  cases ids.idxOf? op.id <;> rfl

theorem renumber_of_notMem (absent : op.id ∉ ids) : op.renumber ids = op := by
  rw [renumber, List.idxOf?_eq_none_iff.2 absent]

theorem idxOf?_getElem (distinct : ids.Nodup) {place : Nat} (inside : place < ids.length) :
    ids.idxOf? ids[place] = some place := by
  refine List.idxOf?_eq_some_iff.2 ⟨inside, rfl, fun other before same => ?_⟩
  have equal := (distinct.getElem_inj_iff).1 same
  omega

theorem sequences_renumber (distinct : (ops.map Operation.id).Nodup) (fits : ops.length < 2 ^ 63) :
    (ops.map (renumber (ops.map Operation.id))).map (fun op => op.sequence.toInt) =
      (List.range' 1 ops.length).map Nat.cast := by
  refine List.ext_getElem (by simp) fun place left right => ?_
  have inside : place < ops.length := by simpa using left
  have found : (ops.map Operation.id).idxOf? ops[place].id = some place := by
    have here := idxOf?_getElem distinct (by simpa using inside)
    rwa [List.getElem_map] at here
  have number : (Int64.ofNat (place + 1)).toInt = ((place + 1 : Nat) : Int) :=
    Int64.toInt_ofNat_of_lt (by omega)
  simp only [List.getElem_map, List.getElem_range', renumber, found, number]
  omega

theorem pairwise_renumber (distinct : (ops.map Operation.id).Nodup)
    (fits : ops.length < 2 ^ 63) :
    (ops.map (renumber (ops.map Operation.id))).Pairwise fun a b => a.precedes b := by
  have ascending : ((ops.map (renumber (ops.map Operation.id))).map
      fun op => op.sequence.toInt).Pairwise (· < ·) := by
    have less : (List.range' 1 ops.length).Pairwise (· < ·) := List.pairwise_lt_range'
    rw [sequences_renumber distinct fits, List.pairwise_map]
    exact less.imp Int.ofNat_lt.2
  exact (List.pairwise_map.1 ascending).imp fun less => precedes_iff.2 (.inl less)

end Operation

namespace Store

variable {s t : Store} {op : Operation} {parent : Option OpId} {n : Nat}

/-- A store with the operations under a parent renumbered. -/
def resequenced (s : Store) (parent : Option OpId) : Store :=
  { s with operations :=
      s.operations.map (Statement.numbered ((s.children parent).map Operation.id) 1) }

theorem resequence_eq_ok : s.resequence parent = .ok (n, t) ↔
    s.requireParent parent = .ok () ∧ n = (s.children parent).length ∧
      t = s.resequenced parent := by
  rw [resequence, bind_eq_ok]
  simp only [List.length_map, Except.ok.injEq, Prod.mk.injEq]
  constructor
  · rintro ⟨_, known, same, rfl⟩
    exact ⟨known, same.symm, rfl⟩
  · rintro ⟨known, rfl, rfl⟩
    exact ⟨(), known, rfl, rfl⟩

theorem allOperations_resequenced (s : Store) (parent : Option OpId) :
    (s.resequenced parent).allOperations =
      s.allOperations.map (Operation.renumber ((s.children parent).map Operation.id)) := by
  simp only [allOperations, resequenced, Table.map, List.map_map]
  exact List.map_congr_left fun entry _ => Operation.ofRow_numbered _ entry.1 entry.2

theorem operation?_resequenced (s : Store) (parent : Option OpId) (id : OpId) :
    (s.resequenced parent).operation? id =
      (s.operation? id).map (Operation.renumber ((s.children parent).map Operation.id)) := by
  refine Option.ext fun op => ?_
  simp only [operation?_eq_some, allOperations_resequenced, List.mem_map, Option.map_eq_some_iff]
  constructor
  · rintro ⟨⟨old, there, rfl⟩, same⟩
    exact ⟨old, ⟨there, by simpa using same⟩, rfl⟩
  · rintro ⟨old, ⟨there, same⟩, rfl⟩
    exact ⟨⟨old, there, rfl⟩, by simpa using same⟩

theorem operation?_of_apart {id : OpId} (apart : ∀ op ∈ s.children parent, op.id ≠ id) :
    (s.resequenced parent).operation? id = s.operation? id := by
  rw [operation?_resequenced]
  cases found : s.operation? id with
  | none => rfl
  | some op =>
    have absent : op.id ∉ (s.children parent).map Operation.id := by
      intro inside
      obtain ⟨sibling, there, same⟩ := List.mem_map.1 inside
      exact apart sibling there (same.trans (operation?_eq_some.1 found).2)
    rw [Option.map_some, Operation.renumber_of_notMem absent]

theorem renumber_of_parent_ne (stored : op ∈ s.allOperations) (other : op.parent ≠ parent) :
    op.renumber ((s.children parent).map Operation.id) = op := by
  refine Operation.renumber_of_notMem fun inside => ?_
  obtain ⟨sibling, there, same⟩ := List.mem_map.1 inside
  obtain ⟨known, under⟩ := mem_children.1 there
  rw [eq_of_id_eq known stored same] at under
  exact other under

theorem map_renumber_of_ne {other : Option OpId} (apart : other ≠ parent) :
    (s.children other).map (Operation.renumber ((s.children parent).map Operation.id)) =
      s.children other := by
  refine (List.map_congr_left fun op there => ?_).trans (List.map_id _)
  obtain ⟨stored, under⟩ := mem_children.1 there
  exact renumber_of_parent_ne stored (by rwa [under])

/-- The operations of each list stay, and stay in order. -/
theorem children_resequenced (fits : (s.children parent).length < 2 ^ 63) (other : Option OpId) :
    (s.resequenced parent).children other =
      (s.children other).map (Operation.renumber ((s.children parent).map Operation.id)) := by
  refine children_eq ?_ fun op => ?_
  -- Under the parent the new numbers ascend; under any other nothing has a new number.
  · by_cases same : other = parent
    · rw [same]
      exact Operation.pairwise_renumber children_ids_nodup fits
    · rw [map_renumber_of_ne same]
      exact children_pairwise
  · simp only [allOperations_resequenced, List.mem_map, mem_children]
    constructor
    · rintro ⟨old, ⟨there, under⟩, rfl⟩
      exact ⟨⟨old, there, rfl⟩, by simpa using under⟩
    · rintro ⟨⟨old, there, rfl⟩, under⟩
      exact ⟨old, ⟨there, by simpa using under⟩, rfl⟩

theorem sequences_resequenced (fits : (s.children parent).length < 2 ^ 63) :
    ((s.resequenced parent).children parent).map (fun op => op.sequence.toInt) =
      (List.range' 1 (s.children parent).length).map Nat.cast := by
  rw [children_resequenced fits]
  exact Operation.sequences_renumber children_ids_nodup fits

theorem exists_sequence_iff (fits : (s.children parent).length < 2 ^ 63) {m : Int} :
    (∃ op ∈ (s.resequenced parent).children parent, op.sequence.toInt = m) ↔
      ∃ k : Nat, 1 ≤ k ∧ k ≤ (s.children parent).length ∧ k = m := by
  rw [← List.mem_map, sequences_resequenced fits, List.mem_map]
  simp only [List.mem_range'_1, and_assoc]
  exact exists_congr fun k => by omega

theorem nextSequence_resequenced (fits : (s.children parent).length < 2 ^ 63) :
    (s.resequenced parent).nextSequence parent =
      if (s.children parent).length + 1 < 2 ^ 63 then
        .ok (Int64.ofNat ((s.children parent).length + 1))
      else .error .sequenceExhausted := by
  have numbers := fun m : Int => exists_sequence_iff fits (m := m)
  generalize (s.children parent).length = n at *
  rcases (s.resequenced parent).nextSequence_cases parent with
    ⟨first, none⟩ | ⟨last, stored, under, above, rest⟩
  · have nothing : n = 0 := by
      by_contra some
      obtain ⟨op, there, _⟩ := (numbers n).2 ⟨n, by omega, by omega, rfl⟩
      exact none op (mem_children.1 there).1 (mem_children.1 there).2
    rw [first, nothing, if_pos (by decide)]
    rfl
  · obtain ⟨k, low, high, same⟩ := (numbers last.sequence.toInt).1
      ⟨last, mem_children.2 ⟨stored, under⟩, rfl⟩
    obtain ⟨op, there, greatest⟩ := (numbers n).2 ⟨n, by omega, by omega, rfl⟩
    have below := above op (mem_children.1 there).1 (mem_children.1 there).2
    -- The greatest number is one of those given out, and as great as the last of them.
    have all : last.sequence.toInt = n := by omega
    rcases rest with ⟨room, next⟩ | ⟨full, next⟩
    · have number : last.sequence + 1 = Int64.ofNat (n + 1) := by
        rw [← Int64.toInt_inj, toInt_add_one room, Int64.toInt_ofNat_of_lt (by omega)]
        omega
      rw [next, if_pos (by omega), number]
    · rw [full, Int64.toInt_maxValue] at all
      rw [next, if_neg (by omega)]

theorem resequenced_resequenced (fits : (s.children parent).length < 2 ^ 63) :
    (s.resequenced parent).resequenced parent = s.resequenced parent := by
  have ids : ((s.resequenced parent).children parent).map Operation.id =
      (s.children parent).map Operation.id := by
    rw [children_resequenced fits, List.map_map]
    exact List.map_congr_left fun op _ => Operation.id_renumber _ op
  have operations : ((s.resequenced parent).resequenced parent).operations =
      (s.resequenced parent).operations := by
    refine Table.eq_of_rows ?_ rfl
    rw [resequenced, ids]
    simp only [resequenced, Table.map, List.map_map]
    refine List.map_congr_left fun entry _ => ?_
    simp only [Function.comp, Statement.numbered]
    split <;> rfl
  rw [Store.mk.injEq]
  exact ⟨operations, rfl⟩

theorem firstChild?_resequenced (fits : (s.children parent).length < 2 ^ 63) (id : OpId)
    (opcode : Opcode) : (s.resequenced parent).firstChild? id opcode =
      (s.firstChild? id opcode).map
        (Operation.renumber ((s.children parent).map Operation.id)) := by
  rw [firstChild?, children_resequenced fits, List.find?_map, firstChild?]
  simp only [Function.comp_def, Operation.opcode_renumber]

/-- There are numbers enough where identifiers are positive. -/
theorem length_children_lt (positive : ∀ op ∈ s.allOperations, 0 < op.id.raw.toInt) :
    (s.children parent).length < 2 ^ 63 := by
  let numbers := (s.children parent).map fun op => op.id.raw.toInt.toNat
  have distinct : numbers.Nodup := by
    refine (List.nodup_map_iff_inj_on children_nodup).2 fun a left b right same => ?_
    have known := (mem_children.1 left).1
    have other := (mem_children.1 right).1
    have first := positive a known
    have second := positive b other
    have keys : a.id.raw.toInt = b.id.raw.toInt := by omega
    exact eq_of_id_eq known other (congrArg OpId.mk (Int64.toInt_inj.1 keys))
  have within : numbers ⊆ List.range' 1 (2 ^ 63 - 1) := by
    intro number there
    obtain ⟨op, inside, rfl⟩ := List.mem_map.1 there
    have above := positive op (mem_children.1 inside).1
    have below := op.id.raw.toInt_lt
    rw [List.mem_range'_1]
    omega
  have fewer := (List.subperm_of_subset distinct within).length_le
  rw [List.length_map, List.length_range'] at fewer
  omega

structure Renumbers (s t : Store) (parent : Option OpId) (n : Nat) : Prop where
  count : n = (s.children parent).length
  order : ((t.children parent).map fun op => (op.id, op.opcode, op.parent)) =
    (s.children parent).map fun op => (op.id, op.opcode, op.parent)
  sequences : ((t.children parent).map fun op => op.sequence.toInt) =
    (List.range' 1 n).map Nat.cast
  others : ∀ id, (∀ op ∈ s.children parent, op.id ≠ id) → t.operation? id = s.operation? id
  elsewhere : ∀ other, other ≠ parent → t.children other = s.children other
  parameters : t.parameters = s.parameters
  first : ∀ id opcode, (t.firstChild? id opcode).map Operation.id =
    (s.firstChild? id opcode).map Operation.id
  again : t.resequence parent = .ok (n, t)
  place : t.nextSequence parent =
    if n + 1 < 2 ^ 63 then .ok (Int64.ofNat (n + 1)) else .error .sequenceExhausted
  next : ∀ opcode id u, t.append opcode parent = .ok (id, u) →
    ∃ op, u.operation? id = some op ∧ op.parent = parent ∧ op.sequence.toInt = n + 1

theorem renumbers_of_resequence (done : s.resequence parent = .ok (n, t)) (fits : n < 2 ^ 63) :
    s.Renumbers t parent n := by
  obtain ⟨known, rfl, rfl⟩ := resequence_eq_ok.1 done
  have children := children_resequenced fits
  have place := nextSequence_resequenced fits
  refine ⟨rfl, ?_, sequences_resequenced fits, fun id => operation?_of_apart, fun other apart => ?_,
    rfl, fun id opcode => ?_, ?_, place, fun opcode id u made => ?_⟩
  · rw [children, List.map_map]
    exact List.map_congr_left fun op _ => by simp
  · rw [children, map_renumber_of_ne apart]
  · rw [firstChild?_resequenced fits, Option.map_map]
    exact Option.map_congr fun op _ => Operation.id_renumber _ op
  · refine resequence_eq_ok.2 ⟨?_, ?_, (resequenced_resequenced fits).symm⟩
    · exact requireParent_eq_ok.2 fun p same =>
        contains_mapOperations (requireParent_eq_ok.1 known p same)
    · rw [children, List.length_map]
  · obtain ⟨op, lands, rfl, _, under, next, _⟩ := lands_of_append made
    refine ⟨op, lands.found, under, ?_⟩
    rw [place] at next
    split at next
    case isTrue room =>
      have number := Int64.toInt_ofNat_of_lt room
      rw [Except.ok.inj next] at number
      omega
    case isFalse => cases next

/-- Renumbering the operations under a parent changes no order, whatever the numbers were before,
all at once or one row after another. There are fewer of them than integers above zero in every
store that was built by writes. -/
theorem resequence_renumbers (s : Store) (parent : Option OpId) :
    (s.Sound → (s.children parent).length < 2 ^ 63) ∧
      ∀ n t, s.resequence parent = .ok (n, t) → n < 2 ^ 63 →
        s.Renumbers t parent n ∧ Statement.resequence parent s = .ok n t := by
  refine ⟨fun sound => length_children_lt sound.positive, fun n t done fits => ?_⟩
  refine ⟨renumbers_of_resequence done fits, ?_⟩
  rw [Statement.resequence_run, done, Statement.result]

/-- Numbers below zero, equal ones, the greatest one, and some that are given out again. -/
theorem resequence_renumbers_tied :
    let s := Store.empty.after [.append .function none, .create .print (some ⟨1⟩) Int64.maxValue,
      .create .call (some ⟨1⟩) (-7), .create .print (some ⟨1⟩) 3, .create .print none (-1),
      .create .call (some ⟨1⟩) 3, .create .print (some ⟨1⟩) 1]
    let t := s.resequenced (some ⟨1⟩)
    s.resequence (some ⟨1⟩) = .ok (5, t) ∧ 5 < 2 ^ 63 ∧
      (s.children (some ⟨1⟩)).map Operation.id = [⟨3⟩, ⟨7⟩, ⟨4⟩, ⟨6⟩, ⟨2⟩] ∧
      s.Renumbers t (some ⟨1⟩) 5 := by
  intro s t
  have done : s.resequence (some ⟨1⟩) = .ok (5, t) :=
    resequence_eq_ok.2 ⟨by decide, by decide, rfl⟩
  have fits : 5 < 2 ^ 63 := by decide
  exact ⟨done, fits, by decide, ((resequence_renumbers s (some ⟨1⟩)).2 5 t done fits).1⟩

end Store

end OpTree
