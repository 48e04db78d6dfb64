import OpTree.Store.Writes
import Mathlib.Data.List.Nodup
import Mathlib.Data.List.Sort

set_option autoImplicit false

namespace OpTree

namespace Operation

variable {a b c op : Operation} {ops : List Operation}

theorem precedes_iff : a.precedes b ↔ a.sequence.toInt < b.sequence.toInt ∨
    a.sequence = b.sequence ∧ a.id.raw.toInt < b.id.raw.toInt := by
  simp [precedes]

theorem precedes_trans (ab : a.precedes b) (bc : b.precedes c) : a.precedes c := by
  rw [precedes_iff, ← Int64.toInt_inj] at *
  omega

theorem precedes_irrefl : ¬ a.precedes a := by
  rw [precedes_iff]
  omega

theorem precedes_asymm (ab : a.precedes b) : ¬ b.precedes a := fun ba =>
  precedes_irrefl (precedes_trans ab ba)

theorem precedes_of_not (distinct : a.id ≠ b.id) (other : ¬ a.precedes b) : b.precedes a := by
  have ids : a.id.raw.toInt ≠ b.id.raw.toInt := fun same =>
    distinct (congrArg OpId.mk (Int64.toInt_inj.1 same))
  rw [precedes_iff, ← Int64.toInt_inj] at *
  omega

instance : Std.Irrefl fun a b : Operation => a.precedes b where
  irrefl _ := precedes_irrefl

instance : Std.Antisymm fun a b : Operation => a.precedes b where
  antisymm _ _ ab ba := absurd ba (precedes_asymm ab)

instance : Std.Total fun a b : Operation => ¬ b.precedes a where
  total a b := by
    by_cases before : a.precedes b
    · exact .inl (precedes_asymm before)
    · exact .inr before

instance : IsTrans Operation fun a b => ¬ b.precedes a where
  trans a b c ab bc := by
    rw [precedes_iff, ← Int64.toInt_inj] at *
    omega

theorem inOrder_eq_insertionSort (ops : List Operation) :
    inOrder ops = ops.insertionSort fun a b => ¬ b.precedes a := by
  refine congrArg (fun insert => ops.foldr insert []) (funext fun op => funext fun sorted => ?_)
  simp [List.orderedInsert_eq_take_drop]

theorem perm_inOrder (ops : List Operation) : (inOrder ops).Perm ops := by
  rw [inOrder_eq_insertionSort]
  exact List.perm_insertionSort _ ops

theorem pairwise_inOrder (distinct : ops.Pairwise fun a b => a.id ≠ b.id) :
    (inOrder ops).Pairwise fun a b => a.precedes b := by
  have sorted : (inOrder ops).Pairwise fun a b => ¬ b.precedes a := by
    rw [inOrder_eq_insertionSort]
    exact List.pairwise_insertionSort _ ops
  have apart : (inOrder ops).Pairwise fun a b => a.id ≠ b.id :=
    (perm_inOrder ops).symm.pairwise distinct Ne.symm
  exact sorted.imp₂ (fun a b kept differ => precedes_of_not differ.symm kept) apart

end Operation

namespace Store

variable {s : Store} {a b op : Operation} {parent : Option OpId}

theorem nodup_ids (s : Store) : (s.allOperations.map Operation.id).Nodup := by
  simp only [allOperations, List.map_map]
  refine List.pairwise_map.2 (s.operations.ascending.imp fun {x y} less same => ?_)
  have keys : x.1 = y.1 := congrArg OpId.raw same
  rw [keys] at less
  exact Int.lt_irrefl _ less

theorem eq_of_id_eq (left : a ∈ s.allOperations) (right : b ∈ s.allOperations)
    (same : a.id = b.id) : a = b :=
  List.inj_on_of_nodup_map s.nodup_ids left right same

theorem operation?_eq_some {id : OpId} :
    s.operation? id = some op ↔ op ∈ s.allOperations ∧ op.id = id := by
  have found : s.operation? id = s.allOperations.find? fun op => op.id == id := by
    simp only [operation?, Table.get?, allOperations, List.find?_map]
    cases id with
    | mk raw =>
      have keys : (fun entry : Int64 × OperationRow => entry.1 == raw) =
          (fun op : Operation => op.id == ⟨raw⟩) ∘
            fun entry => Operation.ofRow entry.1 entry.2 := by
        funext entry
        simp [Operation.ofRow]
      rw [← keys]
      cases row : s.operations.rows.find? fun entry => entry.1 == raw with
      | none => rfl
      | some entry =>
        have same : entry.1 = raw := by simpa using List.find?_some row
        simp [← same]
  rw [found]
  refine ⟨fun first => ⟨List.mem_of_find?_eq_some first, by simpa using List.find?_some first⟩,
    fun ⟨stored, same⟩ => ?_⟩
  cases first : s.allOperations.find? fun op => op.id == id with
  | none => exact absurd (by simpa using same) (List.find?_eq_none.1 first op stored)
  | some other =>
    have here : other.id = id := by simpa using List.find?_some first
    rw [eq_of_id_eq (List.mem_of_find?_eq_some first) stored (here.trans same.symm)]

theorem contains_iff {id : OpId} : s.contains id ↔ ∃ op ∈ s.allOperations, op.id = id := by
  have known : s.contains id = (s.operation? id).isSome := by simp [contains, operation?]
  rw [known, Option.isSome_iff_exists]
  exact exists_congr fun op => operation?_eq_some

theorem contains_of_mem (stored : op ∈ s.allOperations) : s.contains op.id :=
  contains_iff.2 ⟨op, stored, rfl⟩

theorem le_last (stored : op ∈ s.allOperations) :
    op.id.raw.toInt ≤ s.operations.last.toInt := by
  obtain ⟨entry, row, rfl⟩ := List.mem_map.1 stored
  exact s.operations.bounded entry row

theorem childrenById_eq (s : Store) (parent : Option OpId) :
    s.childrenById parent = s.allOperations.filter fun op => op.parent == parent := by
  simp only [childrenById, allOperations, List.filter_map]
  rfl

@[simp] theorem mem_children :
    op ∈ s.children parent ↔ op ∈ s.allOperations ∧ op.parent = parent := by
  rw [children, (Operation.perm_inOrder _).mem_iff, childrenById_eq, List.mem_filter, beq_iff_eq]

theorem children_pairwise : (s.children parent).Pairwise fun a b => a.precedes b := by
  refine Operation.pairwise_inOrder ?_
  rw [childrenById_eq]
  exact (List.pairwise_map.1 s.nodup_ids).filter _

theorem children_nodup : (s.children parent).Nodup :=
  children_pairwise.nodup

theorem children_ids_nodup : ((s.children parent).map Operation.id).Nodup :=
  children_nodup.map_on fun _ left _ right same =>
    eq_of_id_eq (mem_children.1 left).1 (mem_children.1 right).1 same

/-- A list in the order of siblings is known by its members. -/
theorem children_eq {ops : List Operation} (sorted : ops.Pairwise fun a b => a.precedes b)
    (same : ∀ op, op ∈ ops ↔ op ∈ s.allOperations ∧ op.parent = parent) :
    s.children parent = ops :=
  children_pairwise.eq_of_mem_iff sorted fun op => mem_children.trans (same op).symm

theorem ofTag_opcode (stored : op ∈ s.allOperations) :
    Opcode.ofTag op.opcode.tag = op.opcode := by
  obtain ⟨entry, _, rfl⟩ := List.mem_map.1 stored
  simp only [Operation.ofRow, Opcode.tag_ofTag]

theorem firstChild?_some {id : OpId} {opcode : Opcode} (known : Opcode.ofTag opcode.tag = opcode)
    (found : s.firstChild? id opcode = some op) :
    op ∈ s.children (some id) ∧ op.opcode = opcode := by
  have inside : op ∈ s.children (some id) := List.mem_of_find?_eq_some found
  have tags : op.opcode.tag = opcode.tag := by simpa using List.find?_some found
  refine ⟨inside, ?_⟩
  rw [← ofTag_opcode (mem_children.1 inside).1, tags, known]

end Store

end OpTree
