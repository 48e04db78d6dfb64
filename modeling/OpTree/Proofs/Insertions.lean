import OpTree.Proofs.Integrity
import OpTree.Proofs.Placement

set_option autoImplicit false

namespace OpTree

namespace Opcode

variable {tag : String}

theorem ofTag_of_listed {known : Opcode} (listed : known ∈ glossary) (same : known.tag = tag) :
    ofTag tag = known := by
  rw [← same]
  exact (glossary_known known listed).1

theorem ofTag_of_unlisted (absent : ∀ known ∈ glossary, known.tag ≠ tag) :
    ofTag tag = unknown tag := by
  have none : (glossary.find? fun opcode => opcode.tag == tag) = none :=
    List.find?_eq_none.2 fun known listed => by simpa using absent known listed
  rw [ofTag, none, Option.getD_none]

end Opcode

namespace Operation

variable {op : Operation} {ops : List Operation}

/-- Puts an operation behind those with the same or a smaller sequence number. -/
def landAmong (op : Operation) (ops : List Operation) : List Operation :=
  (ops.filter fun sibling => sibling.sequence.toInt ≤ op.sequence.toInt) ++
    op :: ops.filter fun sibling => op.sequence.toInt < sibling.sequence.toInt

theorem mem_landAmong {other : Operation} :
    other ∈ op.landAmong ops ↔ other ∈ ops ∨ other = op := by
  simp only [landAmong, List.mem_append, List.mem_cons, List.mem_filter, decide_eq_true_eq]
  have either := Int.lt_or_le op.sequence.toInt other.sequence.toInt
  grind

theorem pairwise_landAmong (sorted : ops.Pairwise fun a b => a.precedes b)
    (fresh : ∀ old ∈ ops, old.id.raw.toInt < op.id.raw.toInt) :
    (op.landAmong ops).Pairwise fun a b => a.precedes b := by
  have before : ∀ old ∈ ops.filter fun sibling => sibling.sequence.toInt ≤ op.sequence.toInt,
      old.precedes op := by
    intro old there
    obtain ⟨inside, le⟩ := List.mem_filter.1 there
    have less := fresh old inside
    rw [decide_eq_true_eq] at le
    rw [precedes_iff, ← Int64.toInt_inj]
    omega
  have behind : ∀ old ∈ ops.filter fun sibling => op.sequence.toInt < sibling.sequence.toInt,
      op.precedes old := by
    intro old there
    have less := (List.mem_filter.1 there).2
    rw [decide_eq_true_eq] at less
    exact precedes_iff.2 (.inl less)
  refine List.pairwise_append.2 ⟨sorted.filter _,
    List.pairwise_cons.2 ⟨behind, sorted.filter _⟩, fun a left b right => ?_⟩
  rcases List.mem_cons.1 right with rfl | right
  · exact before a left
  · exact precedes_trans (before a left) (behind b right)

theorem landAmong_of_above (above : ∀ old ∈ ops, old.sequence.toInt < op.sequence.toInt) :
    op.landAmong ops = ops ++ [op] := by
  have all : (ops.filter fun sibling => sibling.sequence.toInt ≤ op.sequence.toInt) = ops :=
    List.filter_eq_self.2 fun old there => decide_eq_true (Int.le_of_lt (above old there))
  have none : (ops.filter fun sibling => op.sequence.toInt < sibling.sequence.toInt) = [] := by
    refine List.filter_eq_nil_iff.2 fun old there => ?_
    have less := above old there
    rw [decide_eq_true_eq]
    omega
  rw [landAmong, all, none]

end Operation

namespace Store

variable {s t : Store} {id : OpId} {op : Operation} {opcode : Opcode} {parent : Option OpId}

/-- The second store is the first one and one more operation. -/
structure Lands (s t : Store) (op : Operation) : Prop where
  rows : t.operations.rows =
    s.operations.rows ++ [(op.id.raw, ⟨op.opcode.tag, op.parent, op.sequence⟩)]
  parameters : t.parameters = s.parameters
  fresh : ∀ old ∈ s.allOperations, old.id.raw.toInt < op.id.raw.toInt
  found : t.operation? op.id = some op
  kept : ∀ old ∈ s.allOperations, t.operation? old.id = some old
  here : t.children op.parent = op.landAmong (s.children op.parent)
  elsewhere : ∀ parent, parent ≠ op.parent → t.children parent = s.children parent

theorem lands_of_insert {row : OperationRow} {key : Int64} {operations : Table OperationRow}
    (inserted : s.operations.insert row = some (key, operations)) :
    s.Lands { s with operations } (Operation.ofRow key row) := by
  obtain ⟨next, rows, _⟩ := Table.insert_eq_some inserted
  have all := allOperations_insert inserted
  have fresh : ∀ old ∈ s.allOperations,
      old.id.raw.toInt < (Operation.ofRow key row).id.raw.toInt := by
    intro old there
    have used := le_last there
    change old.id.raw.toInt < key.toInt
    omega
  have stored : ∀ other, other ∈ ({ s with operations } : Store).allOperations ↔
      other ∈ s.allOperations ∨ other = Operation.ofRow key row := by
    simp [all]
  refine ⟨?_, rfl, fresh, operation?_eq_some.2 ⟨(stored _).2 (.inr rfl), rfl⟩,
    fun old there => operation?_eq_some.2 ⟨(stored old).2 (.inl there), rfl⟩,
    children_eq ?_ fun other => ?_, fun parent apart => children_eq children_pairwise ?_⟩
  · rw [rows]
    simp only [Operation.ofRow, Opcode.tag_ofTag]
  · exact Operation.pairwise_landAmong children_pairwise fun old there =>
      fresh old (mem_children.1 there).1
  · rw [Operation.mem_landAmong, mem_children, stored]
    grind
  · intro other
    rw [mem_children, stored]
    grind

theorem lands_of_create {sequence : Int64}
    (made : s.create opcode parent sequence = .ok (id, t)) :
    s.Lands t ⟨id, Opcode.ofTag opcode.tag, parent, sequence⟩ := by
  obtain ⟨_, operations, inserted, rfl⟩ := exists_of_create made
  exact lands_of_insert inserted

theorem lands_of_append (made : s.append opcode parent = .ok (id, t)) :
    ∃ op, s.Lands t op ∧ op.id = id ∧ op.opcode = Opcode.ofTag opcode.tag ∧ op.parent = parent ∧
      s.nextSequence parent = .ok op.sequence ∧ t.children parent = s.children parent ++ [op] := by
  obtain ⟨sequence, next, created⟩ := bind_eq_ok.1 made
  have lands := lands_of_create created
  refine ⟨_, lands, rfl, rfl, rfl, next, lands.here.trans ?_⟩
  exact Operation.landAmong_of_above fun old there =>
    nextSequence_above next old (mem_children.1 there).1 (mem_children.1 there).2

end Store

end OpTree
