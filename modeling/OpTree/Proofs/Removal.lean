import OpTree.Proofs.Siblings

set_option autoImplicit false

namespace OpTree.Store

variable {s : Store} {ids : List OpId} {parent : Option OpId} {d op : Operation}

theorem allOperations_remove (s : Store) (ids : List OpId) : (s.remove ids).allOperations =
    s.allOperations.filter fun op => !ids.contains op.id := by
  simp only [allOperations, remove, Table.filter, List.filter_map]
  rfl

@[simp] theorem mem_allOperations_remove :
    op ∈ (s.remove ids).allOperations ↔ op ∈ s.allOperations ∧ op.id ∉ ids := by
  rw [allOperations_remove, List.mem_filter]
  simp

theorem children_remove (s : Store) (ids : List OpId) (parent : Option OpId) :
    (s.remove ids).children parent =
      (s.children parent).filter fun op => !ids.contains op.id := by
  refine children_eq (children_pairwise.filter _) fun op => ?_
  rw [List.mem_filter, mem_children, mem_allOperations_remove]
  constructor
  · rintro ⟨⟨stored, under⟩, kept⟩
    exact ⟨⟨stored, by simpa using kept⟩, under⟩
  · rintro ⟨⟨stored, kept⟩, under⟩
    exact ⟨⟨stored, under⟩, by simpa using kept⟩

theorem parametersOf_remove {id : OpId} (kept : id ∉ ids) :
    (s.remove ids).parametersOf id = s.parametersOf id := by
  have rows : (s.parameters.rows.filter fun entry => !ids.contains entry.2.owner).filter
      (fun entry => entry.2.owner == id) =
        s.parameters.rows.filter fun entry => entry.2.owner == id := by
    rw [List.filter_filter]
    refine List.filter_congr fun entry _ => ?_
    by_cases owner : entry.2.owner = id
    · simp [owner, kept]
    · simp [owner]
  simp only [parametersOf, parameterRows, remove, Table.filter, rows]

theorem delete_of_mem (stored : op ∈ s.allOperations) :
    s.delete op.id = .ok ((s.subtree op.id).length, s.remove (s.subtree op.id)) := by
  simp only [delete, require, contains_of_mem stored]
  rfl

theorem mem_subtreeTo (fuel : Nat) (id : OpId) : id ∈ s.subtreeTo fuel id := by
  cases fuel <;> exact List.mem_cons_self

theorem parent_mem_subtreeTo (stored : op ∈ s.allOperations) {fuel : Nat} {id : OpId}
    (inside : op.id ∈ s.subtreeTo fuel id) :
    op.id = id ∨ ∃ p ∈ s.subtreeTo fuel id, op.parent = some p := by
  induction fuel generalizing id with
  | zero => exact .inl (List.mem_singleton.1 inside)
  | succ fuel ih =>
    rcases List.mem_cons.1 inside with top | below
    · exact .inl top
    · obtain ⟨child, under, within⟩ := List.mem_flatMap.1 below
      refine .inr ?_
      rcases ih within with same | ⟨p, above, parent⟩
      · obtain ⟨known, parent⟩ := mem_children.1 under
        rw [eq_of_id_eq stored known same]
        exact ⟨id, mem_subtreeTo (fuel + 1) id, parent⟩
      · exact ⟨p, List.mem_cons_of_mem id (List.mem_flatMap.2 ⟨child, under, above⟩), parent⟩

theorem parent_mem_subtree (stored : op ∈ s.allOperations) {id : OpId}
    (inside : op.id ∈ s.subtree id) : op.id = id ∨ ∃ p ∈ s.subtree id, op.parent = some p :=
  parent_mem_subtreeTo stored inside

section Subtree

variable (outside : ∀ p, parent = some p → p ∉ s.subtree d.id) (stored : d ∈ s.allOperations)

include outside stored

/-- A block outside a subtree loses the top operation at most. -/
theorem notMem_subtree (child : op ∈ s.children parent) (other : op ≠ d) :
    op.id ∉ s.subtree d.id := by
  obtain ⟨known, under⟩ := mem_children.1 child
  intro inside
  rcases parent_mem_subtree known inside with top | ⟨p, above, parent⟩
  · exact other (eq_of_id_eq known stored top)
  · exact outside p (under.symm.trans parent) above

theorem children_remove_subtree (elsewhere : d.parent ≠ parent) :
    (s.remove (s.subtree d.id)).children parent = s.children parent := by
  rw [children_remove, List.filter_eq_self]
  intro op child
  have other : op ≠ d := by
    rintro rfl
    exact elsewhere (mem_children.1 child).2
  simpa using notMem_subtree outside stored child other

theorem children_remove_subtree_split (here : d.parent = parent) : ∃ before after,
    s.children parent = before ++ d :: after ∧
      (s.remove (s.subtree d.id)).children parent = before ++ after := by
  obtain ⟨before, after, split⟩ := List.append_of_mem (mem_children.2 ⟨stored, here⟩)
  refine ⟨before, after, split, ?_⟩
  have sorted : (before ++ d :: after).Pairwise fun a b => a.precedes b :=
    split ▸ children_pairwise
  have kept : ∀ op ∈ before ++ after, op.id ∉ s.subtree d.id := by
    intro op inside
    have child : op ∈ s.children parent := by
      rw [split, List.mem_append, List.mem_cons]
      exact (List.mem_append.1 inside).imp_right .inr
    have other : op ≠ d := by
      rintro rfl
      rw [List.pairwise_append, List.pairwise_cons] at sorted
      rcases List.mem_append.1 inside with inside | inside
      · exact Operation.precedes_irrefl (sorted.2.2 op inside op List.mem_cons_self)
      · exact Operation.precedes_irrefl (sorted.2.1.1 op inside)
    exact notMem_subtree outside stored child other
  have gone : d.id ∈ s.subtree d.id := mem_subtreeTo _ _
  rw [children_remove, split, List.filter_append, List.filter_cons_of_neg (by simpa using gone),
    ← List.filter_append, List.filter_eq_self]
  exact fun op inside => by simpa using kept op inside

end Subtree

theorem mem_before {before after : List Operation}
    (split : s.children parent = before ++ d :: after) (child : op ∈ s.children parent)
    (earlier : op.precedes d) : op ∈ before := by
  have sorted : (before ++ d :: after).Pairwise fun a b => a.precedes b :=
    split ▸ children_pairwise
  rw [List.pairwise_append, List.pairwise_cons] at sorted
  rw [split, List.mem_append, List.mem_cons] at child
  rcases child with inside | rfl | inside
  · exact inside
  · exact absurd earlier Operation.precedes_irrefl
  · exact absurd earlier (Operation.precedes_asymm (sorted.2.1.1 op inside))

end OpTree.Store
