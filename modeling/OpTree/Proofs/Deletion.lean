import OpTree.Proofs.Statements

set_option autoImplicit false

namespace OpTree.Store

open Relation

variable {s : Store} {d op : Operation} {id : OpId} {n : Nat}

theorem DepthAtMost.mem_subtreeTo_of_reaches (depth : s.DepthAtMost n d)
    (path : ReflTransGen s.IsParent d op) : op.id ∈ s.subtreeTo n d.id := by
  induction n generalizing d with
  | zero =>
    rcases path.cases_head with rfl | ⟨child, edge, _⟩
    · exact mem_subtreeTo 0 d.id
    · obtain ⟨_, less, _⟩ := depth.child edge
      exact absurd less (Nat.not_lt_zero _)
  | succ n ih =>
    rcases path.cases_head with rfl | ⟨child, edge, below⟩
    · exact mem_subtreeTo (n + 1) d.id
    · have there : child ∈ s.children (some d.id) := mem_children.2 edge.2
      have inside := ih (depth child there) below
      exact List.mem_cons_of_mem d.id (List.mem_flatMap.2 ⟨child, there, inside⟩)

namespace Acyclic

variable (acyclic : s.Acyclic) (stored : d ∈ s.allOperations)

include acyclic stored

theorem mem_subtree :
    id ∈ s.subtree d.id ↔ ∃ op, ReflTransGen s.IsParent d op ∧ op.id = id := by
  constructor
  · intro inside
    obtain ⟨op, _, same, path⟩ := reaches_of_mem_subtreeTo stored inside
    exact ⟨op, path, same⟩
  · rintro ⟨op, path, rfl⟩
    exact (depthAtMost_size acyclic stored).mem_subtreeTo_of_reaches path

theorem id_mem_subtree (known : op ∈ s.allOperations) :
    op.id ∈ s.subtree d.id ↔ ReflTransGen s.IsParent d op := by
  rw [acyclic.mem_subtree stored]
  constructor
  · rintro ⟨o, path, same⟩
    rwa [eq_of_id_eq (stored_of_reaches stored path) known same] at path
  · exact fun path => ⟨op, path, rfl⟩

theorem nodup_subtreeTo (n : Nat) : (s.subtreeTo n d.id).Nodup := by
  induction n generalizing d with
  | zero => exact List.nodup_singleton d.id
  | succ n ih =>
    have edge : ∀ child ∈ s.children (some d.id), s.IsParent d child :=
      fun child there => isParent_of_child stored there
    refine List.nodup_cons.2 ⟨fun inside => ?_, List.nodup_flatMap.2 ⟨?_, ?_⟩⟩
    · obtain ⟨child, there, within⟩ := List.mem_flatMap.1 inside
      obtain ⟨o, known, same, path⟩ := reaches_of_mem_subtreeTo (edge child there).2.1 within
      rw [eq_of_id_eq known stored same] at path
      exact acyclic d (TransGen.head' (edge child there) path)
    · exact fun child there => ih (edge child there).2.1
    · refine children_nodup.imp_of_mem fun {a b} left right distinct id inside => ?_
      have same := (edge a left).2.2.trans (edge b right).2.2.symm
      exact acyclic.apart (edge a left).2.1 (edge b right).2.1 same distinct inside

theorem nodup_subtree : (s.subtree d.id).Nodup :=
  acyclic.nodup_subtreeTo stored s.operations.size

end Acyclic

theorem length_allOperations (s : Store) : s.allOperations.length = s.operations.size :=
  List.length_map _

theorem size_remove {ids : List OpId} (distinct : ids.Nodup) (known : ∀ id ∈ ids, s.contains id) :
    (s.remove ids).operations.size + ids.length = s.operations.size := by
  have removed : ((s.allOperations.filter fun op => ids.contains op.id).map Operation.id).Perm
      ids := by
    have nodup := s.nodup_ids.sublist
      (List.filter_sublist (p := fun op => ids.contains op.id).map Operation.id)
    refine (List.perm_ext_iff_of_nodup nodup distinct).2 fun id => ?_
    constructor
    · intro there
      obtain ⟨op, inside, rfl⟩ := List.mem_map.1 there
      simpa using (List.mem_filter.1 inside).2
    · intro there
      obtain ⟨op, stored, rfl⟩ := contains_iff.1 (known id there)
      exact List.mem_map_of_mem (List.mem_filter.2 ⟨stored, by simpa using there⟩)
  have count := removed.length_eq
  rw [List.length_map] at count
  have split := s.allOperations.length_eq_length_filter_add fun op => ids.contains op.id
  rw [← length_allOperations, ← length_allOperations, allOperations_remove, split, count]
  exact Nat.add_comm _ _

/-- A store without an operation, all below it and their parameters, and otherwise as it was. -/
structure Pruned (s : Store) (d : Operation) (t : Store) : Prop where
  operations : t.operations.rows.Sublist s.operations.rows
  stored : ∀ op, op ∈ t.allOperations ↔ op ∈ s.allOperations ∧ ¬ ReflTransGen s.IsParent d op
  parameters : t.parameters.rows.Sublist s.parameters.rows
  owned : ∀ entry, entry ∈ t.parameters.rows ↔ entry ∈ s.parameters.rows ∧
    ∀ op, ReflTransGen s.IsParent d op → op.id ≠ entry.2.owner
  siblings : ∀ parent, (t.children parent).Sublist (s.children parent)
  unnamed : ∀ op, ReflTransGen s.IsParent d op →
    ∀ left ∈ t.allOperations, left.parent ≠ some op.id
  lastOperation : t.operations.last = s.operations.last
  lastParameter : t.parameters.last = s.parameters.last

theorem Acyclic.pruned_remove (acyclic : s.Acyclic) (stored : d ∈ s.allOperations) :
    s.Pruned d (s.remove (s.subtree d.id)) where
  operations := List.filter_sublist
  stored op := by
    rw [mem_allOperations_remove]
    exact and_congr_right fun known => not_congr (acyclic.id_mem_subtree stored known)
  parameters := List.filter_sublist
  owned entry := by
    have outside : entry.2.owner ∉ s.subtree d.id ↔
        ∀ op, ReflTransGen s.IsParent d op → op.id ≠ entry.2.owner := by
      rw [acyclic.mem_subtree stored]
      simp
    rw [← outside]
    exact List.mem_filter.trans (by simp)
  siblings parent := by
    rw [children_remove]
    exact List.filter_sublist
  unnamed op path left there named := by
    obtain ⟨known, kept⟩ := mem_allOperations_remove.1 there
    have edge : s.IsParent op left := ⟨stored_of_reaches stored path, known, named⟩
    exact kept ((acyclic.id_mem_subtree stored known).2 (path.tail edge))
  lastOperation := rfl
  lastParameter := rfl

/-- Deleting an operation comes to an end, at once and by single statements alike. It removes the
operation, all below it and their parameters, and tells how many operations that were. -/
theorem delete_prunes (s : Store) (acyclic : s.Acyclic) (d : Operation)
    (stored : d ∈ s.allOperations) (fuel : Nat) (enough : s.operations.size < fuel) :
    ∃ count t, s.delete d.id = .ok (count, t) ∧ Statement.delete fuel d.id s = .ok count t ∧
      t.operations.size + count = s.operations.size ∧ s.Pruned d t := by
  have deleted := delete_of_mem stored
  have run : Statement.delete fuel d.id s = Statement.result s (s.delete d.id) :=
    Statement.delete_run acyclic enough
  rw [deleted] at run
  have known : ∀ id ∈ s.subtree d.id, s.contains id := by
    intro id inside
    obtain ⟨op, there, same, _⟩ := reaches_of_mem_subtreeTo stored inside
    exact contains_iff.2 ⟨op, there, same⟩
  exact ⟨_, _, deleted, run, size_remove (acyclic.nodup_subtree stored) known,
    acyclic.pruned_remove stored⟩

/-- A child was stored before its parent, and identifiers beyond those of the rows were used: the
root with two operations below it goes, the other root stays, and so do the counters. -/
theorem delete_prunes_nested :
    let s : Store := {
      operations := {
        rows := [(1, ⟨"print", some ⟨3⟩, 1⟩), (2, ⟨"if", none, 1⟩), (3, ⟨"while", some ⟨2⟩, 5⟩),
          (4, ⟨"call", none, 2⟩)]
        last := 9
        ascending := by decide
        bounded := by decide
        nonneg := by decide }
      parameters := {
        rows := [(1, ⟨⟨1⟩, "value", some "x"⟩), (3, ⟨⟨4⟩, "name", none⟩)]
        last := 3
        ascending := by decide
        bounded := by decide
        nonneg := by decide } }
    let branch : Operation := ⟨⟨2⟩, .conditional, none, 1⟩
    let other : Operation := ⟨⟨4⟩, .call, none, 2⟩
    s.Acyclic ∧ branch ∈ s.allOperations ∧ s.operations.size < 5 ∧
      ∃ t, s.delete ⟨2⟩ = .ok (3, t) ∧ Statement.delete 5 ⟨2⟩ s = .ok 3 t ∧
        t.operations.size = 1 ∧ other ∈ t.allOperations ∧
        (3, ⟨⟨4⟩, "name", none⟩) ∈ t.parameters.rows ∧ t.operations.last = 9 := by
  intro s branch other
  let rank : Operation → Nat := fun op => if op.id = ⟨2⟩ then 0 else if op.id = ⟨3⟩ then 1 else 2
  have climbs : ∀ a ∈ s.allOperations, ∀ b ∈ s.allOperations, b.parent = some a.id →
      rank a < rank b := by decide
  have acyclic : s.Acyclic := acyclic_of_rank rank fun a b edge => climbs a edge.1 b edge.2.1 edge.2.2
  have stored : branch ∈ s.allOperations := by decide
  have small : s.operations.size < 5 := by decide
  obtain ⟨count, t, deleted, run, size, pruned⟩ := delete_prunes s acyclic branch stored 5 small
  have counted : (s.delete branch.id).map Prod.fst = .ok 3 := rfl
  rw [deleted] at counted
  obtain rfl : count = 3 := Except.ok.inj counted
  have apart : ¬ ReflTransGen s.IsParent branch other := by
    intro path
    rcases path.cases_tail with same | ⟨last, _, edge⟩
    · exact absurd same (by decide)
    · cases edge.2.2
  refine ⟨acyclic, stored, small, t, deleted, run, Nat.add_right_cancel size, ?_, ?_,
    pruned.lastOperation⟩
  · exact (pruned.stored other).2 ⟨by decide, apart⟩
  · refine (pruned.owned _).2 ⟨by decide, ?_⟩
    intro op path same
    have known : other ∈ s.allOperations := by decide
    rw [eq_of_id_eq (stored_of_reaches stored path) known same] at path
    exact apart path

end OpTree.Store
