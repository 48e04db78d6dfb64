import OpTree.Proofs.Histories
import OpTree.Proofs.Removal
import Mathlib.Logic.Relation

set_option autoImplicit false

/-!
# Integrity of a store

No write checks that operations form a tree. They do since a parent is stored before its children:
its identifier is smaller (`Sound`). Every change keeps this. The delicate one is deletion, which
follows the children down: it reaches all of them (`mem_subtree_of_parent`), so nothing that is
left refers to what is gone.
-/

namespace OpTree.Store

variable {s t : Store} {id p : OpId} {op : Operation}

structure Sound (s : Store) : Prop where
  positive : ∀ op ∈ s.allOperations, 0 < op.id.raw.toInt
  parent : ∀ op ∈ s.allOperations, ∀ p, op.parent = some p →
    s.contains p ∧ p.raw.toInt < op.id.raw.toInt
  owner : ∀ entry ∈ s.parameters.rows, s.contains entry.2.owner

theorem allOperations_insert {row : OperationRow} {key : Int64} {operations : Table OperationRow}
    (inserted : s.operations.insert row = some (key, operations)) :
    ({ s with operations } : Store).allOperations =
      s.allOperations ++ [Operation.ofRow key row] := by
  simp [allOperations, (Table.insert_eq_some inserted).2.1]

section Mapping

variable {change : Int64 → OperationRow → OperationRow}

theorem contains_mapOperations (there : s.contains id) :
    ({ s with operations := s.operations.map change } : Store).contains id := by
  obtain ⟨o, here, rfl⟩ := contains_iff.1 there
  obtain ⟨entry, row, rfl⟩ := List.mem_map.1 here
  have mapped : (entry.1, change entry.1 entry.2) ∈ (s.operations.map change).rows :=
    List.mem_map_of_mem row
  exact contains_iff.2 ⟨_, List.mem_map_of_mem mapped, rfl⟩

theorem exists_of_mapOperations (parents : ∀ key row, (change key row).parent = row.parent)
    (there : op ∈ ({ s with operations := s.operations.map change } : Store).allOperations) :
    ∃ o ∈ s.allOperations, o.id = op.id ∧ o.parent = op.parent := by
  obtain ⟨_, row, rfl⟩ := List.mem_map.1 there
  obtain ⟨entry, stored, rfl⟩ := List.mem_map.1 row
  exact ⟨_, List.mem_map_of_mem stored, rfl, (parents entry.1 entry.2).symm⟩

end Mapping

section Deletion

def countLater (s : Store) (id : OpId) : Nat :=
  (s.allOperations.filter fun op => decide (id.raw.toInt < op.id.raw.toInt)).length

theorem countLater_le (s : Store) (id : OpId) : s.countLater id ≤ s.operations.size := by
  have some := List.length_filter_le (fun op => decide (id.raw.toInt < op.id.raw.toInt))
    s.allOperations
  rwa [allOperations, List.length_map] at some

theorem countLater_lt (stored : op ∈ s.allOperations) (later : id.raw.toInt < op.id.raw.toInt) :
    s.countLater op.id < s.countLater id := by
  have fewer : (s.allOperations.filter fun o => decide (op.id.raw.toInt < o.id.raw.toInt)).Sublist
      (s.allOperations.filter fun o => decide (id.raw.toInt < o.id.raw.toInt)) := by
    apply List.monotone_filter_right
    intro o after
    simp only [decide_eq_true_eq] at after ⊢
    omega
  apply Nat.lt_of_le_of_ne fewer.length_le
  intro equal
  have inside : op ∈ s.allOperations.filter fun o => decide (id.raw.toInt < o.id.raw.toInt) :=
    List.mem_filter.2 ⟨stored, by simpa using later⟩
  rw [← fewer.eq_of_length equal, List.mem_filter] at inside
  simp at inside

variable (sound : s.Sound)

include sound

/-- Enough fuel is one step for each operation that is stored later than the top one. -/
theorem Sound.mem_subtreeTo_of_parent (stored : op ∈ s.allOperations) (under : op.parent = some p)
    {fuel : Nat} (enough : s.countLater id ≤ fuel) (inside : p ∈ s.subtreeTo fuel id) :
    op.id ∈ s.subtreeTo fuel id := by
  induction fuel generalizing id with
  | zero =>
    -- No operation is stored later than the top one, so the top one has no children.
    have top : p = id := List.mem_singleton.1 inside
    have below := (sound.parent op stored p under).2
    have fewer := countLater_lt stored below
    rw [top] at fewer
    omega
  | succ fuel ih =>
    rcases List.mem_cons.1 inside with rfl | inside
    · have child : op ∈ s.children (some p) := mem_children.2 ⟨stored, under⟩
      exact List.mem_cons_of_mem p (List.mem_flatMap.2 ⟨op, child, mem_subtreeTo fuel op.id⟩)
    · obtain ⟨child, there, within⟩ := List.mem_flatMap.1 inside
      obtain ⟨known, parent⟩ := mem_children.1 there
      have fewer := countLater_lt known (sound.parent child known id parent).2
      have found := ih (by omega) within
      exact List.mem_cons_of_mem id (List.mem_flatMap.2 ⟨child, there, found⟩)

theorem Sound.mem_subtree_of_parent (stored : op ∈ s.allOperations) (under : op.parent = some p)
    (inside : p ∈ s.subtree id) : op.id ∈ s.subtree id :=
  sound.mem_subtreeTo_of_parent stored under (countLater_le s id) inside

theorem Sound.remove_subtree (id : OpId) : (s.remove (s.subtree id)).Sound where
  positive op there := sound.positive op (mem_allOperations_remove.1 there).1
  parent op there p under := by
    obtain ⟨stored, left⟩ := mem_allOperations_remove.1 there
    obtain ⟨known, less⟩ := sound.parent op stored p under
    obtain ⟨o, here, rfl⟩ := contains_iff.1 known
    have stays : o.id ∉ s.subtree id :=
      fun gone => left (sound.mem_subtree_of_parent stored under gone)
    exact ⟨contains_iff.2 ⟨o, mem_allOperations_remove.2 ⟨here, stays⟩, rfl⟩, less⟩
  owner entry there := by
    obtain ⟨row, left⟩ := List.mem_filter.1 there
    obtain ⟨o, here, same⟩ := contains_iff.1 (sound.owner entry row)
    have stays : o.id ∉ s.subtree id := by simpa [same] using left
    exact contains_iff.2 ⟨o, mem_allOperations_remove.2 ⟨here, stays⟩, same⟩

end Deletion

namespace Sound

theorem empty : Store.empty.Sound :=
  ⟨nofun, nofun, nofun⟩

theorem create (sound : s.Sound) {row : OperationRow} {key : Int64}
    {operations : Table OperationRow} (inserted : s.operations.insert row = some (key, operations))
    (known : ∀ parent, row.parent = some parent → s.contains parent) :
    Sound { s with operations } := by
  have next := (Table.insert_eq_some inserted).1
  have all := allOperations_insert inserted
  have grows : ∀ {id}, s.contains id → ({ s with operations } : Store).contains id := by
    intro id there
    obtain ⟨o, here, same⟩ := contains_iff.1 there
    exact contains_iff.2 ⟨o, by rw [all]; exact List.mem_append_left _ here, same⟩
  have first := s.operations.nonneg
  refine ⟨?_, ?_, fun entry there => grows (sound.owner entry there)⟩
  · intro op there
    rw [all, List.mem_append, List.mem_singleton] at there
    rcases there with stored | rfl
    · exact sound.positive op stored
    · change 0 < key.toInt
      omega
  · intro op there p under
    rw [all, List.mem_append, List.mem_singleton] at there
    rcases there with stored | rfl
    · obtain ⟨parent, less⟩ := sound.parent op stored p under
      exact ⟨grows parent, less⟩
    · obtain ⟨o, here, rfl⟩ := contains_iff.1 (known p under)
      have before := le_last here
      refine ⟨grows (known o.id under), ?_⟩
      change o.id.raw.toInt < key.toInt
      omega

theorem mapOperations (sound : s.Sound) {change : Int64 → OperationRow → OperationRow}
    (parents : ∀ key row, (change key row).parent = row.parent) :
    Sound { s with operations := s.operations.map change } := by
  refine ⟨?_, ?_, fun entry there => contains_mapOperations (sound.owner entry there)⟩
  · intro op there
    obtain ⟨o, stored, same, _⟩ := exists_of_mapOperations parents there
    rw [← same]
    exact sound.positive o stored
  · intro op there p under
    obtain ⟨o, stored, same, parent⟩ := exists_of_mapOperations parents there
    obtain ⟨known, less⟩ := sound.parent o stored p (parent.trans under)
    rw [← same]
    exact ⟨contains_mapOperations known, less⟩

theorem change {new : Option OpId} (sound : s.Sound) (change : s.Change new t) : t.Sound := by
  cases change with
  | same => exact sound
  | created inserted known => exact sound.create inserted known
  | added inserted known =>
    obtain ⟨_, rows, _⟩ := Table.insert_eq_some inserted
    refine ⟨sound.positive, sound.parent, fun entry there => ?_⟩
    rw [rows, List.mem_append, List.mem_singleton] at there
    rcases there with stored | rfl
    · exact sound.owner entry stored
    · exact known
  | given change owners =>
    refine ⟨sound.positive, sound.parent, fun entry there => ?_⟩
    obtain ⟨old, stored, rfl⟩ := List.mem_map.1 there
    have owner := sound.owner old stored
    rw [← owners old.1 old.2] at owner
    exact owner
  | deleted id => exact sound.remove_subtree id
  | numbered change parents => exact sound.mapOperations parents

end Sound

theorem sound_after (history : List Request) : (Store.empty.after history).Sound :=
  after_induction (fun change sound => sound.change change) .empty history

/-- Following parents from the operation ends at a root. -/
inductive Rooted (s : Store) : Operation → Prop
  | root {op : Operation} : op.parent = none → Rooted s op
  | under {op parent : Operation} : parent ∈ s.allOperations → op.parent = some parent.id →
      Rooted s parent → Rooted s op

def IsParent (s : Store) (a b : Operation) : Prop :=
  a ∈ s.allOperations ∧ b ∈ s.allOperations ∧ b.parent = some a.id

namespace Sound

variable (sound : s.Sound)

include sound

theorem rooted (stored : op ∈ s.allOperations) : s.Rooted op := by
  induction size : op.id.raw.toInt.toNat using Nat.strongRecOn generalizing op with
  | ind size ih =>
    cases parent : op.parent with
    | none => exact .root parent
    | some p =>
      obtain ⟨known, less⟩ := sound.parent op stored p parent
      obtain ⟨o, here, rfl⟩ := contains_iff.1 known
      have positive := sound.positive o here
      exact .under here parent (ih _ (by omega) here rfl)

theorem less_of_ancestor {a b : Operation} (path : Relation.TransGen s.IsParent a b) :
    a.id.raw.toInt < b.id.raw.toInt := by
  induction path with
  | single edge => exact (sound.parent _ edge.2.1 _ edge.2.2).2
  | tail _ edge ih =>
    have less := (sound.parent _ edge.2.1 _ edge.2.2).2
    omega

end Sound

/-- The operations of a store form trees, and parameters belong to them. -/
structure Intact (s : Store) : Prop where
  ids : (s.allOperations.map Operation.id).Nodup
  keys : (s.parameters.rows.map Prod.fst).Nodup
  sound : s.Sound
  rooted : ∀ op ∈ s.allOperations, s.Rooted op
  acyclic : ∀ op, ¬ Relation.TransGen s.IsParent op op

theorem intact_after (history : List Request) : (Store.empty.after history).Intact := by
  have sound := sound_after history
  refine ⟨nodup_ids _, ?_, sound, fun op stored => sound.rooted stored, fun op path => ?_⟩
  · apply List.pairwise_map.2
    apply (Store.empty.after history).parameters.ascending.imp
    intro a b less same
    rw [same] at less
    omega
  · have less := sound.less_of_ancestor path
    omega

end OpTree.Store
