import OpTree.Proofs.Integrity

set_option autoImplicit false

namespace OpTree.Store

open Relation

variable {s : Store} {ids : List OpId} {id : OpId} {a b d op : Operation} {n m : Nat}

/-- No operation is above itself. -/
def Acyclic (s : Store) : Prop :=
  ∀ op, ¬ TransGen s.IsParent op op

theorem acyclic_of_rank (rank : Operation → Nat)
    (less : ∀ a b, s.IsParent a b → rank a < rank b) : s.Acyclic := by
  have climbs : ∀ {a b}, TransGen s.IsParent a b → rank a < rank b := by
    intro a b path
    induction path with
    | single edge => exact less _ _ edge
    | tail _ edge ih => exact Nat.lt_trans ih (less _ _ edge)
  exact fun op path => Nat.lt_irrefl _ (climbs path)

theorem isParent_of_child (stored : d ∈ s.allOperations) (child : op ∈ s.children (some d.id)) :
    s.IsParent d op := by
  obtain ⟨known, under⟩ := mem_children.1 child
  exact ⟨stored, known, under⟩

theorem stored_of_child {parent : Option OpId} (child : op ∈ s.children parent) :
    op ∈ s.allOperations :=
  (mem_children.1 child).1

theorem stored_of_reaches (stored : d ∈ s.allOperations) (path : ReflTransGen s.IsParent d op) :
    op ∈ s.allOperations := by
  rcases path.cases_tail with rfl | ⟨_, _, edge⟩
  · exact stored
  · exact edge.2.1

theorem Sound.acyclic (sound : s.Sound) : s.Acyclic :=
  fun _ path => Int.lt_irrefl _ (sound.less_of_ancestor path)

theorem IsParent.of_remove (edge : (s.remove ids).IsParent a b) : s.IsParent a b :=
  ⟨(mem_allOperations_remove.1 edge.1).1, (mem_allOperations_remove.1 edge.2.1).1, edge.2.2⟩

theorem IsParent.unique (left : s.IsParent a op) (right : s.IsParent b op) : a = b := by
  have same : some a.id = some b.id := left.2.2.symm.trans right.2.2
  exact eq_of_id_eq left.1 right.1 (Option.some.inj same)

theorem Acyclic.remove (acyclic : s.Acyclic) (ids : List OpId) : (s.remove ids).Acyclic :=
  fun op path => acyclic op (TransGen.mono (fun _ _ edge => edge.of_remove) _ _ path)

/-- No chain of children below an operation is longer than `n`. -/
def DepthAtMost (s : Store) : Nat → Operation → Prop
  | 0, d => s.children (some d.id) = []
  | n + 1, d => ∀ child ∈ s.children (some d.id), s.DepthAtMost n child

section Depth

theorem DepthAtMost.step (depth : s.DepthAtMost n d) : s.DepthAtMost (n + 1) d := by
  induction n generalizing d with
  | zero =>
    intro child there
    rw [depth] at there
    cases there
  | succ n ih => exact fun child there => ih (depth child there)

theorem DepthAtMost.le (depth : s.DepthAtMost n d) (less : n ≤ m) : s.DepthAtMost m d := by
  induction less with
  | refl => exact depth
  | step _ ih => exact ih.step

theorem DepthAtMost.child (depth : s.DepthAtMost n d) (edge : s.IsParent d op) :
    ∃ m < n, s.DepthAtMost m op := by
  have there : op ∈ s.children (some d.id) := mem_children.2 edge.2
  cases n with
  | zero =>
    rw [show s.children (some d.id) = [] from depth] at there
    cases there
  | succ n => exact ⟨n, n.lt_succ_self, depth op there⟩

theorem DepthAtMost.below (depth : s.DepthAtMost n d) (path : TransGen s.IsParent d op) :
    ∃ m < n, s.DepthAtMost m op := by
  induction path with
  | single edge => exact depth.child edge
  | tail _ edge ih =>
    obtain ⟨m, less, depth⟩ := ih
    obtain ⟨m', less', depth'⟩ := depth.child edge
    exact ⟨m', Nat.lt_trans less' less, depth'⟩

theorem DepthAtMost.remove (depth : s.DepthAtMost n d) (ids : List OpId) :
    (s.remove ids).DepthAtMost n d := by
  induction n generalizing d with
  | zero =>
    rw [DepthAtMost] at depth ⊢
    rw [children_remove, depth, List.filter_nil]
  | succ n ih =>
    intro child there
    rw [children_remove] at there
    exact ih (depth child (List.mem_of_mem_filter there))

open Classical in
/-- The number of operations below. -/
noncomputable def countBelow (s : Store) (d : Operation) : Nat :=
  (s.allOperations.filter fun op => decide (TransGen s.IsParent d op)).length

theorem countBelow_le (s : Store) (d : Operation) : s.countBelow d ≤ s.operations.size := by
  have some := List.length_filter_le (fun op => @decide (TransGen s.IsParent d op)
    (Classical.propDecidable _)) s.allOperations
  rwa [allOperations, List.length_map] at some

theorem countBelow_lt (acyclic : s.Acyclic) (edge : s.IsParent d op) :
    s.countBelow op < s.countBelow d := by
  classical
  have within : s.allOperations.filter (fun o => decide (TransGen s.IsParent op o)) =
      (s.allOperations.filter fun o => decide (TransGen s.IsParent d o)).filter
        fun o => decide (TransGen s.IsParent op o) := by
    rw [List.filter_filter]
    refine List.filter_congr fun o _ => ?_
    by_cases below : TransGen s.IsParent op o
    · simp [below, TransGen.head edge below]
    · simp [below]
  unfold countBelow
  rw [within, List.length_filter_lt_length_iff_exists]
  refine ⟨op, List.mem_filter.2 ⟨edge.2.1, ?_⟩, ?_⟩
  · simpa using TransGen.single edge
  · simpa using acyclic op

theorem depthAtMost_of_count (acyclic : s.Acyclic) (stored : d ∈ s.allOperations)
    (enough : s.countBelow d ≤ n) : s.DepthAtMost n d := by
  induction n generalizing d with
  | zero =>
    apply List.eq_nil_iff_forall_not_mem.2
    intro child there
    have fewer := countBelow_lt acyclic (isParent_of_child stored there)
    omega
  | succ n ih =>
    intro child there
    have edge := isParent_of_child stored there
    have fewer := countBelow_lt acyclic edge
    exact ih edge.2.1 (by omega)

theorem depthAtMost_size (acyclic : s.Acyclic) (stored : d ∈ s.allOperations) :
    s.DepthAtMost s.operations.size d :=
  depthAtMost_of_count acyclic stored (countBelow_le s d)

theorem DepthAtMost.subtreeTo_succ (depth : s.DepthAtMost n d) :
    s.subtreeTo (n + 1) d.id = s.subtreeTo n d.id := by
  induction n generalizing d with
  | zero => simp [subtreeTo, show s.children (some d.id) = [] from depth]
  | succ n ih =>
    have deeper := List.flatMap_congr fun child there => ih (depth child there)
    exact congrArg (d.id :: ·) deeper

/-- Fuel beyond the depth adds nothing. -/
theorem DepthAtMost.subtreeTo_eq (depth : s.DepthAtMost n d) (less : n ≤ m) :
    s.subtreeTo m d.id = s.subtreeTo n d.id := by
  induction less with
  | refl => rfl
  | step less ih => exact (depth.le less).subtreeTo_succ.trans ih

end Depth

section Siblings

theorem reaches_of_mem_subtreeTo (stored : d ∈ s.allOperations) (inside : id ∈ s.subtreeTo n d.id) :
    ∃ op ∈ s.allOperations, op.id = id ∧ ReflTransGen s.IsParent d op := by
  induction n generalizing d with
  | zero => exact ⟨d, stored, (List.mem_singleton.1 inside).symm, .refl⟩
  | succ n ih =>
    rcases List.mem_cons.1 inside with rfl | inside
    · exact ⟨d, stored, rfl, .refl⟩
    · obtain ⟨child, there, within⟩ := List.mem_flatMap.1 inside
      have edge := isParent_of_child stored there
      obtain ⟨op, known, same, path⟩ := ih edge.2.1 within
      exact ⟨op, known, same, .head edge path⟩

/-- Of two operations under one parent, none is below the other. -/
theorem Acyclic.eq_of_reaches (acyclic : s.Acyclic) (stored : a ∈ s.allOperations)
    (same : a.parent = b.parent) (path : ReflTransGen s.IsParent a b) : a = b := by
  rcases path.cases_tail with equal | ⟨last, before, edge⟩
  · exact equal.symm
  · -- The last step comes from the common parent, which then is below its own child.
    have above : s.IsParent last a := ⟨edge.1, stored, same.trans edge.2.2⟩
    exact absurd (TransGen.head' above before) (acyclic last)

/-- An operation is below one of several siblings at most. -/
theorem Acyclic.eq_of_common (acyclic : s.Acyclic) (left : a ∈ s.allOperations)
    (right : b ∈ s.allOperations) (same : a.parent = b.parent)
    (fromLeft : ReflTransGen s.IsParent a op) (fromRight : ReflTransGen s.IsParent b op) :
    a = b := by
  -- Upwards from the operation there is one way, so one of the two is on the way to the other.
  have oneWay : Relator.RightUnique (Function.swap s.IsParent) :=
    fun _ _ _ first second => first.unique second
  rcases ReflTransGen.total_of_right_unique oneWay (reflTransGen_swap.2 fromLeft)
    (reflTransGen_swap.2 fromRight) with path | path
  · exact (acyclic.eq_of_reaches right same.symm (reflTransGen_swap.1 path)).symm
  · exact acyclic.eq_of_reaches left same (reflTransGen_swap.1 path)

theorem Acyclic.apart (acyclic : s.Acyclic) (left : a ∈ s.allOperations)
    (right : b ∈ s.allOperations) (same : a.parent = b.parent) (distinct : a ≠ b)
    (inside : id ∈ s.subtreeTo n a.id) : id ∉ s.subtreeTo m b.id := by
  intro other
  obtain ⟨op, stored, rfl, fromLeft⟩ := reaches_of_mem_subtreeTo left inside
  obtain ⟨o, known, equal, fromRight⟩ := reaches_of_mem_subtreeTo right other
  rw [eq_of_id_eq known stored equal] at fromRight
  exact distinct (acyclic.eq_of_common left right same fromLeft fromRight)

theorem subtreeTo_remove (kept : ∀ id ∈ s.subtreeTo n d.id, id ∉ ids) :
    (s.remove ids).subtreeTo n d.id = s.subtreeTo n d.id := by
  induction n generalizing d with
  | zero => rfl
  | succ n ih =>
    have below : ∀ child ∈ s.children (some d.id), ∀ id ∈ s.subtreeTo n child.id, id ∉ ids :=
      fun child there id inside =>
        kept id (List.mem_cons_of_mem _ (List.mem_flatMap.2 ⟨child, there, inside⟩))
    have all : (s.remove ids).children (some d.id) = s.children (some d.id) := by
      rw [children_remove, List.filter_eq_self]
      intro child there
      simpa using below child there child.id (mem_subtreeTo n child.id)
    rw [subtreeTo, subtreeTo, all]
    exact congrArg (d.id :: ·) (List.flatMap_congr fun child there => ih (below child there))

end Siblings

end OpTree.Store
