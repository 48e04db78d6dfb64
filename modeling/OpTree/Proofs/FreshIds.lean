import OpTree.Proofs.Integrity

set_option autoImplicit false

namespace OpTree.Store

variable {s t : Store} {new : Option OpId} {id i : OpId}

def createdIds (s : Store) (history : List Request) : List OpId :=
  (s.answers history).filterMap Answer.created?

theorem last_le_of_change (change : s.Change new t) :
    s.operations.last.toInt ≤ t.operations.last.toInt := by
  cases change with
  | created inserted known =>
    obtain ⟨next, _, last⟩ := Table.insert_eq_some inserted
    simp only [last]
    omega
  | _ => exact Int.le_refl _

theorem created_bounds (change : s.Change (some id) t) :
    s.operations.last.toInt < id.raw.toInt ∧ id.raw.toInt ≤ t.operations.last.toInt := by
  cases change with
  | created inserted known =>
    obtain ⟨next, _, last⟩ := Table.insert_eq_some inserted
    simp only [last]
    omega

theorem createdIds_ascending (s : Store) (history : List Request) :
    (∀ id ∈ s.createdIds history, s.operations.last.toInt < id.raw.toInt) ∧
      (s.createdIds history).Pairwise fun i j => i.raw.toInt < j.raw.toInt := by
  -- The bound carries the induction: what the rest creates is above what comes first.
  induction history generalizing s with
  | nil => exact ⟨nofun, .nil⟩
  | cons request rest ih =>
    have change := s.change_serve request
    have grows := last_le_of_change change
    obtain ⟨above, ascending⟩ := ih (s.serve request).2
    unfold createdIds at above ascending ⊢
    rw [answers]
    cases new : (s.serve request).1.created? with
    | none =>
      rw [List.filterMap_cons_none new]
      refine ⟨fun id there => ?_, ascending⟩
      have later := above id there
      omega
    | some first =>
      rw [new] at change
      obtain ⟨fresh, last⟩ := created_bounds change
      rw [List.filterMap_cons_some new]
      refine ⟨fun id there => ?_, List.pairwise_cons.2 ⟨fun id there => ?_, ascending⟩⟩
      · rcases List.mem_cons.1 there with rfl | there
        · exact fresh
        · have later := above id there
          omega
      · have later := above id there
        omega

theorem contains_of_change (change : s.Change new t) (there : t.contains id) :
    s.contains id ∨ new = some id := by
  cases change with
  | same => exact .inl there
  | created inserted known =>
    obtain ⟨op, stored, rfl⟩ := contains_iff.1 there
    rw [allOperations_insert inserted, List.mem_append, List.mem_singleton] at stored
    rcases stored with stored | rfl
    · exact .inl (contains_of_mem stored)
    · exact .inr rfl
  | added inserted known => exact .inl there
  | given change owners => exact .inl there
  | deleted top =>
    obtain ⟨op, stored, rfl⟩ := contains_iff.1 there
    exact .inl (contains_of_mem (mem_allOperations_remove.1 stored).1)
  | numbered change parents =>
    obtain ⟨op, stored, rfl⟩ := contains_iff.1 there
    obtain ⟨o, here, same, _⟩ := exists_of_mapOperations parents stored
    rw [← same]
    exact .inl (contains_of_mem here)

/-- The identifier has been used, and no operation has it any more. -/
structure Gone (s : Store) (i : OpId) : Prop where
  absent : ¬ s.contains i
  used : i.raw.toInt ≤ s.operations.last.toInt

theorem Gone.change (gone : s.Gone i) (change : s.Change new t) : t.Gone i := by
  refine ⟨fun there => ?_, Int.le_trans gone.used (last_le_of_change change)⟩
  rcases contains_of_change change there with before | rfl
  · exact gone.absent before
  · have fresh := (created_bounds change).1
    have used := gone.used
    omega

section Absent

variable (sound : s.Sound) (absent : ¬ s.contains i)

include absent

theorem operation?_of_absent : s.operation? i = none := by
  cases found : s.operation? i with
  | none => rfl
  | some op =>
    obtain ⟨stored, rfl⟩ := operation?_eq_some.1 found
    exact absurd (contains_of_mem stored) absent

theorem require_of_absent : s.require i = .error (.noSuchOperation i) := by
  rw [require, if_neg absent]

include sound

theorem children_of_absent : s.children (some i) = [] := by
  apply List.eq_nil_iff_forall_not_mem.2
  intro op child
  obtain ⟨stored, under⟩ := mem_children.1 child
  exact absent (sound.parent op stored i under).1

theorem parametersOf_of_absent : s.parametersOf i = .empty := by
  have rows : s.parameterRows i = [] := by
    rw [parameterRows, List.map_eq_nil_iff, List.filter_eq_nil_iff]
    intro entry there owner
    have known := sound.owner entry there
    rw [beq_iff_eq.1 owner] at known
    exact absent known
  rw [parametersOf, rows]
  rfl

theorem nextSequence_of_absent : s.nextSequence (some i) = .ok 1 := by
  have none : s.greatestSequence (some i) = none := by
    apply List.foldlRecOn (motive := fun greatest => greatest = none) s.operations.rows _ rfl
    intro greatest start entry there
    have other : entry.2.parent ≠ some i := by
      intro under
      exact absent (sound.parent _ (List.mem_map_of_mem there) i under).1
    rw [if_neg (by simpa using other), start]
  rw [nextSequence, none]

theorem attempt_of_absent {request : Request} (target : request.target? = some i) :
    s.attempt request = .error (.noSuchOperation i) := by
  have refused := require_of_absent absent
  have uncreated : ∀ opcode sequence,
      s.create opcode (some i) sequence = .error (.noSuchOperation i) := by
    intro opcode sequence
    rw [create, requireParent, refused]
    rfl
  cases request with
  | create opcode parent sequence =>
    cases target
    rw [attempt, uncreated]
    rfl
  | append opcode parent =>
    cases target
    -- The place is found before the parent is looked up, so finding it must not fail.
    have next := nextSequence_of_absent sound absent
    rw [attempt, append, next]
    change (s.create opcode (some i) 1).map _ = _
    rw [uncreated]
    rfl
  | setParameter owner key value =>
    cases target
    rw [attempt, setParameter, refused]
    rfl
  | addParameter owner key value =>
    cases target
    rw [attempt, addParameter, refused]
    rfl
  | delete id =>
    cases target
    rw [attempt, delete, refused]
    rfl
  | resequence parent =>
    cases target
    rw [attempt, resequence, requireParent, refused]
    rfl
  | reopen => cases target

theorem serve_of_absent {request : Request} (target : request.target? = some i) :
    s.serve request = (.failed (.noSuchOperation i), s) := by
  rw [serve, attempt_of_absent sound absent target]

end Absent

theorem gone_of_delete (before : List Request) (d i : OpId)
    (there : (Store.empty.after before).contains i)
    (left : ¬ (Store.empty.after (before ++ [.delete d])).contains i) :
    (Store.empty.after (before ++ [.delete d])).Gone i := by
  obtain ⟨op, stored, rfl⟩ := contains_iff.1 there
  refine ⟨left, Int.le_trans (le_last stored) ?_⟩
  rw [after_append]
  exact last_le_of_change (change_serve _ (.delete d))

/-- New identifiers ascend over a whole history, so nothing that was deleted is ever found again,
nor is anything that belongs to it. -/
theorem fresh_identifiers :
    (∀ history : List Request,
      (Store.empty.createdIds history).Pairwise fun i j => i.raw.toInt < j.raw.toInt) ∧
    ∀ (before later : List Request) (d i : OpId), (Store.empty.after before).contains i →
      ¬ (Store.empty.after (before ++ [.delete d])).contains i →
        let s := Store.empty.after (before ++ .delete d :: later)
        s.operation? i = none ∧ s.parametersOf i = .empty ∧ s.children (some i) = [] ∧
          ∀ request : Request, request.target? = some i →
            s.serve request = (.failed (.noSuchOperation i), s) := by
  refine ⟨fun history => (createdIds_ascending .empty history).2, ?_⟩
  intro before later d i there left s
  have sound : s.Sound := sound_after _
  have gone : s.Gone i := by
    have start := gone_of_delete before d i there left
    have kept := after_induction (fun change gone => Gone.change gone change) start later
    rw [← after_append, List.append_assoc] at kept
    exact kept
  refine ⟨operation?_of_absent gone.absent, parametersOf_of_absent sound gone.absent,
    children_of_absent sound gone.absent, fun request target => ?_⟩
  exact serve_of_absent sound gone.absent target

/-- An operation goes with the one above it, and does not come back in the file. -/
theorem fresh_identifiers_child :
    let before : List Request := [.append .function none, .append .print (some ⟨1⟩)]
    let later : List Request := [.append .print none, .reopen]
    let s := Store.empty.after (before ++ .delete ⟨1⟩ :: later)
    (Store.empty.after before).contains ⟨2⟩ ∧
      ¬ (Store.empty.after (before ++ [.delete ⟨1⟩])).contains ⟨2⟩ ∧
      Store.empty.createdIds (before ++ [.delete ⟨1⟩, .append .print none]) = [⟨1⟩, ⟨2⟩, ⟨3⟩] ∧
      s.operation? ⟨2⟩ = none ∧
      s.serve (.append .print (some ⟨2⟩)) = (.failed (.noSuchOperation ⟨2⟩), s) := by
  intro before later s
  have there : (Store.empty.after before).contains ⟨2⟩ := by decide
  have left : ¬ (Store.empty.after (before ++ [.delete ⟨1⟩])).contains ⟨2⟩ := by decide
  obtain ⟨absent, _, _, refused⟩ := fresh_identifiers.2 before later ⟨1⟩ ⟨2⟩ there left
  exact ⟨there, left, by decide, absent, refused _ rfl⟩

end OpTree.Store
