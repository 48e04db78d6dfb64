import OpTree.Proofs.Removal
import OpTree.Proofs.Observations

set_option autoImplicit false

namespace OpTree

inductive Store.Dead (s : Store) (d : Operation) : Prop
  /-- A sibling that comes before it is a `return`. An `else` there still runs for its `if`. -/
  | unreachable (r : Operation) : d.opcode ≠ .otherwise → r ∈ s.allOperations →
      r.parent = d.parent → r.opcode = .giveBack → r.precedes d → Dead s d
  | root : d.opcode = .otherwise → d.parent = none → Dead s d
  | astray (p : Operation) : d.opcode = .otherwise → p ∈ s.allOperations →
      d.parent = some p.id → p.opcode ≠ .conditional → Dead s d
  | second (o : Operation) : d.opcode = .otherwise → o ∈ s.allOperations →
      o.parent = d.parent → o.opcode = .otherwise → o.precedes d → Dead s d
  | idle : d.opcode = .breakLoop ∨ d.opcode = .continueLoop ∨ (∃ tag, d.opcode = .unknown tag) →
      Dead s d
  | unheld (p : Operation) : p ∈ s.allOperations → d.parent = some p.id →
      ¬ p.opcode.holdsBlock → Dead s d

namespace Store.Dead

variable {s : Store} {d a : Operation}

/-- Dead code does nothing in its block or stands behind a `return`, if the block ever runs. -/
theorem idle_or_behind (dead : s.Dead d)
    (held : ∀ p ∈ s.allOperations, d.parent = some p.id → p.opcode.holdsBlock) :
    d.opcode.isIdle ∨ ∃ r ∈ s.children d.parent, r.opcode = .giveBack ∧ r.precedes d := by
  cases dead with
  | unreachable r _ stored under back before =>
    exact .inr ⟨r, mem_children.2 ⟨stored, under⟩, back, before⟩
  | root tag _ => exact .inl (by rw [tag]; rfl)
  | astray _ tag _ _ _ => exact .inl (by rw [tag]; rfl)
  | second _ tag _ _ _ _ => exact .inl (by rw [tag]; rfl)
  | idle tag =>
    rcases tag with tag | tag | ⟨_, tag⟩ <;> exact .inl (by rw [tag]; rfl)
  | unheld p stored under silent => exact absurd (held p stored under) silent

theorem second_of_conditional (dead : s.Dead d) (tag : d.opcode = .otherwise)
    (stored : a ∈ s.allOperations) (under : d.parent = some a.id)
    (opcode : a.opcode = .conditional) :
    ∃ o ∈ s.children d.parent, o.opcode = .otherwise ∧ o.precedes d := by
  cases dead with
  | unreachable _ other => exact absurd tag other
  | root _ none => simp [none] at under
  | astray p _ known parent other =>
    have same : p.id = a.id := Option.some.inj (parent.symm.trans under)
    rw [eq_of_id_eq known stored same] at other
    exact absurd opcode other
  | second o _ known sibling first before =>
    exact ⟨o, mem_children.2 ⟨known, sibling⟩, first, before⟩
  | idle other => simp [tag] at other
  | unheld p known parent silent =>
    have same : p.id = a.id := Option.some.inj (parent.symm.trans under)
    rw [eq_of_id_eq known stored same, opcode] at silent
    exact absurd rfl silent

variable (dead : s.Dead d) (stored : d ∈ s.allOperations)

include dead stored

theorem aligned {parent : Option OpId} (outside : ∀ p, parent = some p → p ∉ s.subtree d.id)
    (held : ∀ p ∈ s.allOperations, parent = some p.id → p.opcode.holdsBlock) :
    Aligned (fun a b => a ∈ (s.remove (s.subtree d.id)).allOperations ∧ b = a) 1
      (s.children parent) ((s.remove (s.subtree d.id)).children parent) := by
  have stays : ∀ op ∈ (s.remove (s.subtree d.id)).children parent,
      op ∈ (s.remove (s.subtree d.id)).allOperations ∧ op = op :=
    fun op child => ⟨(mem_children.1 child).1, rfl⟩
  by_cases here : d.parent = parent
  · obtain ⟨before, after, split, left⟩ := children_remove_subtree_split outside stored here
    rw [left] at stays
    rw [split, left]
    have first : ∀ op ∈ before, _ := fun op inside => stays op (List.mem_append_left after inside)
    subst here
    rcases dead.idle_or_behind held with idle | ⟨r, child, back, earlier⟩
    · refine .append first (.left idle (.refl fun op inside => ?_))
      exact stays op (List.mem_append_right before inside)
    · -- Both runs stop at the `return`, before they come to where they differ.
      obtain ⟨front, rear, rfl⟩ := List.append_of_mem (mem_before split child earlier)
      simp only [List.append_assoc, List.cons_append]
      refine .append (fun op inside => first op (List.mem_append_left _ inside)) ?_
      exact .stop _ _ (first r (List.mem_append_right front List.mem_cons_self)) back
  · rw [children_remove_subtree outside stored here] at stays ⊢
    exact .refl stays

theorem firstChild_eq (inside : a ∈ s.allOperations) (kept : a.id ∉ s.subtree d.id)
    (opcode : a.opcode = .conditional) :
    (s.remove (s.subtree d.id)).firstChild? a.id .otherwise = s.firstChild? a.id .otherwise := by
  have outside : ∀ p, some a.id = some p → p ∉ s.subtree d.id := by
    rintro p ⟨⟩
    exact kept
  unfold firstChild?
  by_cases here : d.parent = some a.id
  · obtain ⟨before, after, split, left⟩ := children_remove_subtree_split outside stored here
    rw [split, left, List.find?_append, List.find?_append]
    by_cases tag : d.opcode = .otherwise
    · -- The `else` that comes first is in front of the deleted one, so the search ends there.
      obtain ⟨o, child, other, earlier⟩ := dead.second_of_conditional tag inside here opcode
      rw [here] at child
      have first : (before.find? fun op => op.opcode.tag == Opcode.otherwise.tag).isSome := by
        rw [List.find?_isSome]
        exact ⟨o, mem_before split child earlier, by simp [other]⟩
      rw [Option.or_of_isSome first, Option.or_of_isSome first]
    · have skipped : ¬ (d.opcode.tag == Opcode.otherwise.tag) = true := by
        intro same
        have tags : d.opcode.tag = Opcode.otherwise.tag := by simpa using same
        rw [← ofTag_opcode stored, tags] at tag
        exact tag (by decide)
      rw [List.find?_cons_of_neg (a := d) (l := after) skipped]
  · rw [children_remove_subtree outside stored here]

def correspondence : Correspondence 1 s (s.remove (s.subtree d.id)) where
  Op a b := a ∈ (s.remove (s.subtree d.id)).allOperations ∧ b = a
  opcode := by
    rintro a b ⟨_, rfl⟩
    rfl
  parameters := by
    rintro a b ⟨left, rfl⟩
    exact parametersOf_remove (mem_allOperations_remove.1 left).2
  oneToOne := by
    rintro a b a' b' ⟨_, rfl⟩ ⟨_, rfl⟩
    rfl
  roots := dead.aligned stored nofun nofun
  inner := by
    rintro a b ⟨left, rfl⟩ holds
    obtain ⟨inside, kept⟩ := mem_allOperations_remove.1 left
    refine dead.aligned stored ?_ fun p known same => ?_
    · rintro p ⟨⟩
      exact kept
    · rwa [eq_of_id_eq known inside (Option.some.inj same).symm]
  otherwise := by
    rintro a b ⟨left, rfl⟩ opcode
    obtain ⟨inside, kept⟩ := mem_allOperations_remove.1 left
    have known : Opcode.ofTag Opcode.otherwise.tag = .otherwise := by decide
    have stays : ∀ o, (s.remove (s.subtree d.id)).firstChild? b.id .otherwise = some o →
        o ∈ (s.remove (s.subtree d.id)).allOperations :=
      fun o found => (mem_children.1 (firstChild?_some known found).1).1
    rw [← dead.firstChild_eq stored inside kept opcode]
    generalize (s.remove (s.subtree d.id)).firstChild? b.id .otherwise = child at stays
    cases child with
    | none => exact .none
    | some o => exact .some ⟨stays o rfl, rfl⟩

/-- Deleting dead code succeeds, and whether the program ends and what is seen of it stays. -/
theorem shows_delete : ∃ count left, s.delete d.id = .ok (count, left) ∧
    ∀ {mode : Mode} {returns : Returns} {limit : Option Nat} {sink : Option Sink}
      {seen : Observation},
      (Interpreter.fresh left mode returns limit sink).Shows seen ↔
        (Interpreter.fresh s mode returns limit sink).Shows seen := by
  refine ⟨(s.subtree d.id).length, s.remove (s.subtree d.id), delete_of_mem stored, ?_⟩
  intro mode returns limit sink seen
  have same : ∀ {a b : Operation}, (dead.correspondence stored).Op a b → a = b :=
    fun ab => ab.2.symm
  constructor
  · intro shown
    obtain ⟨r, original, both⟩ :=
      ((dead.correspondence stored).flip Nat.zero_lt_one).shows_matched shown
    rwa [← Correspondence.observed_eq _ same (.of_flip both)]
  · intro shown
    obtain ⟨r, image, both⟩ := (dead.correspondence stored).shows_matched shown
    rwa [Correspondence.observed_eq _ same both]

end Store.Dead

def Store.abandoned : Store where
  operations := (Table.ofRows? [(1, ⟨"return", none, 1⟩), (2, ⟨"function", none, 2⟩),
    (3, ⟨"print", some ⟨2⟩, 1⟩)] 3).getD .empty
  parameters := (Table.ofRows? [(1, ⟨⟨2⟩, "name", some "f"⟩)] 1).getD .empty

theorem Store.Dead.shows_delete_function :
    let d : Operation := ⟨⟨2⟩, .function, none, 2⟩
    Store.abandoned.Dead d ∧ d ∈ Store.abandoned.allOperations ∧
      ∃ count left, Store.abandoned.delete d.id = .ok (count, left) ∧
        (Interpreter.fresh left .testRun .unwind (some 3) none).Shows
          ⟨.ok none, [], fun _ => none⟩ := by
  intro d
  have stored : d ∈ Store.abandoned.allOperations := by decide
  have dead : Store.abandoned.Dead d :=
    .unreachable ⟨⟨1⟩, .giveBack, none, 1⟩ nofun (by decide) rfl rfl (by decide)
  have shown : (Interpreter.fresh .abandoned .testRun .unwind (some 3) none).Shows
      ⟨.ok none, [], fun _ => none⟩ := ⟨1, by decide, by decide, rfl⟩
  obtain ⟨count, left, deleted, same⟩ := dead.shows_delete stored
  exact ⟨dead, stored, count, left, deleted, same.2 shown⟩

end OpTree
