import OpTree.Proofs.ScopeChains

set_option autoImplicit false

namespace OpTree

namespace Scopes

/-- The move binds nothing and releases nothing in a slot before this one. A scope may be opened
anywhere, as that changes no other one. -/
def Move.KeepsBelow (slot : Slot) : Move → Prop
  | child _ => True
  | bind other _ _ => slot ≤ other
  | release first => slot ≤ first

variable {s t : Scopes} {slot parent : Slot} {name : String}

theorem KeptIn.move (kept : s.KeptIn t) {m : Move} (live : m.slot < t.depth)
    (above : m.KeepsBelow s.depth) : s.KeptIn (t.move m) := by
  obtain ⟨depth, same⟩ := kept
  cases m with
  | child parent =>
    have opened : t.KeptIn (t.openChild parent) := .openChild
    refine ⟨Nat.le_trans depth opened.depth, fun i there => ?_⟩
    exact (opened.same i (Nat.lt_of_lt_of_le there depth)).trans (same i there)
  | bind slot name value =>
    have below : s.depth ≤ slot := above
    refine ⟨?_, fun i there => ?_⟩
    · change s.depth ≤ (t.bind slot name value).depth
      rwa [depth_bind]
    · change (t.bind slot name value).slots[i]? = _
      rw [slots_bind, if_neg (Nat.ne_of_lt (Nat.lt_of_lt_of_le there below)), same i there]
  | release slot =>
    have below : s.depth ≤ slot := above
    refine ⟨?_, fun i there => ?_⟩
    · have left : (t.release slot).depth = if slot = root then t.depth else slot :=
        depth_release live
      change s.depth ≤ (t.release slot).depth
      rw [left]
      split
      · exact depth
      · exact below
    · change (t.release slot).slots[i]? = _
      rw [slots_release, if_neg fun gone => Nat.not_le_of_lt there (Nat.le_trans below gone.2),
        same i there]

theorem KeptIn.after (kept : s.KeptIn t) {moves : List Move} (permitted : t.Permits moves)
    (above : ∀ m ∈ moves, m.KeepsBelow s.depth) : s.KeptIn (t.after moves) := by
  induction moves generalizing t with
  | nil => exact kept
  | cons m rest ih =>
    obtain ⟨first, others⟩ := List.forall_mem_cons.1 above
    exact ih (kept.move permitted.1 first) permitted.2 others

/-- A value that is seen was bound in a scope of the chain, and neither was the scope released nor
the name bound in it again since. -/
theorem bound_of_lookup {moves : List Move} (permitted : initial.Permits moves) {chain : List Slot}
    (whole : (initial.after moves).IsChain slot chain) {value : Value}
    (seen : (initial.after moves).lookup slot name = some value) :
    ∃ i ∈ chain, ∃ before later, moves = before ++ .bind i name value :: later ∧
      ∀ m ∈ later, ¬ m.Removes i name := by
  rw [lookup_of_chain (isTree_after permitted).wellFormed whole] at seen
  obtain ⟨i, there, bound⟩ := List.exists_of_findSome?_eq_some seen
  rcases (own?_after permitted).1 bound with since | ⟨-, first⟩
  · exact ⟨i, there, since⟩
  · rw [own?_initial] at first
    cases first

/-- A scope and all that was opened since leave no trace once it is released, whatever was done in
them and however often slots were released and taken again: the scopes are those from before it was
opened. A scope that takes over a slot binds nothing, and what is seen from a scope was bound in one
that has been there since. -/
theorem release_leaves_no_trace {moves : List Move} (permitted : initial.Permits moves) :
    let s := initial.after moves
    (∀ parent, parent < s.depth → ∀ inside, (s.openChild parent).Permits inside →
      (∀ m ∈ inside, m.KeepsBelow s.depth) →
        ((s.openChild parent).after inside).release s.depth = s) ∧
    (∀ parent, (s.openChild parent).slots[s.depth]? =
      some { parent := some parent, bindings := [] }) ∧
    (∀ slot, slot < s.depth → ∃ chain, s.IsChain slot chain ∧ ∀ name value,
      s.lookup slot name = some value → ∃ i ∈ chain, i < s.depth ∧ ∃ before later,
        moves = before ++ .bind i name value :: later ∧ ∀ m ∈ later, ¬ m.Removes i name) := by
  intro s
  have tree : s.IsTree := isTree_after permitted
  refine ⟨fun parent _ inside within above => ?_, fun parent => ?_, fun slot live => ?_⟩
  · exact (KeptIn.openChild.after within above).release tree.live
  · rw [slots_openChild, if_pos rfl]
  · obtain ⟨chain, whole⟩ := tree.exists_chain live
    refine ⟨chain, whole, fun name value seen => ?_⟩
    obtain ⟨i, there, since⟩ := bound_of_lookup permitted whole seen
    exact ⟨i, there, whole.live i there, since⟩

/-- A scope is opened in the root under a newer one, then scopes inside and beside it; its slot is
released, taken again and bound in. -/
theorem release_leaves_no_trace_reused :
    let moves : List Move := [.bind 0 "x" (.int 1), .child 0]
    let inside : List Move := [.bind 2 "x" (.int 2), .child 1, .child 2, .bind 4 "y" (.int 3),
      .release 3, .release 2, .child 1, .bind 2 "z" (.int 4), .child 0]
    let s := initial.after moves
    initial.Permits moves ∧ (s.openChild 0).Permits inside ∧
      ((s.openChild 0).after inside).lookup 2 "x" = some (.int 1) ∧
      ((s.openChild 0).after inside).release 2 = s ∧ (s.openChild 0).lookup 2 "y" = none := by
  intro moves inside s
  have permitted : initial.Permits moves := by decide
  have within : (s.openChild 0).Permits inside := by decide
  obtain ⟨restored, -, -⟩ := release_leaves_no_trace permitted
  have above : ∀ m ∈ inside, m.KeepsBelow s.depth := by
    simp [inside, Move.KeepsBelow, s, moves, after, move, initial, depth, bind, openChild]
  exact ⟨permitted, within, by decide, restored 0 (by decide) inside within above, by decide⟩

end Scopes

end OpTree
