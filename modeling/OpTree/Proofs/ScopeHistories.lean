import OpTree.Proofs.Scopes

set_option autoImplicit false

namespace OpTree

namespace Scopes

inductive Move where
  | child (parent : Slot)
  | bind (slot : Slot) (name : String) (value : Value)
  | release (slot : Slot)
  deriving DecidableEq, Repr

def Move.slot : Move → Slot
  | child parent => parent
  | bind slot _ _ => slot
  | release slot => slot

/-- After such a move a scope does not bind the name to what it did: the scope is released, or the
name is bound in it again. -/
def Move.Removes (slot : Slot) (name : String) : Move → Prop
  | child _ => False
  | bind other again _ => other = slot ∧ again = name
  | release first => first ≠ root ∧ first ≤ slot

def move (s : Scopes) : Move → Scopes
  | .child parent => s.openChild parent
  | .bind slot name value => s.bind slot name value
  | .release slot => s.release slot

def after (s : Scopes) (moves : List Move) : Scopes :=
  moves.foldl move s

def Permits (s : Scopes) : List Move → Prop
  | [] => True
  | m :: rest => m.slot < s.depth ∧ (s.move m).Permits rest

instance decidablePermits (s : Scopes) : (moves : List Move) → Decidable (s.Permits moves)
  | [] => .isTrue trivial
  | m :: rest =>
    have := decidablePermits (s.move m) rest
    inferInstanceAs (Decidable (m.slot < s.depth ∧ (s.move m).Permits rest))

variable {s : Scopes} {slot parent i : Slot} {name : String}

theorem depth_release (live : slot < s.depth) :
    (s.release slot).depth = if slot = root then s.depth else slot := by
  unfold release
  split
  · rfl
  · simp only [depth, Array.size_shrink]
    exact Nat.min_eq_left (Nat.le_of_lt live)

theorem parent?_openChild : (s.openChild parent).parent? i =
    if i = s.depth then some parent else s.parent? i := by
  unfold parent?
  rw [slots_openChild]
  split <;> rfl

theorem parent?_release : (s.release slot).parent? i =
    if slot ≠ root ∧ slot ≤ i then none else s.parent? i := by
  unfold parent?
  rw [slots_release]
  split <;> rfl

theorem lt_depth_of_parent (around : s.parent? i = some parent) : i < s.depth := by
  refine Nat.lt_of_not_le fun beyond => ?_
  have none : s.slots[i]? = none := Array.getElem?_eq_none beyond
  simp [parent?, none] at around

theorem own?_of_le (beyond : s.depth ≤ i) : s.own? i name = none := by
  have none : s.slots[i]? = none := Array.getElem?_eq_none beyond
  rw [own?, none]
  rfl

/-- A new scope binds nothing, as nothing was bound in its slot while no scope was there. -/
theorem own?_openChild : (s.openChild parent).own? i name = s.own? i name := by
  by_cases new : i = s.depth
  · rw [own?_of_le (Nat.le_of_eq new.symm), own?, slots_openChild, if_pos new]
    rfl
  · rw [own?, slots_openChild, if_neg new, own?]

theorem own?_release : (s.release slot).own? i name =
    if slot ≠ root ∧ slot ≤ i then none else s.own? i name := by
  unfold own?
  rw [slots_release]
  split <;> rfl

/-- The scopes form a tree around the root, and every one was opened after the one around it. -/
structure IsTree (s : Scopes) : Prop where
  root : s.parent? root = none
  live : Scopes.root < s.depth
  parent : ∀ slot, slot ≠ Scopes.root → slot < s.depth →
    ∃ parent, s.parent? slot = some parent ∧ parent < slot

namespace IsTree

theorem initial : Scopes.initial.IsTree where
  root := rfl
  live := Nat.zero_lt_one
  parent slot inner live := by
    have zero : slot = Scopes.root := Nat.lt_one_iff.1 live
    exact absurd zero inner

theorem openChild (tree : s.IsTree) (live : parent < s.depth) : (s.openChild parent).IsTree where
  root := by rw [parent?_openChild, if_neg (Nat.ne_of_lt tree.live), tree.root]
  live := by
    rw [depth_openChild]
    exact Nat.lt_succ_of_lt tree.live
  parent slot inner below := by
    rw [parent?_openChild]
    by_cases new : slot = s.depth
    · rw [if_pos new, new]
      exact ⟨parent, rfl, live⟩
    · rw [if_neg new]
      rw [depth_openChild] at below
      exact tree.parent slot inner (Nat.lt_of_le_of_ne (Nat.le_of_lt_succ below) new)

theorem bind (tree : s.IsTree) (value : Value) : (s.bind slot name value).IsTree where
  root := by rw [parent?_bind, tree.root]
  live := by rw [depth_bind]; exact tree.live
  parent i inner live := by
    rw [parent?_bind]
    rw [depth_bind] at live
    exact tree.parent i inner live

theorem release (tree : s.IsTree) (live : slot < s.depth) : (s.release slot).IsTree := by
  by_cases kept : slot = Scopes.root
  · rwa [Scopes.release, if_pos kept]
  · have depth : (s.release slot).depth = slot := by rw [depth_release live, if_neg kept]
    have below : Scopes.root < slot := Nat.pos_of_ne_zero kept
    refine ⟨?_, depth.symm ▸ below, fun i inner there => ?_⟩
    · rw [parent?_release, if_neg fun gone => Nat.not_le_of_lt below gone.2, tree.root]
    · rw [depth] at there
      rw [parent?_release, if_neg fun gone => Nat.not_le_of_lt there gone.2]
      exact tree.parent i inner (Nat.lt_trans there live)

theorem move (tree : s.IsTree) {m : Move} (live : m.slot < s.depth) : (s.move m).IsTree := by
  cases m with
  | child parent => exact tree.openChild live
  | bind slot name value => exact tree.bind value
  | release slot => exact tree.release live

theorem wellFormed (tree : s.IsTree) : s.WellFormed := by
  intro slot parent around
  have inner : slot ≠ Scopes.root := by
    rintro rfl
    rw [tree.root] at around
    cases around
  obtain ⟨other, same, below⟩ := tree.parent slot inner (lt_depth_of_parent around)
  rw [around] at same
  cases same
  exact below

end IsTree

theorem after_induction {P : Scopes → Prop} (first : P s)
    (step : ∀ s m, P s → m.slot < s.depth → P (s.move m)) {moves : List Move}
    (permitted : s.Permits moves) : P (s.after moves) := by
  induction moves generalizing s with
  | nil => exact first
  | cons m rest ih => exact ih (step s m first permitted.1) permitted.2

theorem isTree_after {moves : List Move} (permitted : initial.Permits moves) :
    (initial.after moves).IsTree :=
  after_induction .initial (fun _ _ tree live => tree.move live) permitted

theorem own?_move {m : Move} (live : m.slot < s.depth) {value : Value} :
    (s.move m).own? i name = some value ↔
      m = .bind i name value ∨ ¬ m.Removes i name ∧ s.own? i name = some value := by
  cases m with
  | child parent =>
    have same : (s.move (.child parent)).own? i name = s.own? i name := own?_openChild
    simp [same, Move.Removes]
  | bind slot other given =>
    have changed : (s.move (.bind slot other given)).own? i name =
        if i = slot ∧ name = other then some given else s.own? i name := own?_bind given live i name
    by_cases here : i = slot ∧ name = other
    · obtain ⟨rfl, rfl⟩ := here
      simp [changed, Move.Removes]
    · have apart : ¬ (slot = i ∧ other = name) := fun same => here ⟨same.1.symm, same.2.symm⟩
      have differ : Move.bind slot other given ≠ .bind i name value := by
        intro same
        cases same
        exact here ⟨rfl, rfl⟩
      simp only [changed, if_neg here, differ, false_or, Move.Removes, apart, not_false_iff,
        true_and]
  | release slot =>
    have changed : (s.move (.release slot)).own? i name =
        if slot ≠ root ∧ slot ≤ i then none else s.own? i name := own?_release
    by_cases gone : slot ≠ root ∧ slot ≤ i
    · simp [changed, Move.Removes, gone.1, gone.2]
    · rw [changed, if_neg gone]
      simp [Move.Removes, gone]

theorem own?_initial : initial.own? i name = none := by
  cases i with
  | zero => rfl
  | succ i => exact own?_of_le (Nat.succ_le_succ (Nat.zero_le i))

/-- A scope binds a name to what it was bound to there by the last move that did, or to what it was
in the beginning, if the scope has been there since and the name was not bound in it again. -/
theorem own?_after {moves : List Move} (permitted : s.Permits moves) {value : Value} :
    (s.after moves).own? i name = some value ↔
      (∃ before later, moves = before ++ .bind i name value :: later ∧
        ∀ m ∈ later, ¬ m.Removes i name) ∨
      (∀ m ∈ moves, ¬ m.Removes i name) ∧ s.own? i name = some value := by
  -- Later moves start from what the first one left, so the start varies in the induction.
  induction moves generalizing s with
  | nil =>
    change s.own? i name = some value ↔ _
    simp
  | cons m rest ih =>
    change ((s.move m).after rest).own? i name = some value ↔ _
    rw [ih permitted.2, own?_move permitted.1]
    constructor
    · rintro (⟨before, later, rfl, others⟩ | ⟨others, rfl | ⟨kept, was⟩⟩)
      · exact .inl ⟨m :: before, later, rfl, others⟩
      · exact .inl ⟨[], rest, rfl, others⟩
      · exact .inr ⟨List.forall_mem_cons.2 ⟨kept, others⟩, was⟩
    · rintro (⟨before, later, split, others⟩ | ⟨others, was⟩)
      · cases before with
        | nil =>
          obtain ⟨rfl, rfl⟩ := List.cons_eq_cons.1 split
          exact .inr ⟨others, .inl rfl⟩
        | cons first before =>
          obtain ⟨rfl, rfl⟩ := List.cons_eq_cons.1 split
          exact .inl ⟨before, later, rfl, others⟩
      · obtain ⟨kept, others⟩ := List.forall_mem_cons.1 others
        exact .inr ⟨others, .inr ⟨kept, was⟩⟩

end Scopes

end OpTree
