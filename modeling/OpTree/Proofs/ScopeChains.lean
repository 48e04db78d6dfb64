import OpTree.Proofs.ScopeHistories

set_option autoImplicit false

namespace OpTree

namespace Scopes

/-- The scopes from one of them up to the root, all of which are there. -/
inductive IsChain (s : Scopes) : Slot → List Slot → Prop
  | root {slot : Slot} : slot < s.depth → s.parent? slot = none → IsChain s slot [slot]
  | inside {slot parent : Slot} {chain : List Slot} : s.parent? slot = some parent →
      IsChain s parent chain → IsChain s slot (slot :: chain)

/-- On the way along the chain to the scope no other one binds the name. -/
def Uncovers (s : Scopes) (chain : List Slot) (slot : Slot) (name : String) : Prop :=
  ∃ nearer outer, chain = nearer ++ slot :: outer ∧ ∀ i ∈ nearer, s.own? i name = none

variable {s : Scopes} {slot other : Slot} {name : String} {chain : List Slot}

theorem IsTree.exists_chain (tree : s.IsTree) (live : slot < s.depth) :
    ∃ chain, s.IsChain slot chain := by
  induction slot using Nat.strongRecOn with
  | ind slot ih =>
    by_cases outermost : slot = Scopes.root
    · exact ⟨[slot], .root live (by rw [outermost, tree.root])⟩
    · obtain ⟨parent, around, below⟩ := tree.parent slot outermost live
      obtain ⟨chain, rest⟩ := ih parent below (Nat.lt_trans below live)
      exact ⟨slot :: chain, .inside around rest⟩

namespace IsChain

theorem live (whole : s.IsChain slot chain) : ∀ i ∈ chain, i < s.depth := by
  induction whole with
  | root live _ => simpa using live
  | inside around _ ih => exact List.forall_mem_cons.2 ⟨lt_depth_of_parent around, ih⟩

theorem descending (below : s.WellFormed) (whole : s.IsChain slot chain) :
    chain.Pairwise (fun inner outer => outer < inner) ∧ ∀ i ∈ chain, i ≤ slot := by
  induction whole with
  | root => simp
  | @inside slot parent chain around _ ih =>
    have earlier : parent < slot := below slot parent around
    have before : ∀ i ∈ chain, i < slot := fun i there => Nat.lt_of_le_of_lt (ih.2 i there) earlier
    exact ⟨List.pairwise_cons.2 ⟨before, ih.1⟩,
      List.forall_mem_cons.2 ⟨Nat.le_refl slot, fun i there => Nat.le_of_lt (before i there)⟩⟩

theorem root_of_last (tree : s.IsTree) (whole : s.IsChain slot chain) :
    chain.getLast? = some Scopes.root := by
  induction whole with
  | @root slot live outermost =>
    by_cases same : slot = Scopes.root
    · rw [same]
      rfl
    · obtain ⟨parent, around, -⟩ := tree.parent slot same live
      simp [outermost] at around
  | inside _ _ ih => simp [List.getLast?_cons, ih]

theorem bind (whole : s.IsChain slot chain) (value : Value) :
    (s.bind other name value).IsChain slot chain := by
  induction whole with
  | root live outermost => exact .root (by rwa [depth_bind]) (by rwa [parent?_bind])
  | inside around _ ih => exact .inside (by rwa [parent?_bind]) ih

end IsChain

theorem lookup_of_chain (below : s.WellFormed) (whole : s.IsChain slot chain) :
    s.lookup slot name = chain.findSome? fun i => s.own? i name := by
  induction whole with
  | @root slot _ outermost =>
    rw [lookup_eq below, outermost, Option.bind_none, Option.or_none, List.findSome?_singleton]
  | @inside slot parent chain around _ ih =>
    rw [lookup_eq below, around, Option.bind_some, ih, List.findSome?_cons]
    cases s.own? slot name <;> rfl

theorem uncovers_self : s.Uncovers (slot :: chain) slot name :=
  ⟨[], chain, rfl, nofun⟩

theorem uncovers_cons {i : Slot} (apart : i ≠ slot) : s.Uncovers (i :: chain) slot name ↔
    s.own? i name = none ∧ s.Uncovers chain slot name := by
  constructor
  · rintro ⟨nearer, outer, split, covered⟩
    cases nearer with
    | nil => exact absurd (List.cons.inj split).1 apart
    | cons first nearer =>
      obtain ⟨rfl, rest⟩ := List.cons.inj split
      have both := List.forall_mem_cons.1 covered
      exact ⟨both.1, nearer, outer, rest, both.2⟩
  · rintro ⟨here, nearer, outer, rfl, covered⟩
    exact ⟨i :: nearer, outer, rfl, List.forall_mem_cons.2 ⟨here, covered⟩⟩

theorem findSome?_bind_of_uncovers (live : slot < s.depth) (value : Value)
    (seen : s.Uncovers chain slot name) :
    (chain.findSome? fun i => (s.bind slot name value).own? i name) = some value := by
  induction chain with
  | nil =>
    obtain ⟨nearer, outer, split, -⟩ := seen
    simp at split
  | cons i chain ih =>
    rw [List.findSome?_cons, own?_bind value live]
    by_cases here : i = slot
    · rw [if_pos ⟨here, rfl⟩]
    · obtain ⟨unbound, seen⟩ := (uncovers_cons here).1 seen
      rw [if_neg fun both => here both.1, unbound]
      exact ih seen

theorem findSome?_bind_of_covered (live : slot < s.depth) (value : Value)
    (hidden : ¬ s.Uncovers chain slot name) :
    (chain.findSome? fun i => (s.bind slot name value).own? i name) =
      chain.findSome? fun i => s.own? i name := by
  induction chain with
  | nil => rfl
  | cons i chain ih =>
    have here : i ≠ slot := fun same => hidden (same ▸ uncovers_self)
    rw [List.findSome?_cons, List.findSome?_cons, own?_bind value live,
      if_neg fun both => here both.1]
    cases bound : s.own? i name with
    | some nearest => rfl
    | none => exact ih fun seen => hidden ((uncovers_cons here).2 ⟨bound, seen⟩)

theorem findSome?_bind_of_ne (live : slot < s.depth) (value : Value) {again : String}
    (differ : again ≠ name) :
    (chain.findSome? fun i => (s.bind slot name value).own? i again) =
      chain.findSome? fun i => s.own? i again := by
  congr 1
  funext i
  rw [own?_bind value live, if_neg fun both => differ both.2]

section Bind

variable (below : s.WellFormed) (whole : s.IsChain other chain) (live : slot < s.depth)
  (value : Value)

include below whole live

theorem lookup_bind_of_uncovers (seen : s.Uncovers chain slot name) :
    (s.bind slot name value).lookup other name = some value := by
  rw [lookup_of_chain (below.bind value) (whole.bind value)]
  exact findSome?_bind_of_uncovers live value seen

theorem lookup_bind_of_not {again : String}
    (hidden : ¬ (again = name ∧ s.Uncovers chain slot name)) :
    (s.bind slot name value).lookup other again = s.lookup other again := by
  rw [lookup_of_chain (below.bind value) (whole.bind value), lookup_of_chain below whole]
  by_cases same : again = name
  · subst again
    exact findSome?_bind_of_covered live value fun seen => hidden ⟨rfl, seen⟩
  · exact findSome?_bind_of_ne live value same

end Bind

/-- Whatever was done to the scopes, each but the root has one around it in an earlier slot, so that
a lookup comes to its end at the root, through scopes that are there, and finds what the nearest one
binds. After a name is bound in a scope, this is seen from the scopes whose chain comes to that one
and binds the name nowhere before; all else is seen as it was. -/
theorem lookup_along_chain {moves : List Move} (permitted : initial.Permits moves) :
    let s := initial.after moves
    (∀ slot, slot ≠ root → slot < s.depth →
      ∃ parent, s.parent? slot = some parent ∧ parent < slot) ∧
    (∀ slot, slot < s.depth → ∃ chain, s.IsChain slot chain ∧ chain.getLast? = some root ∧
      chain.Pairwise (fun inner outer => outer < inner) ∧ (∀ i ∈ chain, i < s.depth) ∧ ∀ name,
        (s.lookup slot name = chain.findSome? fun i => s.own? i name) ∧
        ∀ fuel, slot < fuel → s.lookupFrom name fuel slot = s.lookup slot name) ∧
    (∀ slot other chain, slot < s.depth → s.IsChain other chain → ∀ name again value,
      (again = name → s.Uncovers chain slot name →
        (s.bind slot name value).lookup other again = some value) ∧
      (¬ (again = name ∧ s.Uncovers chain slot name) →
        (s.bind slot name value).lookup other again = s.lookup other again)) := by
  intro s
  have tree : s.IsTree := isTree_after permitted
  have below : s.WellFormed := tree.wellFormed
  refine ⟨tree.parent, fun slot live => ?_, ?_⟩
  · obtain ⟨chain, whole⟩ := tree.exists_chain live
    obtain ⟨descends, -⟩ := whole.descending below
    refine ⟨chain, whole, whole.root_of_last tree, descends, whole.live, fun name => ?_⟩
    refine ⟨lookup_of_chain below whole, fun fuel enough => ?_⟩
    exact lookupFrom_congr below (fun _ _ => rfl) (Nat.lt_succ_self slot) enough
  · intro slot other chain live whole name again value
    refine ⟨fun same seen => ?_, lookup_bind_of_not below whole live value⟩
    subst again
    exact lookup_bind_of_uncovers below whole live value seen

/-- The name is bound in the root and in one of two scopes inside it, of which the other one has
taken over the slot of a scope that was inside the first. Binding it in the root again is seen from
there, and from the first one it is not. -/
theorem lookup_along_chain_sibling :
    let moves : List Move := [.bind 0 "x" (.int 1), .child 0, .bind 1 "x" (.int 2), .child 1,
      .bind 2 "x" (.int 3), .release 2, .child 0]
    let s := initial.after moves
    initial.Permits moves ∧ s.IsChain 2 [2, 0] ∧ s.IsChain 1 [1, 0] ∧
      s.lookup 2 "x" = some (.int 1) ∧ (s.bind 0 "x" (.int 9)).lookup 2 "x" = some (.int 9) ∧
      (s.bind 0 "x" (.int 9)).lookup 1 "x" = some (.int 2) := by
  intro moves s
  have permitted : initial.Permits moves := by decide
  have second : s.IsChain 2 [2, 0] := .inside rfl (.root (by decide) rfl)
  have first : s.IsChain 1 [1, 0] := .inside rfl (.root (by decide) rfl)
  obtain ⟨-, -, bound⟩ := lookup_along_chain permitted
  have seen : s.Uncovers [2, 0] 0 "x" := ⟨[2], [], rfl, by decide⟩
  have hidden : ¬ s.Uncovers [1, 0] 0 "x" := by
    rw [uncovers_cons (by decide)]
    exact fun both => absurd both.1 (by decide)
  have outer := (bound 0 2 [2, 0] (by decide) second "x" "x" (.int 9)).1 rfl seen
  have inner := (bound 0 1 [1, 0] (by decide) first "x" "x" (.int 9)).2 fun both => hidden both.2
  have before : s.lookup 1 "x" = some (.int 2) := by decide
  exact ⟨permitted, second, first, by decide, outer, inner.trans before⟩

end Scopes

end OpTree
