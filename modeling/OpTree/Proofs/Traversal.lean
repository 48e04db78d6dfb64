import OpTree.Forest
import OpTree.Proofs.Lineage

set_option autoImplicit false

namespace OpTree.Store

open Relation

variable {s : Store} {ops : List Operation} {d op : Operation} {f g : Forest} {n : Nat}

/-- The forest of some operations and all below them, each with its parameters. -/
inductive Unfolds (s : Store) : List Operation → Forest → Prop
  | nil : Unfolds s [] .nil
  | node {op : Operation} {rest : List Operation} {inner next : Forest} :
      Unfolds s (s.children (some op.id)) inner → Unfolds s rest next →
      Unfolds s (op :: rest) (.node op (s.parametersOf op.id) inner next)

theorem Unfolds.unique (first : s.Unfolds ops f) (second : s.Unfolds ops g) : f = g := by
  induction first generalizing g with
  | nil =>
    cases second
    rfl
  | node _ _ ihInner ihNext =>
    cases second with
    | node inner next => rw [ihInner inner, ihNext next]

theorem unfolds_of_children (below : ∀ op ∈ ops,
      s.Unfolds (s.children (some op.id)) (s.forestTo n (s.children (some op.id)))) :
    s.Unfolds ops (s.forestTo (n + 1) ops) := by
  induction ops with
  | nil => exact .nil
  | cons op rest ih =>
    have later := ih fun other there => below other (List.mem_cons_of_mem op there)
    exact .node (below op List.mem_cons_self) later

theorem unfolds_forestTo (depth : ∀ op ∈ ops, s.DepthAtMost n op) :
    s.Unfolds ops (s.forestTo (n + 1) ops) := by
  induction n generalizing ops with
  | zero =>
    refine unfolds_of_children fun op there => ?_
    rw [show s.children (some op.id) = [] from depth op there]
    exact .nil
  | succ n ih => exact unfolds_of_children fun op there => ih (depth op there)

theorem unfolds_forestOf (acyclic : s.Acyclic) (stored : ∀ op ∈ ops, op ∈ s.allOperations) :
    s.Unfolds ops (s.forestOf ops) :=
  unfolds_forestTo fun op there => depthAtMost_size acyclic (stored op there)

theorem siblings_children {parent : Option OpId} :
    (s.children parent).Pairwise fun a b => a.parent = b.parent :=
  List.pairwise_of_forall_mem_list fun _ left _ right =>
    (mem_children.1 left).2.trans (mem_children.1 right).2.symm

theorem unfolds_forest (acyclic : s.Acyclic) : s.Unfolds (s.children none) s.forest :=
  unfolds_forestOf acyclic fun _ => stored_of_child

namespace Unfolds

variable (unfolds : s.Unfolds ops f)

include unfolds

theorem eq_nil_iff : f = .nil ↔ ops = [] := by
  cases unfolds with
  | nil => exact iff_of_true rfl rfl
  | node => exact iff_of_false nofun nofun

theorem mem_operations_iff (stored : ∀ op ∈ ops, op ∈ s.allOperations) :
    op ∈ f.operations ↔ ∃ top ∈ ops, ReflTransGen s.IsParent top op := by
  induction unfolds with
  | nil => simp [Forest.operations]
  | @node first rest inner next _ _ ihInner ihNext =>
    have known := stored first List.mem_cons_self
    have below := ihInner fun _ => stored_of_child
    have later := ihNext fun other there => stored other (List.mem_cons_of_mem first there)
    have here : ReflTransGen s.IsParent first op ↔
        op = first ∨ ∃ child ∈ s.children (some first.id), ReflTransGen s.IsParent child op := by
      rw [ReflTransGen.cases_head_iff, eq_comm]
      refine or_congr_right (exists_congr fun child => and_congr_left fun _ => ?_)
      exact ⟨fun edge => mem_children.2 edge.2, isParent_of_child known⟩
    rw [Forest.operations, List.mem_cons, List.mem_append, below, later, ← or_assoc, ← here]
    simp

omit unfolds in
theorem reaches_of_visited (unfolds : s.Unfolds (s.children (some d.id)) f) (stored : d ∈ s.allOperations)
    (visited : op ∈ f.operations) : TransGen s.IsParent d op := by
  obtain ⟨child, top, path⟩ := (unfolds.mem_operations_iff fun _ => stored_of_child).1 visited
  exact TransGen.head' (isParent_of_child stored top) path

/-- What is below an operation is not visited from other operations with the same parent. -/
theorem notMem_of_reaches (acyclic : s.Acyclic) (stored : ∀ op ∈ d :: ops, op ∈ s.allOperations)
    (siblings : ∀ b ∈ ops, d.parent = b.parent) (fresh : d ∉ ops)
    (path : ReflTransGen s.IsParent d op) : op ∉ f.operations := by
  intro visited
  have others : ∀ b ∈ ops, b ∈ s.allOperations := fun b there => stored b (List.mem_cons_of_mem d there)
  obtain ⟨b, top, path'⟩ := (unfolds.mem_operations_iff others).1 visited
  have known := stored d List.mem_cons_self
  rw [acyclic.eq_of_common known (others b top) (siblings b top) path path'] at fresh
  exact fresh top

theorem nodup_operations (acyclic : s.Acyclic) (stored : ∀ op ∈ ops, op ∈ s.allOperations)
    (siblings : ops.Pairwise fun a b => a.parent = b.parent) (distinct : ops.Nodup) :
    f.operations.Nodup := by
  induction unfolds with
  | nil => exact List.nodup_nil
  | @node first rest inner next under later ihInner ihNext =>
    obtain ⟨beside, siblings⟩ := List.pairwise_cons.1 siblings
    obtain ⟨fresh, distinct⟩ := List.nodup_cons.1 distinct
    have known := stored first List.mem_cons_self
    have inside := ihInner (fun _ => stored_of_child) siblings_children children_nodup
    have behind := ihNext (fun op there => stored op (List.mem_cons_of_mem first there)) siblings
      distinct
    have reached : ∀ op ∈ inner.operations, TransGen s.IsParent first op :=
      fun _ => under.reaches_of_visited known
    have apart : ∀ op, ReflTransGen s.IsParent first op → op ∉ next.operations :=
      fun _ => later.notMem_of_reaches acyclic stored beside fresh
    rw [Forest.operations, List.nodup_cons, List.nodup_append, List.mem_append, not_or]
    refine ⟨⟨fun there => acyclic first (reached first there), apart first .refl⟩, inside, behind,
      fun op left o right equal => ?_⟩
    subst equal
    exact apart op (reached op left).to_reflTransGen right

end Unfolds

namespace Sound

variable (sound : s.Sound)

include sound

theorem exists_root (stored : op ∈ s.allOperations) :
    ∃ root ∈ s.children none, ReflTransGen s.IsParent root op := by
  have rooted := sound.rooted stored
  induction rooted with
  | root top => exact ⟨_, mem_children.2 ⟨stored, top⟩, .refl⟩
  | under parent above _ ih =>
    obtain ⟨root, top, path⟩ := ih parent
    exact ⟨root, top, path.tail ⟨parent, stored, above⟩⟩

/-- Below the roots each stored operation is visited once. -/
theorem perm_operations (unfolds : s.Unfolds (s.children none) f) :
    f.operations.Perm s.allOperations := by
  have visited := unfolds.nodup_operations sound.acyclic (fun _ => stored_of_child)
    siblings_children children_nodup
  refine (List.perm_ext_iff_of_nodup visited s.nodup_ids.of_map).2 fun op => ?_
  rw [unfolds.mem_operations_iff fun _ => stored_of_child]
  constructor
  · rintro ⟨root, top, path⟩
    exact stored_of_reaches (stored_of_child top) path
  · exact fun stored => sound.exists_root stored

end Sound

end OpTree.Store
