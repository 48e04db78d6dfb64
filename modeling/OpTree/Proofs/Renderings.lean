import OpTree.Proofs.Traversal
import OpTree.Proofs.WrittenLines
import OpTree.Rendering

set_option autoImplicit false

namespace OpTree

section Marks

variable {marks : List Char} {a b : String}

/-- The text has none of some characters. -/
def IsFree (marks : List Char) (text : String) : Prop :=
  ∀ c ∈ text.toList, c ∉ marks

instance (marks : List Char) (text : String) : Decidable (IsFree marks text) :=
  List.decidableBAll (· ∉ marks) text.toList

theorem IsFree.of_subset (free : IsFree marks b) (inside : a.toList ⊆ b.toList) : IsFree marks a :=
  fun c there => free c (inside there)

theorem isFree_append : IsFree marks (a ++ b) ↔ IsFree marks a ∧ IsFree marks b := by
  simp only [IsFree, String.toList_append, List.forall_mem_append]

theorem isFree_intercalate {separator : String} {parts : List String}
    (between : IsFree marks separator) (each : ∀ part ∈ parts, IsFree marks part) :
    IsFree marks (separator.intercalate parts) := by
  induction parts with
  | nil => exact nofun
  | cons part parts ih =>
    have here := each part List.mem_cons_self
    have later := ih fun other there => each other (List.mem_cons_of_mem part there)
    by_cases last : parts = []
    · rwa [last, String.intercalate_singleton]
    · rw [String.intercalate_cons_of_ne_nil last]
      exact isFree_append.2 ⟨isFree_append.2 ⟨here, between⟩, later⟩

end Marks

namespace Parameters

def shown (p : Parameters) : List (String × String) :=
  p.entries.map fun entry => (entry.1, entry.2.getD "null")

def shownText (param : String × String) : String :=
  param.1 ++ ": " ++ param.2

theorem text_eq (p : Parameters) : p.text = if p.shown = [] then "" else
    " [" ++ String.intercalate ", " (p.shown.map shownText) ++ "]" := by
  have entries : p.entries.map parameterText = p.shown.map shownText := by
    rw [shown, List.map_map]
    rfl
  simp only [text, entries, isEmpty, List.isEmpty_iff, shown, List.map_eq_nil_iff]

end Parameters

/-- What is shown of an operation has none of some characters. -/
structure NodeIsClear (marks : List Char) (op : Operation) (params : Parameters) : Prop where
  tag : IsFree marks op.opcode.tag
  params : ∀ param ∈ params.shown, IsFree marks param.1 ∧ IsFree marks param.2

instance (marks : List Char) (op : Operation) (params : Parameters) :
    Decidable (NodeIsClear marks op params) :=
  decidable_of_iff (IsFree marks op.opcode.tag ∧
    ∀ param ∈ params.shown, IsFree marks param.1 ∧ IsFree marks param.2)
    ⟨fun clear => ⟨clear.1, clear.2⟩, fun clear => ⟨clear.tag, clear.params⟩⟩

theorem isFree_shownTexts {marks : List Char} {params : List (String × String)}
    (clear : ∀ param ∈ params, IsFree marks param.1 ∧ IsFree marks param.2)
    (signs : IsFree marks " :,") :
    IsFree marks (String.intercalate ", " (params.map Parameters.shownText)) := by
  refine isFree_intercalate (signs.of_subset (by decide)) fun part there => ?_
  obtain ⟨param, inside, rfl⟩ := List.mem_map.1 there
  obtain ⟨key, value⟩ := clear param inside
  exact isFree_append.2 ⟨isFree_append.2 ⟨key, signs.of_subset (by decide)⟩, value⟩

theorem isFree_nodeText {marks : List Char} {op : Operation} {params : Parameters}
    (clear : NodeIsClear marks op params) (signs : IsFree marks " []:,") :
    IsFree marks (nodeText op params) := by
  refine isFree_append.2 ⟨clear.tag, ?_⟩
  rw [Parameters.text_eq]
  split
  · exact nofun
  · have shown := isFree_shownTexts clear.params (signs.of_subset (by decide))
    exact isFree_append.2 ⟨isFree_append.2 ⟨signs.of_subset (by decide), shown⟩,
      signs.of_subset (by decide)⟩

theorem perm_interleave {α : Type} (a b c d : List α) (x : α) :
    (a ++ b ++ x :: (c ++ d)).Perm (a ++ c ++ x :: (b ++ d)) := by
  classical
  rw [List.perm_iff_count]
  intro y
  simp only [List.count_append, List.count_cons]
  omega

namespace Forest

variable {op : Operation} {params : Parameters} {inner next : Forest} {level : Nat}

theorem lines_block (some : inner ≠ nil) : (node op params inner next).lines level =
    ⟨level, nodeText op params ++ " \x7b"⟩ ::
      (inner.lines (level + 1) ++ ⟨level, "\x7d"⟩ :: next.lines level) := by
  cases inner with
  | nil => exact absurd rfl some
  | node => rfl

theorem lines_node (op : Operation) (params : Parameters) (inner next : Forest) (level : Nat) :
    (node op params inner next).lines level =
      (node op params inner nil).lines level ++ next.lines level := by
  cases inner <;> simp [lines]

theorem render_node (op : Operation) (params : Parameters) (inner next : Forest) :
    (node op params inner next).render = (node op params inner nil).render ++ next.render := by
  simp only [render, lines_node op params inner next, List.map_append, String.join_append]

end Forest

namespace Store

variable {s : Store} {ops : List Operation} {op : Operation} {f : Forest} {level : Nat}

def IsClear (s : Store) (marks : List Char) : Prop :=
  ∀ op ∈ s.allOperations, NodeIsClear marks op (s.parametersOf op.id)

instance (s : Store) (marks : List Char) : Decidable (s.IsClear marks) :=
  inferInstanceAs (Decidable (∀ op ∈ s.allOperations, NodeIsClear marks op (s.parametersOf op.id)))

def isBlock (s : Store) (op : Operation) : Bool :=
  !(s.children (some op.id)).isEmpty

def headline (s : Store) (op : Operation) : String :=
  nodeText op (s.parametersOf op.id) ++ if s.isBlock op then " \x7b" else ""

section Roots

variable (acyclic : s.Acyclic)

include acyclic

theorem forestOf_cons (stored : ∀ other ∈ op :: ops, other ∈ s.allOperations) :
    s.forestOf (op :: ops) =
      .node op (s.parametersOf op.id) (s.forestOf (s.children (some op.id))) (s.forestOf ops) := by
  have later :=
    unfolds_forestOf acyclic fun other there => stored other (List.mem_cons_of_mem op there)
  have below : s.Unfolds (s.children (some op.id)) (s.forestOf (s.children (some op.id))) :=
    unfolds_forestOf acyclic fun _ => stored_of_child
  exact (unfolds_forestOf acyclic stored).unique (.node below later)

/-- The texts of the operations, one after another. -/
theorem join_renderSubtree (stored : ∀ op ∈ ops, op ∈ s.allOperations) :
    ∃ texts, (ops.mapM fun op => s.renderSubtree op.id) = .ok texts ∧
      (s.forestOf ops).render = String.join texts := by
  induction ops with
  | nil => exact ⟨[], rfl, rfl⟩
  | cons op ops ih =>
    have known := stored op List.mem_cons_self
    obtain ⟨texts, shown, join⟩ :=
      ih fun other there => stored other (List.mem_cons_of_mem op there)
    have found : s.operation? op.id = some op := operation?_eq_some.2 ⟨known, rfl⟩
    have here : s.renderSubtree op.id = .ok (s.forestOf [op]).render := by rw [renderSubtree, found]
    refine ⟨(s.forestOf [op]).render :: texts, by rw [List.mapM_cons, here, shown]; rfl, ?_⟩
    have alone : ∀ other ∈ [op], other ∈ s.allOperations := by simpa using known
    rw [String.join_cons, ← join, forestOf_cons acyclic stored, forestOf_cons acyclic alone,
      Forest.render_node]
    rfl

end Roots

namespace Unfolds

variable (unfolds : s.Unfolds ops f)

include unfolds

/-- Each operation has its headline, and those with something below them a closing line. -/
theorem perm_text_lines (level : Nat) : ((f.lines level).map Line.text).Perm
    (f.operations.map s.headline ++ (f.operations.filter s.isBlock).map fun _ => "\x7d") := by
  induction unfolds generalizing level with
  | nil => exact .nil
  | @node op rest inner next below _ ihInner ihNext =>
    have later := ihNext level
    rw [Forest.operations, List.map_cons, List.map_append]
    by_cases leaf : inner = .nil
    · have block : s.isBlock op = false := by simp [isBlock, below.eq_nil_iff.1 leaf]
      have line : s.headline op = nodeText op (s.parametersOf op.id) := by simp [headline, block]
      subst leaf
      rw [line, List.filter_cons_of_neg (by simp [block])]
      exact later.cons _
    · have block : s.isBlock op = true := by simpa [isBlock] using mt below.eq_nil_iff.2 leaf
      have line : s.headline op = nodeText op (s.parametersOf op.id) ++ " \x7b" := by
        simp [headline, block]
      have within := ihInner (level + 1)
      rw [line, List.filter_cons_of_pos block, Forest.lines_block leaf, List.filter_append]
      simp only [List.map_cons, List.map_append]
      exact ((within.append (later.cons _)).trans (perm_interleave ..)).cons _

theorem stored_of_visited (stored : ∀ op ∈ ops, op ∈ s.allOperations)
    (visited : op ∈ f.operations) : op ∈ s.allOperations := by
  obtain ⟨top, there, path⟩ := (unfolds.mem_operations_iff stored).1 visited
  exact stored_of_reaches (stored top there) path

theorem isFree_text {marks : List Char} (stored : ∀ op ∈ ops, op ∈ s.allOperations)
    (clear : s.IsClear marks) (signs : IsFree marks " []:,\x7b\x7d") {line : Line}
    (there : line ∈ f.lines level) : IsFree marks line.text := by
  have text := (unfolds.perm_text_lines level).subset (List.mem_map_of_mem there)
  rcases List.mem_append.1 text with head | closing
  · obtain ⟨op, visited, same⟩ := List.mem_map.1 head
    have known := unfolds.stored_of_visited stored visited
    rw [← same]
    refine isFree_append.2 ⟨isFree_nodeText (clear op known) (signs.of_subset (by decide)), ?_⟩
    split
    · exact signs.of_subset (by decide)
    · exact nofun
  · obtain ⟨op, _, same⟩ := List.mem_map.1 closing
    rw [← same]
    exact signs.of_subset (by decide)

theorem written_render (stored : ∀ op ∈ ops, op ∈ s.allOperations) (clear : s.IsClear ['\n']) :
    Input.written f.render.toList = (f.lines 0).map fun line => line.render.toList := by
  have inner : ∀ text ∈ (f.lines 0).map fun line => indentation line.level ++ line.text,
      '\n' ∉ text.toList := by
    intro text there
    obtain ⟨line, inside, rfl⟩ := List.mem_map.1 there
    have free := unfolds.isFree_text stored clear (by decide) inside
    rw [String.toList_append, List.mem_append, not_or]
    refine ⟨?_, fun feed => free '\n' feed List.mem_cons_self⟩
    rw [indentation, String.toList_ofList]
    exact fun feed => absurd (List.eq_of_mem_replicate feed) (by decide)
  have whole := Input.written_join inner
  rw [List.map_map, List.map_map] at whole
  exact whole

end Unfolds

/-- The text of a program that was built in any way goes through its operations from top to bottom,
comes to an end and shows each of them once. It consists of the texts of the roots and what is below
them. If nothing that is shown breaks a line, it has a line for each operation and one more for each
that has children. -/
theorem render_after (history : List Request) :
    let s := Store.empty.after history
    (s.Unfolds (s.children none) s.forest ∧ s.forest.operations.Nodup ∧
        s.forest.operations.Perm s.allOperations) ∧
      (∃ texts, ((s.children none).mapM fun op => s.renderSubtree op.id) = .ok texts ∧
        s.render = String.join texts) ∧
      (s.IsClear ['\n'] →
        (Input.written s.render.toList).map String.ofList = (s.forest.lines 0).map Line.render ∧
          ((s.forest.lines 0).map Line.text).Perm (s.allOperations.map s.headline ++
            (s.allOperations.filter s.isBlock).map fun _ => "\x7d")) := by
  intro s
  have sound : s.Sound := sound_after history
  have stored : ∀ op ∈ s.children none, op ∈ s.allOperations := fun _ => stored_of_child
  have unfolds := unfolds_forest sound.acyclic
  have visited := sound.perm_operations unfolds
  have once : s.forest.operations.Nodup := visited.nodup_iff.2 s.nodup_ids.of_map
  refine ⟨⟨unfolds, once, visited⟩, join_renderSubtree sound.acyclic stored, fun clear => ⟨?_, ?_⟩⟩
  · have written := unfolds.written_render stored clear
    rw [render, written, List.map_map]
    exact List.map_congr_left fun line _ => String.ofList_toList
  · have heads := visited.map s.headline
    have closings := (visited.filter s.isBlock).map fun _ => "\x7d"
    exact (unfolds.perm_text_lines 0).trans (heads.append closings)

/-- A condition without a text, two blocks in one another, and a root that was deleted again. -/
theorem render_after_nested :
    let s := Store.empty.after [.append .conditional none, .append .print (some ⟨1⟩),
      .setParameter ⟨2⟩ "value" "x", .append .otherwise (some ⟨1⟩),
      .append .breakLoop (some ⟨3⟩), .append .print none, .delete ⟨5⟩,
      .addParameter ⟨1⟩ "condition" none]
    s.IsClear ['\n'] ∧ s.forest.operations.map Operation.id = [⟨1⟩, ⟨2⟩, ⟨3⟩, ⟨4⟩] ∧
      (Input.written s.render.toList).map String.ofList = ["if [condition: null] \x7b\n",
        "    print [value: x]\n", "    else \x7b\n", "        break\n", "    \x7d\n", "\x7d\n"] := by
  intro s
  have clear : s.IsClear ['\n'] := by decide
  refine ⟨clear, by decide, ?_⟩
  rw [((render_after _).2.2 clear).1]
  decide

end Store

end OpTree
