import OpTree.Proofs.Renderings

set_option autoImplicit false

/-!
# Programs told from their text

Where no tag, key or text has a sign that structures the text of a program, the text determines the
forest of tags and shown parameters. The brackets and separators in the line of an operation give
back what is shown of it (`eq_of_nodeText_eq`), and the braces at the ends of lines give back the
nesting (`shape_eq_of_lines`). Blanks, which also occur in tags and texts, are not needed for this:
how far a line is indented is known when it is reached.
-/

namespace OpTree

def signs : List Char :=
  ['\n', '[', ']', '\x7b', '\x7d', ',', ':']

section Separators

variable {mark second : Char}

theorem intercalate_pair (part : List Char) (parts : List (List Char)) :
    [mark, second].intercalate (part :: parts) =
      [mark].intercalate (part :: parts.map (second :: ·)) := by
  induction parts generalizing part with
  | nil => simp
  | cons next parts ih =>
    have head : ∀ rest : List (List Char), [mark].intercalate ((second :: next) :: rest) =
        second :: [mark].intercalate (next :: rest) := by
      intro rest
      cases rest <;> simp [List.intercalate_cons_cons]
    rw [List.intercalate_cons_cons, ih, List.map_cons, List.intercalate_cons_cons, head]
    simp

theorem intercalate_inj {x y : List Char} {xs ys : List (List Char)} (other : mark ≠ second)
    (left : ∀ part ∈ x :: xs, mark ∉ part) (right : ∀ part ∈ y :: ys, mark ∉ part)
    (same : [mark, second].intercalate (x :: xs) = [mark, second].intercalate (y :: ys)) :
    x :: xs = y :: ys := by
  have apart : ∀ {z : List Char} {zs : List (List Char)}, (∀ part ∈ z :: zs, mark ∉ part) →
      ([mark, second].intercalate (z :: zs)).splitOn mark = z :: zs.map (second :: ·) := by
    intro z zs absent
    rw [intercalate_pair]
    refine List.splitOn_intercalate mark (fun part there => ?_) (List.cons_ne_nil _ _)
    rcases List.mem_cons.1 there with rfl | there
    · exact absent part List.mem_cons_self
    · obtain ⟨old, inside, rfl⟩ := List.mem_map.1 there
      rw [List.mem_cons, not_or]
      exact ⟨other, absent old (List.mem_cons_of_mem z inside)⟩
  have parts := congrArg (List.splitOn mark) same
  rw [apart left, apart right, List.cons.injEq] at parts
  rw [parts.1, List.map_injective_iff.2 List.cons_injective parts.2]

end Separators

section Nodes

theorem IsFree.notMem {marks : List Char} {text : String} {c : Char} (free : IsFree marks text)
    (mark : c ∈ marks) : c ∉ text.toList :=
  fun there => free c there mark

theorem IsFree.mono {marks few : List Char} {text : String} (free : IsFree marks text)
    (fewer : few ⊆ marks) : IsFree few text :=
  fun c there mark => free c there (fewer mark)

theorem NodeIsClear.mono {marks few : List Char} {op : Operation} {params : Parameters}
    (clear : NodeIsClear marks op params) (fewer : few ⊆ marks) : NodeIsClear few op params where
  tag := clear.tag.mono fewer
  params param inside := (clear.params param inside).imp (·.mono fewer) (·.mono fewer)

open Parameters

theorem toList_shownText (param : String × String) :
    (shownText param).toList = param.1.toList ++ ':' :: ' ' :: param.2.toList := by
  simp [shownText]

theorem shownText_inj {a b : String × String} (free : IsFree signs a.1 ∧ IsFree signs a.2)
    (same : shownText a = shownText b) : a = b := by
  have chars := congrArg String.toList same
  rw [toList_shownText, toList_shownText] at chars
  have key : ':' ∉ a.1.toList := free.1.notMem (by decide)
  have value : ':' ∉ ' ' :: a.2.toList := by simpa using free.2.notMem (c := ':') (by decide)
  obtain ⟨keys, -, values⟩ := (List.append_cons_inj_of_notMem key value).1 chars
  exact Prod.ext (String.toList_inj.1 keys) (String.toList_inj.1 (List.cons.inj values).2)

theorem map_shownText_inj {xs ys : List (String × String)}
    (free : ∀ param ∈ xs, IsFree signs param.1 ∧ IsFree signs param.2)
    (same : xs.map (String.toList ∘ shownText) = ys.map (String.toList ∘ shownText)) : xs = ys := by
  induction xs generalizing ys with
  | nil => exact (List.map_eq_nil_iff.1 same.symm).symm
  | cons a xs ih =>
    cases ys with
    | nil => exact absurd same nofun
    | cons b ys =>
      obtain ⟨here, rest⟩ := List.forall_mem_cons.1 free
      obtain ⟨first, later⟩ := List.cons.inj same
      rw [shownText_inj here (String.toList_inj.1 first), ih rest later]

theorem notMem_shownText {param : String × String}
    (free : IsFree signs param.1 ∧ IsFree signs param.2) : ',' ∉ (shownText param).toList := by
  have key : ',' ∉ param.1.toList := free.1.notMem (by decide)
  have value : ',' ∉ param.2.toList := free.2.notMem (by decide)
  rw [toList_shownText]
  simp [key, value]

theorem intercalate_shownText_inj {a b : String × String} {as bs : List (String × String)}
    (left : ∀ param ∈ a :: as, IsFree signs param.1 ∧ IsFree signs param.2)
    (right : ∀ param ∈ b :: bs, IsFree signs param.1 ∧ IsFree signs param.2)
    (same : String.intercalate ", " ((a :: as).map shownText) =
      String.intercalate ", " ((b :: bs).map shownText)) : a :: as = b :: bs := by
  have absent : ∀ {params : List (String × String)},
      (∀ param ∈ params, IsFree signs param.1 ∧ IsFree signs param.2) →
      ∀ part ∈ params.map (String.toList ∘ shownText), ',' ∉ part := by
    intro params free part there
    obtain ⟨param, inside, rfl⟩ := List.mem_map.1 there
    exact notMem_shownText (free param inside)
  have chars := congrArg String.toList same
  simp only [String.toList_intercalate, List.map_map] at chars
  have parts := intercalate_inj (by decide) (absent left) (absent right) chars
  exact map_shownText_inj left parts

theorem shown_eq_of_text_eq {p q : Parameters}
    (left : ∀ param ∈ p.shown, IsFree signs param.1 ∧ IsFree signs param.2)
    (right : ∀ param ∈ q.shown, IsFree signs param.1 ∧ IsFree signs param.2)
    (same : p.text = q.text) : p.shown = q.shown := by
  rw [text_eq, text_eq] at same
  have bracket : ∀ rest : String, " [" ++ rest ++ "]" ≠ "" := by
    intro rest empty
    simpa using congrArg String.toList empty
  cases first : p.shown with
  | nil =>
    cases second : q.shown with
    | nil => rfl
    | cons b bs =>
      rw [first, second, if_pos rfl, if_neg nofun] at same
      exact absurd same.symm (bracket _)
  | cons a as =>
    cases second : q.shown with
    | nil =>
      rw [first, second, if_pos rfl, if_neg nofun] at same
      exact absurd same (bracket _)
    | cons b bs =>
      rw [first] at left
      rw [second] at right
      rw [first, second, if_neg nofun, if_neg nofun] at same
      exact intercalate_shownText_inj left right (by simpa using same)

theorem text_blank_or_bracket {p : Parameters}
    (free : ∀ param ∈ p.shown, IsFree signs param.1 ∧ IsFree signs param.2) :
    p.text.toList = [] ∨ ∃ rest, '[' ∉ rest ∧ p.text.toList = ' ' :: '[' :: rest := by
  rw [text_eq]
  split
  · exact .inl rfl
  · have few : ∀ param ∈ p.shown, IsFree ['['] param.1 ∧ IsFree ['['] param.2 := fun param there =>
      (free param there).imp (·.mono (by decide)) (·.mono (by decide))
    have shown :=
      isFree_append.2 ⟨isFree_shownTexts few (by decide), (by decide : IsFree ['['] "]")⟩
    exact .inr ⟨_, shown.notMem List.mem_cons_self, by simp⟩

theorem eq_of_nodeText_eq {op other : Operation} {p q : Parameters}
    (left : NodeIsClear signs op p) (right : NodeIsClear signs other q)
    (same : nodeText op p = nodeText other q) :
    op.opcode.tag = other.opcode.tag ∧ p.shown = q.shown := by
  have mark : '[' ∉ op.opcode.tag.toList := left.tag.notMem (by decide)
  have mark' : '[' ∉ other.opcode.tag.toList := right.tag.notMem (by decide)
  have chars : op.opcode.tag.toList ++ p.text.toList =
      other.opcode.tag.toList ++ q.text.toList := by
    simpa [nodeText] using congrArg String.toList same
  have parts : op.opcode.tag.toList = other.opcode.tag.toList ∧ p.text.toList = q.text.toList := by
    obtain blank | ⟨rest, -, bracket⟩ := text_blank_or_bracket left.params <;>
      obtain blank' | ⟨rest', absent, bracket'⟩ := text_blank_or_bracket right.params
    · simpa [blank, blank'] using chars
    · rw [blank, bracket', List.append_nil] at chars
      rw [chars] at mark
      simp at mark
    · rw [bracket, blank', List.append_nil] at chars
      rw [← chars] at mark'
      simp at mark'
    · have within : (op.opcode.tag.toList ++ [' ']) ++ '[' :: rest =
          (other.opcode.tag.toList ++ [' ']) ++ '[' :: rest' := by
        simpa [bracket, bracket'] using chars
      obtain ⟨tags, -, rests⟩ :=
        (List.append_cons_inj_of_notMem (by simpa using mark') absent).1 within.symm
      exact ⟨(List.append_cancel_right tags).symm, by rw [bracket, bracket', rests]⟩
  exact ⟨String.toList_inj.1 parts.1,
    shown_eq_of_text_eq left.params right.params (String.toList_inj.1 parts.2)⟩

end Nodes

/-- What a text can tell of a program: the tags and the shown parameters, in their order. -/
inductive Shape where
  | nil
  | node (tag : String) (params : List (String × String)) (inner next : Shape)
  deriving DecidableEq, Repr

namespace Forest

variable {op op' : Operation} {p q : Parameters} {f g inner inner' next : Forest} {level : Nat}

def shape : Forest → Shape
  | nil => .nil
  | node op params inner next => .node op.opcode.tag params.shown inner.shape next.shape

def IsClear (marks : List Char) : Forest → Prop
  | nil => True
  | node op params inner next =>
    NodeIsClear marks op params ∧ inner.IsClear marks ∧ next.IsClear marks

def opening (op : Operation) (params : Parameters) (inner : Forest) : String :=
  nodeText op params ++ if inner = nil then "" else " \x7b"

def block (level : Nat) (inner : Forest) : List Line :=
  if inner = nil then [] else inner.lines (level + 1) ++ [⟨level, "\x7d"⟩]

theorem lines_eq_block : (node op p inner next).lines level =
    ⟨level, opening op p inner⟩ :: (inner.block level ++ next.lines level) := by
  by_cases leaf : inner = nil
  · subst leaf
    simp [lines, opening, block]
  · simp [lines_block leaf, opening, block, leaf]

theorem opening_inj (left : NodeIsClear signs op p) (right : NodeIsClear signs op' q)
    (same : opening op p inner = opening op' q inner') :
    (op.opcode.tag = op'.opcode.tag ∧ p.shown = q.shown) ∧ (inner = nil ↔ inner' = nil) := by
  have within : ∀ {op : Operation} {params : Parameters} {inner : Forest},
      NodeIsClear signs op params → ('\x7b' ∈ (opening op params inner).toList ↔ inner ≠ nil) := by
    intro op params inner clear
    have free := isFree_nodeText (clear.mono (by decide : ['\x7b'] ⊆ signs)) (by decide)
    have absent : '\x7b' ∉ (nodeText op params).toList := free.notMem List.mem_cons_self
    by_cases leaf : inner = nil <;> simp [opening, leaf, absent]
  have leaves : inner = nil ↔ inner' = nil := by
    rw [← not_iff_not, ← ne_eq, ← ne_eq, ← within left, ← within right, same]
  refine ⟨eq_of_nodeText_eq left right ?_, leaves⟩
  rw [opening, opening, if_congr leaves rfl rfl] at same
  exact (String.append_left_inj _).1 same

/-- The lines after those of some operations: none, or a closing line comes first. -/
def Closed (rest : List String) : Prop :=
  ∀ line ∈ rest.head?, '\x7d' ∈ line.toList

theorem closed_nil : Closed [] := by
  simp [Closed]

theorem closed_closing (level : Nat) (rest : List String) :
    Closed (Line.render ⟨level, "\x7d"⟩ :: rest) := by
  simp [Closed, Line.render]

theorem not_closed_opening (clear : NodeIsClear signs op p) (rest : List String) :
    ¬Closed (Line.render ⟨level, opening op p inner⟩ :: rest) := by
  have free : IsFree ['\x7d'] (opening op p inner) := by
    refine isFree_append.2 ⟨isFree_nodeText (clear.mono (by decide)) (by decide), ?_⟩
    split <;> decide
  have absent : '\x7d' ∉ (opening op p inner).toList := free.notMem List.mem_cons_self
  simp [Closed, Line.render, indentation, absent]

/-- The nesting is told from the lines: those of a block end where its closing line is. -/
theorem shape_eq_of_lines {rest rest' : List String} (left : f.IsClear signs)
    (right : g.IsClear signs) (closed : Closed rest) (closed' : Closed rest')
    (same : (f.lines level).map Line.render ++ rest = (g.lines level).map Line.render ++ rest') :
    f.shape = g.shape ∧ rest = rest' := by
  induction f generalizing g level rest rest' with
  | nil =>
    cases g with
    | nil => exact ⟨rfl, same⟩
    | node op params inner next =>
      rw [lines_eq_block] at same
      rw [show rest = _ from same] at closed
      exact absurd closed (not_closed_opening right.1 _)
  | node op params inner next ihInner ihNext =>
    cases g with
    | nil =>
      rw [lines_eq_block] at same
      rw [← show _ = rest' from same] at closed'
      exact absurd closed' (not_closed_opening left.1 _)
    | node op' params' inner' next' =>
      obtain ⟨clear, clearInner, clearNext⟩ := left
      obtain ⟨clear', clearInner', clearNext'⟩ := right
      simp only [lines_eq_block, List.map_cons, List.cons_append, List.cons.injEq] at same
      obtain ⟨first, later⟩ := same
      have texts : opening op params inner = opening op' params' inner' := by
        simpa [Line.render] using first
      obtain ⟨⟨tags, shown⟩, leaves⟩ := opening_inj clear clear' texts
      have blocks : inner.shape = inner'.shape ∧ (next.lines level).map Line.render ++ rest =
          (next'.lines level).map Line.render ++ rest' := by
        by_cases leaf : inner = nil
        · have leaf' := leaves.1 leaf
          subst leaf leaf'
          exact ⟨rfl, later⟩
        · -- The block ends where what is left begins with a closing line, on both sides.
          have some' := mt leaves.2 leaf
          simp only [block, if_neg leaf, if_neg some', List.map_append, List.append_assoc] at later
          obtain ⟨shapes, behind⟩ := ihInner clearInner clearInner' (closed_closing level _)
            (closed_closing level _) later
          exact ⟨shapes, (List.cons.inj behind).2⟩
      obtain ⟨shapes, behind⟩ := ihNext clearNext clearNext' closed closed' blocks.2
      exact ⟨by rw [shape, shape, tags, shown, blocks.1, shapes], behind⟩

theorem eq_nil_of_shape_eq (same : inner.shape = inner'.shape) : inner = nil ↔ inner' = nil := by
  cases inner <;> cases inner' <;> simp_all [shape]

/-- Conversely, a text shows nothing but the shape. -/
theorem lines_eq_of_shape (same : f.shape = g.shape) : f.lines level = g.lines level := by
  induction f generalizing g level with
  | nil =>
    cases g with
    | nil => rfl
    | node => exact absurd same nofun
  | node op params inner next ihInner ihNext =>
    cases g with
    | nil => exact absurd same nofun
    | node op' params' inner' next' =>
      obtain ⟨tags, shown, shapes, later⟩ := Shape.node.inj same
      have texts : nodeText op params = nodeText op' params' := by
        rw [nodeText, nodeText, Parameters.text_eq, Parameters.text_eq, tags, shown]
      have leaves := eq_nil_of_shape_eq shapes
      rw [lines_eq_block, lines_eq_block, ihNext later]
      simp only [opening, block, texts, leaves, ihInner shapes]

end Forest

namespace Store

variable {s t : Store} {ops : List Operation} {f : Forest} {marks few : List Char}

theorem IsClear.mono (clear : s.IsClear marks) (fewer : few ⊆ marks) : s.IsClear few :=
  fun op stored => (clear op stored).mono fewer

theorem Unfolds.isClear (unfolds : s.Unfolds ops f) (stored : ∀ op ∈ ops, op ∈ s.allOperations)
    (clear : s.IsClear marks) : f.IsClear marks := by
  induction unfolds with
  | nil => trivial
  | @node op rest inner next _ _ ihInner ihNext =>
    obtain ⟨known, others⟩ := List.forall_mem_cons.1 stored
    exact ⟨clear op known, ihInner fun _ => stored_of_child, ihNext others⟩

def SameForest (s t : Store) : Prop :=
  ∃ f g, s.Unfolds (s.children none) f ∧ t.Unfolds (t.children none) g ∧ f.shape = g.shape

/-- Programs that were built in any way and do not show any of the signs have the same text if and
only if they have the same tags and shown parameters in the same places. -/
theorem render_eq_iff (first second : List Request) :
    let s := Store.empty.after first
    let t := Store.empty.after second
    s.IsClear signs → t.IsClear signs → (s.render = t.render ↔ s.SameForest t) := by
  intro s t clear clear'
  have stored : ∀ {s : Store}, ∀ op ∈ s.children none, op ∈ s.allOperations :=
    fun {_} _ => stored_of_child
  have unfolds := unfolds_forest (sound_after first).acyclic
  have unfolds' := unfolds_forest (sound_after second).acyclic
  constructor
  · intro same
    have lines : (s.forest.lines 0).map Line.render = (t.forest.lines 0).map Line.render := by
      refine List.map_injective_iff.2 (fun _ _ => String.toList_inj.1) ?_
      rw [List.map_map, List.map_map]
      calc (s.forest.lines 0).map (String.toList ∘ Line.render)
        _ = Input.written s.render.toList :=
          (unfolds.written_render stored (clear.mono (by decide))).symm
        _ = Input.written t.render.toList := by rw [same]
        _ = (t.forest.lines 0).map (String.toList ∘ Line.render) :=
          unfolds'.written_render stored (clear'.mono (by decide))
    have shapes := Forest.shape_eq_of_lines (unfolds.isClear stored clear)
      (unfolds'.isClear stored clear') Forest.closed_nil Forest.closed_nil
      (congrArg (· ++ []) lines)
    exact ⟨s.forest, t.forest, unfolds, unfolds', shapes.1⟩
  · rintro ⟨f, g, forest, forest', shapes⟩
    rw [forest.unique unfolds, forest'.unique unfolds'] at shapes
    rw [render, render, Forest.render, Forest.render, Forest.lines_eq_of_shape shapes]

/-- A text that is missing counts as `null`; ids that are not used and the order in which the
operations were added do not count. -/
theorem render_eq_iff_renumbered :
    let s := Store.empty.after [.append .conditional none, .append .print (some ⟨1⟩),
      .setParameter ⟨2⟩ "value" "null", .append .otherwise (some ⟨1⟩)]
    let t := Store.empty.after [.append .print none, .delete ⟨1⟩, .append .conditional none,
      .append .otherwise (some ⟨2⟩), .create .print (some ⟨2⟩) 0, .addParameter ⟨4⟩ "value" none]
    s.IsClear signs ∧ t.IsClear signs ∧ s.render = t.render ∧ s.SameForest t := by
  intro s t
  have clear : s.IsClear signs := by decide
  have clear' : t.IsClear signs := by decide
  have same : s.render = t.render := by decide
  exact ⟨clear, clear', same, (render_eq_iff _ _ clear clear').1 same⟩

end Store

end OpTree
