import OpTree.Proofs.Refusals
import OpTree.Proofs.Scripts
import OpTree.Proofs.Sessions

set_option autoImplicit false

namespace OpTree

theorem toInt_nodeId {number : Nat} (fits : number < 2 ^ 63) :
    (nodeId number).raw.toInt = number :=
  Int64.toInt_ofNat_of_lt fits

theorem nodeId_inj {m n : Nat} (left : m < 2 ^ 63) (right : n < 2 ^ 63) :
    nodeId m = nodeId n ↔ m = n := by
  refine ⟨fun same => ?_, congrArg nodeId⟩
  have ints := congrArg (fun id : OpId => id.raw.toInt) same
  simp only [toInt_nodeId left, toInt_nodeId right] at ints
  omega

theorem eq_nodeId {id : OpId} {number : Nat} (fits : number < 2 ^ 63)
    (same : id.raw.toInt = number) : id = nodeId number := by
  rw [← toInt_nodeId fits, Int64.toInt_inj] at same
  exact congrArg OpId.mk same

theorem Parameters.entries_push {p : Parameters} {key : String} (absent : ¬ p.contains key)
    (value : Option String) : (p.push key value).entries = p.entries ++ [(key, value)] := by
  rw [push, dif_neg absent]

theorem Parameters.entries_ofRows {rows : List (String × Option String)}
    (distinct : (rows.map Prod.fst).Nodup) : (ofRows rows).entries = rows := by
  induction rows using List.reverseRecOn with
  | nil => rfl
  | append_singleton rows row ih =>
    rw [List.map_append, List.nodup_append] at distinct
    obtain ⟨before, _, apart⟩ := distinct
    have absent : ¬ (ofRows rows).contains row.1 := by
      rw [contains_iff_mem, ih before]
      exact fun there => apart row.1 there row.1 (by simp) rfl
    have last : ofRows (rows ++ [row]) = (ofRows rows).push row.1 row.2 := by
      rw [ofRows, List.foldl_append]
      rfl
    rw [last, entries_push absent, ih before]

namespace Planted

def rows (node : Planted) : List ParameterRow :=
  node.label.params.map fun param => ⟨node.id, param.1, some param.2⟩

theorem owner_of_mem_rows {node : Planted} {row : ParameterRow} (there : row ∈ node.rows) :
    row.owner = node.id := by
  obtain ⟨param, _, rfl⟩ := List.mem_map.1 there
  rfl

end Planted

namespace Store

/-- The operations are those of some nodes, stored after their siblings, and the parameters are
some rows. -/
structure Holds (s : Store) (nodes : List Planted) (rows : List ParameterRow) : Prop where
  operations : s.allOperations.map (fun op => (op.id, op.opcode, op.parent)) =
    nodes.map fun node => (node.id, Opcode.ofTag node.label.tag, node.parentId)
  parameters : s.parameters.rows.map Prod.snd = rows
  ordered : s.allOperations.Pairwise fun a b => a.parent = b.parent → a.precedes b
  low : ∀ op ∈ s.allOperations, op.sequence.toInt ≤ op.id.raw.toInt
  lastOperation : s.operations.last.toInt = nodes.length
  lastParameter : s.parameters.last.toInt = rows.length

namespace Holds

variable {s : Store} {nodes : List Planted} {rows : List ParameterRow} {node : Planted}

theorem empty : Store.empty.Holds [] [] :=
  ⟨rfl, rfl, .nil, nofun, rfl, rfl⟩

variable (holds : s.Holds nodes rows)

include holds

theorem contains (there : node ∈ nodes) : s.contains node.id := by
  have inside : (node.id, Opcode.ofTag node.label.tag, node.parentId) ∈
      s.allOperations.map fun op => (op.id, op.opcode, op.parent) := by
    rw [holds.operations]
    exact List.mem_map_of_mem there
  obtain ⟨op, stored, same⟩ := List.mem_map.1 inside
  exact contains_iff.2 ⟨op, stored, congrArg Prod.fst same⟩

/-- Sequence numbers are not above identifiers, so they are not used up before these. -/
theorem exists_next (room : nodes.length + 1 < 2 ^ 63) (parent : Option OpId) :
    ∃ n, s.nextSequence parent = .ok n ∧ n.toInt ≤ nodes.length + 1 := by
  cases next : s.nextSequence parent with
  | error error =>
    obtain ⟨⟨op, stored, _, greatest⟩, _⟩ := nextSequence_eq_error.1 next
    have low := holds.low op stored
    have known := le_last stored
    rw [greatest, Int64.toInt_maxValue] at low
    rw [holds.lastOperation] at known
    omega
  | ok n =>
    refine ⟨n, rfl, ?_⟩
    rcases nextSequence_le next with rfl | ⟨op, stored, same⟩
    · have one : (1 : Int64).toInt = 1 := by decide
      omega
    · have low := holds.low op stored
      have known := le_last stored
      rw [holds.lastOperation] at known
      omega

theorem append (room : nodes.length + 1 < 2 ^ 63) (number : node.number = nodes.length + 1)
    (under : ∀ p, node.parent = some p → ∃ other ∈ nodes, other.number = p) :
    (s.serve (.append (Opcode.ofTag node.label.tag) node.parentId)).2.Holds
      (nodes ++ [node]) rows := by
  obtain ⟨sequence, next, least⟩ := holds.exists_next room node.parentId
  have known : s.requireParent node.parentId = .ok () := by
    refine requireParent_eq_ok.2 fun p same => ?_
    obtain ⟨parent, named, rfl⟩ := Option.map_eq_some_iff.1 same
    obtain ⟨other, there, rfl⟩ := under parent named
    exact holds.contains there
  have left : s.operations.last ≠ Int64.maxValue := by
    rw [ne_eq, eq_maxValue_iff, holds.lastOperation]
    omega
  obtain ⟨key, operations, inserted, above, _, last⟩ := Table.exists_insert left
    { tag := (Opcode.ofTag node.label.tag).tag, parent := node.parentId, sequence }
  rw [holds.lastOperation] at above
  have same : OpId.mk key = node.id := by
    rw [Planted.id, number]
    exact eq_nodeId room (by simpa using above)
  have run : s.append (Opcode.ofTag node.label.tag) node.parentId =
      .ok (⟨key⟩, { s with operations }) := by
    rw [Store.append, next]
    change s.create _ _ sequence = _
    simp only [create, known, inserted]
    rfl
  have served : (s.serve (.append (Opcode.ofTag node.label.tag) node.parentId)).2 =
      { s with operations } := by
    rw [serve, attempt, run]
    rfl
  have all := allOperations_insert inserted
  rw [served]
  refine ⟨?_, holds.parameters, ?_, ?_, ?_, holds.lastParameter⟩
  · rw [all, List.map_append, holds.operations, List.map_append]
    simp [Operation.ofRow, Opcode.tag_ofTag, same]
  · rw [all]
    refine List.pairwise_append.2 ⟨holds.ordered, List.pairwise_singleton _ _, ?_⟩
    intro a there b new here
    rw [List.mem_singleton.1 new] at here ⊢
    exact Operation.precedes_iff.2 (.inl (nextSequence_above next a there here))
  · rw [all]
    intro op there
    rcases List.mem_append.1 there with there | new
    · exact holds.low op there
    · rw [List.mem_singleton.1 new]
      simp only [Operation.ofRow]
      omega
  · change operations.last.toInt = _
    rw [last, above]
    simp

theorem setParameter (param : String × String) (room : rows.length + 1 < 2 ^ 63)
    (there : node ∈ nodes) (fresh : ∀ row ∈ rows, ¬ (row.owner = node.id ∧ row.key = param.1)) :
    (s.serve (.setParameter node.id param.1 param.2)).2.Holds nodes
      (rows ++ [⟨node.id, param.1, some param.2⟩]) := by
  have left : s.parameters.last ≠ Int64.maxValue := by
    rw [ne_eq, eq_maxValue_iff, holds.lastParameter]
    omega
  have absent : s.firstParameter? node.id param.1 = none := by
    refine firstParameter?_eq_none.2 fun entry stored => fresh entry.2 ?_
    rw [← holds.parameters]
    exact List.mem_map_of_mem stored
  obtain ⟨key, parameters, inserted, above, stored, last⟩ := Table.exists_insert left
    { owner := node.id, key := param.1, value := some param.2 }
  rw [holds.lastParameter] at above
  have run : s.setParameter node.id param.1 param.2 = .ok { s with parameters } := by
    simp only [Store.setParameter, require_eq_ok.2 (holds.contains there), absent,
      insertParameter, inserted]
    rfl
  have served : (s.serve (.setParameter node.id param.1 param.2)).2 = { s with parameters } := by
    rw [serve, attempt, run]
    rfl
  rw [served]
  refine ⟨holds.operations, ?_, holds.ordered, holds.low, holds.lastOperation, ?_⟩
  · change parameters.rows.map Prod.snd = _
    rw [stored, List.map_append, holds.parameters]
    rfl
  · change parameters.last.toInt = _
    rw [last, above]
    simp

theorem setParameters {params : List (String × String)} (there : node ∈ nodes)
    (distinct : (params.map Prod.fst).Nodup)
    (fresh : ∀ row ∈ rows, row.owner = node.id → row.key ∉ params.map Prod.fst)
    (room : rows.length + params.length < 2 ^ 63) :
    (s.after (params.map fun param => .setParameter node.id param.1 param.2)).Holds nodes
      (rows ++ params.map fun param => ⟨node.id, param.1, some param.2⟩) := by
  induction params generalizing s rows with
  | nil => simpa [after] using holds
  | cons param params ih =>
    obtain ⟨other, distinct⟩ := List.nodup_cons.1 distinct
    rw [List.length_cons] at room
    have first := holds.setParameter param (by omega) there
      fun row stored same => fresh row stored same.1 (by simp [same.2])
    have later := ih first distinct
      (fun row stored here => ?_) (by rw [List.length_append, List.length_singleton]; omega)
    · rw [List.append_assoc] at later
      exact later
    · rcases List.mem_append.1 stored with stored | new
      · exact fun inside => fresh row stored here (List.mem_cons_of_mem _ inside)
      · rw [List.mem_singleton.1 new]
        exact other

end Holds

section Nodes

variable {s : Store} {nodes more : List Planted} {node : Planted}

theorem number_le (numbered : nodes.map Planted.number = List.range' 1 nodes.length)
    (there : node ∈ nodes) : 0 < node.number ∧ node.number ≤ nodes.length := by
  have inside : node.number ∈ List.range' 1 nodes.length := by
    rw [← numbered]
    exact List.mem_map_of_mem there
  rw [List.mem_range'_1] at inside
  omega

theorem holds_node (holds : s.Holds nodes (nodes.flatMap Planted.rows))
    (numbered : nodes.map Planted.number = List.range' 1 nodes.length)
    (number : node.number = nodes.length + 1)
    (under : ∀ p, node.parent = some p → 0 < p ∧ p < node.number)
    (room : nodes.length + 1 < 2 ^ 63)
    (rowRoom : ((nodes ++ [node]).flatMap Planted.rows).length < 2 ^ 63) :
    (s.after node.requests).Holds (nodes ++ [node]) ((nodes ++ [node]).flatMap Planted.rows) := by
  have known : ∀ p, node.parent = some p → ∃ other ∈ nodes, other.number = p := by
    intro p same
    have bounds := under p same
    have inside : p ∈ nodes.map Planted.number := by
      rw [numbered, List.mem_range'_1]
      omega
    simpa using inside
  have fresh : ∀ row ∈ nodes.flatMap Planted.rows, row.owner = node.id →
      row.key ∉ node.label.params.map Prod.fst := by
    intro row stored same
    obtain ⟨other, there, inside⟩ := List.mem_flatMap.1 stored
    have ids : other.id = node.id := (Planted.owner_of_mem_rows inside).symm.trans same
    have bounds := number_le numbered there
    have numbers := (nodeId_inj (by omega) (by omega)).1 ids
    omega
  have rows : (nodes ++ [node]).flatMap Planted.rows =
      nodes.flatMap Planted.rows ++ node.rows := by
    simp
  rw [rows] at rowRoom ⊢
  rw [List.length_append, Planted.rows, List.length_map] at rowRoom
  exact (holds.append room number known).setParameters (by simp) node.label.distinct fresh rowRoom

theorem holds_nodes (holds : s.Holds nodes (nodes.flatMap Planted.rows))
    (numbered : nodes.map Planted.number = List.range' 1 nodes.length)
    (later : more.map Planted.number = List.range' (nodes.length + 1) more.length)
    (under : ∀ node ∈ more, ∀ p, node.parent = some p → 0 < p ∧ p < node.number)
    (room : (nodes ++ more).length < 2 ^ 63)
    (rowRoom : ((nodes ++ more).flatMap Planted.rows).length < 2 ^ 63) :
    (s.after (more.flatMap Planted.requests)).Holds (nodes ++ more)
      ((nodes ++ more).flatMap Planted.rows) := by
  induction more generalizing s nodes with
  | nil => simpa [after] using holds
  | cons node more ih =>
    rw [List.map_cons, List.length_cons, List.range'_succ, List.cons.injEq] at later
    obtain ⟨number, later⟩ := later
    -- The node joins those that are there, which are then one more.
    have regroup : nodes ++ node :: more = (nodes ++ [node]) ++ more := by simp
    rw [regroup] at room rowRoom ⊢
    rw [List.flatMap_append, List.length_append] at rowRoom
    rw [List.length_append, List.length_append, List.length_singleton] at room
    rw [List.flatMap_cons, after_append]
    have first := holds_node holds numbered number (under node List.mem_cons_self) (by omega)
      (by omega)
    refine ih first ?_ ?_ (fun other there => under other (List.mem_cons_of_mem _ there)) ?_ ?_
    · rw [List.map_append, numbered, List.length_append, List.length_singleton,
        List.range'_concat]
      simp [number, Nat.add_comm]
    · rw [List.length_append, List.length_singleton]
      exact later
    · rw [List.length_append, List.length_append, List.length_singleton]
      exact room
    · rw [List.flatMap_append, List.length_append]
      exact rowRoom

end Nodes

theorem size_parameters_le (history : List Request) :
    ((Store.empty.after history).parameters.size : Int) ≤
      (Store.empty.after history).parameters.last.toInt := by
  refine after_induction (P := fun s => (s.parameters.size : Int) ≤ s.parameters.last.toInt)
    (fun {s new t} change less => ?_) (by decide) history
  cases change with
  | added inserted known =>
    obtain ⟨above, rows, last⟩ := Table.insert_eq_some inserted
    simp only [Table.size, rows, last, List.length_append, List.length_singleton] at less ⊢
    omega
  | given change owners => simpa [Table.size, Table.map] using less
  | deleted id =>
    have fewer := List.length_filter_le
      (fun entry => !(s.subtree id).contains entry.2.owner) s.parameters.rows
    simp only [Table.size, remove, Table.filter] at less ⊢
    omega
  | _ => exact less

section Reading

variable {s : Store} {nodes : List Planted} {rows : List ParameterRow} {node : Planted}

theorem Holds.children_eq_filter (holds : s.Holds nodes rows) (parent : Option OpId) :
    s.children parent = s.allOperations.filter fun op => op.parent == parent := by
  refine children_eq (List.pairwise_filter.2 ?_) fun op => by simp
  refine holds.ordered.imp fun before here there => ?_
  rw [beq_iff_eq] at here there
  exact before (here.trans there.symm)

theorem Holds.map_id_children (holds : s.Holds nodes rows) (parent : Option OpId) :
    (s.children parent).map Operation.id =
      (nodes.filter fun node => node.parentId == parent).map Planted.id := by
  have stored : (s.allOperations.filter fun op => op.parent == parent).map Operation.id =
      ((s.allOperations.map fun op => (op.id, op.opcode, op.parent)).filter
        fun entry => entry.2.2 == parent).map Prod.fst := by
    rw [List.filter_map, List.map_map]
    rfl
  rw [holds.children_eq_filter, stored, holds.operations, List.filter_map, List.map_map]
  rfl

theorem filter_rows_of_ne {id : OpId} (other : node.id ≠ id) :
    node.rows.filter (fun row => row.owner == id) = [] := by
  refine List.filter_eq_nil_iff.2 fun row there => ?_
  rw [Planted.owner_of_mem_rows there, beq_iff_eq]
  exact other

theorem filter_rows (distinct : (nodes.map Planted.id).Nodup) (there : node ∈ nodes) :
    (nodes.flatMap Planted.rows).filter (fun row => row.owner == node.id) = node.rows := by
  induction nodes with
  | nil => cases there
  | cons first nodes ih =>
    obtain ⟨fresh, distinct⟩ := List.nodup_cons.1 distinct
    rw [List.flatMap_cons, List.filter_append]
    rcases List.mem_cons.1 there with rfl | there
    · have own : ∀ row ∈ node.rows, row.owner == node.id :=
        fun row inside => beq_iff_eq.2 (Planted.owner_of_mem_rows inside)
      have rest : (nodes.flatMap Planted.rows).filter (fun row => row.owner == node.id) = [] := by
        rw [List.filter_flatMap, List.flatMap_eq_nil_iff]
        intro other inside
        refine filter_rows_of_ne fun same => fresh ?_
        rw [← same]
        exact List.mem_map_of_mem inside
      rw [List.filter_eq_self.2 own, rest, List.append_nil]
    · have apart : first.id ≠ node.id := by
        intro same
        rw [same] at fresh
        exact fresh (List.mem_map_of_mem there)
      rw [filter_rows_of_ne apart, List.nil_append, ih distinct there]

theorem Holds.entries_parametersOf (holds : s.Holds nodes (nodes.flatMap Planted.rows))
    (distinct : (nodes.map Planted.id).Nodup) (there : node ∈ nodes) :
    (s.parametersOf node.id).entries =
      node.label.params.map fun param => (param.1, some param.2) := by
  have stored : s.parameterRows node.id =
      ((s.parameters.rows.map Prod.snd).filter fun row => row.owner == node.id).map
        fun row => (row.key, row.value) := by
    rw [List.filter_map, List.map_map]
    rfl
  have rows : s.parameterRows node.id =
      node.label.params.map fun param => (param.1, some param.2) := by
    rw [stored, holds.parameters, filter_rows distinct there, Planted.rows, List.map_map]
    rfl
  rw [parametersOf, rows]
  refine Parameters.entries_ofRows ?_
  rw [List.map_map]
  exact node.label.distinct

end Reading

end Store

namespace Outline

variable {outline : Outline}

theorem length_rows (parent : Option Nat) (first : Nat) (outline : Outline) :
    ((outline.plant parent first).flatMap Planted.rows).length = outline.parameterCount := by
  induction outline generalizing parent first with
  | nil => rfl
  | node label inner next ihInner ihNext =>
    rw [plant, List.flatMap_cons, List.flatMap_append, List.length_append, List.length_append,
      ihInner, ihNext, Planted.rows, List.length_map, parameterCount, Nat.add_assoc]

theorem numbered_nodes (outline : Outline) :
    outline.nodes.map Planted.number = List.range' 1 outline.nodes.length := by
  rw [nodes, map_number_plant, length_plant]

theorem parent_lt_number {node : Planted} (there : node ∈ outline.nodes) {p : Nat}
    (under : node.parent = some p) : 0 < p ∧ p < node.number := by
  rcases parent_of_mem_plant there with same | ⟨q, same, low, high⟩
  · cases same.symm.trans under
  · cases same.symm.trans under
    omega

/-- The store has the nodes of an outline as its operations, numbered from one on, each under its
parent and with its children in their order, and their parameters and no others. -/
structure IsStoredIn (outline : Outline) (s : Store) : Prop where
  numbers : (s.allOperations.map fun op => op.id.raw.toInt) =
    (List.range' 1 outline.size).map Int.ofNat
  operations : s.allOperations.map (fun op => (op.id, op.opcode, op.parent)) =
    outline.nodes.map fun node => (node.id, Opcode.ofTag node.label.tag, node.parentId)
  roots : (s.children none).map Operation.id = (outline.row 1).map nodeId
  below : ∀ node ∈ outline.nodes,
    (s.children (some node.id)).map Operation.id = node.children.map nodeId
  params : ∀ node ∈ outline.nodes, (s.parametersOf node.id).entries =
    node.label.params.map fun param => (param.1, some param.2)
  rest : s.parameters.size = outline.parameterCount

section Fitting

variable {node : Planted} {target : Option Nat} (fits : outline.size < 2 ^ 63)

include fits

theorem number_lt (there : node ∈ outline.nodes) : node.number < 2 ^ 63 := by
  have bounds := number_of_mem_plant there
  omega

theorem nodup_ids : (outline.nodes.map Planted.id).Nodup := by
  have ids : outline.nodes.map Planted.id = (outline.nodes.map Planted.number).map nodeId := by
    rw [List.map_map]
    rfl
  rw [ids]
  refine List.Nodup.map_on (fun m left n right same => ?_) ?_
  · obtain ⟨a, inside, rfl⟩ := List.mem_map.1 left
    obtain ⟨b, within, rfl⟩ := List.mem_map.1 right
    exact (nodeId_inj (number_lt fits inside) (number_lt fits within)).1 same
  · rw [numbered_nodes]
    exact List.nodup_range'

theorem map_toInt_ids : (outline.nodes.map fun node => node.id.raw.toInt) =
    (List.range' 1 outline.size).map Int.ofNat := by
  rw [← map_number_plant none, List.map_map]
  exact List.map_congr_left fun node there => toInt_nodeId (number_lt fits there)

theorem parentId_eq_iff (there : node ∈ outline.nodes)
    (small : ∀ q, target = some q → q < 2 ^ 63) :
    node.parentId = target.map nodeId ↔ node.parent = target := by
  have number := number_lt fits there
  unfold Planted.parentId
  cases above : node.parent with
  | none => cases target <;> simp
  | some p =>
    have less := (parent_lt_number there above).2
    cases target with
    | none => simp
    | some q => simpa using nodeId_inj (by omega) (small q rfl)

theorem map_id_filter (small : ∀ q, target = some q → q < 2 ^ 63) :
    (outline.nodes.filter fun node => node.parentId == target.map nodeId).map Planted.id =
      (under target outline.nodes).map nodeId := by
  rw [under, List.map_map]
  have same : outline.nodes.filter (fun node => node.parentId == target.map nodeId) =
      outline.nodes.filter fun node => node.parent == target := by
    refine List.filter_congr fun node there => ?_
    rw [Bool.eq_iff_iff, beq_iff_eq, beq_iff_eq]
    exact parentId_eq_iff fits there small
  rw [same]
  rfl

theorem holds_requests (paramFits : outline.parameterCount < 2 ^ 63) :
    (Store.empty.after outline.requests).Holds outline.nodes
      (outline.nodes.flatMap Planted.rows) := by
  have nodes : outline.nodes.length < 2 ^ 63 := by
    rw [Outline.nodes, length_plant]
    exact fits
  have rows : (outline.nodes.flatMap Planted.rows).length < 2 ^ 63 := by
    rw [Outline.nodes, length_rows]
    exact paramFits
  exact Store.holds_nodes Store.Holds.empty rfl (numbered_nodes outline)
    (fun node there p under => parent_lt_number there under) nodes rows

theorem isStoredIn_of_holds {s : Store}
    (holds : s.Holds outline.nodes (outline.nodes.flatMap Planted.rows)) :
    outline.IsStoredIn s := by
  have roots : ∀ n p : Nat, none = some p → p < n := fun _ _ same => nomatch same
  refine ⟨?_, holds.operations, ?_, fun node there => ?_, fun node there => ?_, ?_⟩
  · have ids := congrArg (List.map fun entry => entry.1.raw.toInt) holds.operations
    rw [List.map_map, List.map_map] at ids
    exact ids.trans (map_toInt_ids fits)
  · have top := holds.map_id_children ((none : Option Nat).map nodeId)
    rw [map_id_filter fits (roots _), nodes, under_top (roots _)] at top
    exact top
  · have small : ∀ q, some node.number = some q → q < 2 ^ 63 :=
      fun q same => Option.some.inj same ▸ number_lt fits there
    have below := holds.map_id_children ((some node.number).map nodeId)
    rw [map_id_filter fits small, nodes, under_inner (roots _) there] at below
    exact below
  · exact holds.entries_parametersOf (nodup_ids fits) there
  · rw [Table.size, ← List.length_map Prod.snd, holds.parameters, nodes, length_rows]

end Fitting

theorem store_session_script (outline : Outline) :
    (Editor.session .empty (Input.ofText outline.script)).store =
      Store.empty.after outline.requests := by
  rw [ofText_script, Editor.session_eq]
  exact Editor.storeAfter_of_requests .empty outline.readLine_lines

/-- No store has an identifier for more nodes. -/
theorem IsStoredIn.fits {s : Store} (stored : outline.IsStoredIn s) : outline.size < 2 ^ 63 := by
  by_cases some : outline.size = 0
  · omega
  · have last : (outline.size : Int) ∈ (List.range' 1 outline.size).map Int.ofNat :=
      List.mem_map_of_mem (List.mem_range'_1.2 (by omega))
    rw [← stored.numbers] at last
    obtain ⟨op, _, same⟩ := List.mem_map.1 last
    have bound := op.id.raw.toInt_lt
    omega

/-- An outline that is typed into an empty store is found there as it was given, as long as there
are keys for its nodes and for their parameters: the positive integers of 64 bits. -/
theorem session_script (outline : Outline) :
    let session := Editor.session .empty (Input.ofText outline.script)
    session.failure = none ∧ (outline.IsStoredIn session.store ↔
      outline.size < 2 ^ 63 ∧ outline.parameterCount < 2 ^ 63) := by
  intro session
  have store : session.store = Store.empty.after outline.requests := store_session_script outline
  refine ⟨?_, fun stored => ⟨stored.fits, ?_⟩, fun ⟨fits, paramFits⟩ => ?_⟩
  · have ends : session = _ :=
      (congrArg (Editor.session .empty) outline.ofText_script).trans (Editor.session_eq _ _)
    rw [ends]
  · have used := Store.size_parameters_le outline.requests
    rw [← store, stored.rest] at used
    have bound := session.store.parameters.last.toInt_lt
    omega
  · rw [store]
    exact isStoredIn_of_holds fits (holds_requests fits paramFits)

/-- A loop with two children before another operation; one value begins and ends with blanks. -/
theorem session_script_loop :
    let loop : Label := ⟨"while", [("condition", "  1 < 2 ")],
      by decide, by decide, by decide, by decide⟩
    let print : Label := ⟨"print", [("value", "x"), ("note", "é")],
      by decide, by decide, by decide, by decide⟩
    let leave : Label := ⟨"break", [], by decide, by decide, by decide, by decide⟩
    let outline : Outline := .node loop (.node print .nil (.node leave .nil .nil))
      (.node leave .nil .nil)
    let s := (Editor.session .empty (Input.ofText outline.script)).store
    outline.script = "add root while\nset 1 condition   1 < 2 \nadd 1 print\n" ++
        "set 2 value x\nset 2 note é\nadd 1 break\nadd root break\n" ∧
      (s.children none).map Operation.id = [⟨1⟩, ⟨4⟩] ∧
      (s.children (some ⟨1⟩)).map Operation.id = [⟨2⟩, ⟨3⟩] ∧
      (s.parametersOf ⟨1⟩).entries = [("condition", some "  1 < 2 ")] := by
  intro loop print leave outline s
  have fits : outline.size < 2 ^ 63 ∧ outline.parameterCount < 2 ^ 63 := by decide
  have stored : outline.IsStoredIn s := (session_script outline).2.2 fits
  have below := stored.below ⟨1, none, loop, [2, 3]⟩ List.mem_cons_self
  have params := stored.params ⟨1, none, loop, [2, 3]⟩ List.mem_cons_self
  exact ⟨by decide +kernel, stored.roots, below, params⟩

end Outline

end OpTree
