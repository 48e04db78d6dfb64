import OpTree.Proofs.Refusals
import Mathlib.Data.List.Induction

set_option autoImplicit false

namespace OpTree

inductive ParameterCall where
  | set (key value : String)
  | add (key : String) (value : Option String)
  deriving DecidableEq, Repr

namespace ParameterCall

/-- Gives a key a text in the place that it has, or else at the end. -/
def put (key : String) (value : Option String) :
    List (String × Option String) → List (String × Option String)
  | [] => [(key, value)]
  | entry :: rest => if entry.1 = key then (key, value) :: rest else entry :: put key value rest

/-- What a call does to an ordered map. A key without a text is there as well. -/
def apply (entries : List (String × Option String)) : ParameterCall → List (String × Option String)
  | set key value => put key (some value) entries
  | add key value => if key ∈ entries.map Prod.fst then entries else entries ++ [(key, value)]

def replay (entries : List (String × Option String)) (calls : List ParameterCall) :
    List (String × Option String) :=
  calls.foldl apply entries

variable {key : String} {value other : Option String} {entries more : List (String × Option String)}

theorem apply_if (own : Prop) [Decidable own] (call : ParameterCall)
    (entries : List (String × Option String)) : (if own then call.apply entries else entries) =
      replay entries (if own then some call else none).toList := by
  split <;> rfl

theorem put_of_notMem (absent : key ∉ entries.map Prod.fst) :
    put key value entries = entries ++ [(key, value)] := by
  induction entries with
  | nil => rfl
  | cons entry rest ih =>
    rw [List.map_cons, List.mem_cons, not_or] at absent
    rw [put, if_neg (Ne.symm absent.1), ih absent.2, List.cons_append]

theorem put_append_of_mem (there : key ∈ entries.map Prod.fst) :
    put key value (entries ++ more) = put key value entries ++ more := by
  induction entries with
  | nil => cases there
  | cons entry rest ih =>
    rw [List.cons_append, put, put]
    by_cases here : entry.1 = key
    · rw [if_pos here, if_pos here, List.cons_append]
    · have later : key ∈ rest.map Prod.fst := by
        rw [List.map_cons, List.mem_cons] at there
        exact there.resolve_left (Ne.symm here)
      rw [if_neg here, if_neg here, ih later, List.cons_append]

theorem put_append_of_notMem (absent : key ∉ entries.map Prod.fst) :
    put key value (entries ++ more) = entries ++ put key value more := by
  induction entries with
  | nil => rfl
  | cons entry rest ih =>
    rw [List.map_cons, List.mem_cons, not_or] at absent
    rw [List.cons_append, put, if_neg (Ne.symm absent.1), ih absent.2, List.cons_append]

theorem map_fst_put (there : key ∈ entries.map Prod.fst) :
    (put key value entries).map Prod.fst = entries.map Prod.fst := by
  induction entries with
  | nil => cases there
  | cons entry rest ih =>
    rw [put]
    by_cases here : entry.1 = key
    · rw [if_pos here, List.map_cons, List.map_cons, here]
    · have later : key ∈ rest.map Prod.fst := by
        rw [List.map_cons, List.mem_cons] at there
        exact there.resolve_left (Ne.symm here)
      rw [if_neg here, List.map_cons, List.map_cons, ih later]

/-- Where a key is, giving it a text and adding another entry can come in either order. -/
theorem put_add_comm (there : key ∈ entries.map Prod.fst) (entry : String × Option String) :
    put key value ((add entry.1 entry.2).apply entries) =
      (add entry.1 entry.2).apply (put key value entries) := by
  simp only [apply, map_fst_put there]
  by_cases known : entry.1 ∈ entries.map Prod.fst
  · rw [if_pos known, if_pos known]
  · rw [if_neg known, if_neg known, put_append_of_mem there]

theorem find?_put (key : String) (value : Option String) (entries : List (String × Option String)) :
    (put key value entries).find? (fun entry => entry.1 == key) = some (key, value) := by
  induction entries with
  | nil => simp [put]
  | cons entry rest ih =>
    rw [put]
    by_cases here : entry.1 = key
    · simp [here]
    · simp [here, ih]

end ParameterCall

namespace Parameters

open ParameterCall

variable {key : String} {rows before later : List (String × Option String)}

theorem entries_push_eq (p : Parameters) (key : String) (value : Option String) :
    (p.push key value).entries = (add key value).apply p.entries := by
  rw [push, apply]
  by_cases known : p.contains key
  · rw [dif_pos known, if_pos (contains_iff_mem.1 known)]
  · rw [dif_neg known, if_neg fun there => known (contains_iff_mem.2 there)]

theorem entries_ofRows_append (rows : List (String × Option String))
    (row : String × Option String) :
    (ofRows (rows ++ [row])).entries = (add row.1 row.2).apply (ofRows rows).entries := by
  rw [← entries_push_eq, ofRows, List.foldl_append]
  rfl

theorem mem_ofRows : key ∈ (ofRows rows).entries.map Prod.fst ↔ key ∈ rows.map Prod.fst := by
  induction rows using List.reverseRecOn with
  | nil => rfl
  | append_singleton rows row ih =>
    rw [entries_ofRows_append, apply, List.map_append, List.mem_append, ← ih]
    by_cases known : row.1 ∈ (ofRows rows).entries.map Prod.fst
    · rw [if_pos known]
      refine ⟨.inl, fun there => there.elim id fun last => ?_⟩
      rw [List.map_singleton, List.mem_singleton] at last
      rwa [last]
    · rw [if_neg known, List.map_append, List.mem_append]

/-- A text given to the first row of a key is what is read there, whatever rows come later. -/
theorem entries_ofRows_replace (first : key ∉ before.map Prod.fst) (old new : Option String) :
    (ofRows (before ++ (key, new) :: later)).entries =
      put key new (ofRows (before ++ (key, old) :: later)).entries := by
  induction later using List.reverseRecOn with
  | nil =>
    have absent : key ∉ (ofRows before).entries.map Prod.fst :=
      fun there => first (mem_ofRows.1 there)
    rw [entries_ofRows_append, entries_ofRows_append, apply, if_neg absent, apply, if_neg absent,
      put_append_of_notMem absent]
    simp [put]
  | append_singleton later row ih =>
    have there : key ∈ (ofRows (before ++ (key, old) :: later)).entries.map Prod.fst :=
      mem_ofRows.2 (by simp)
    rw [← List.cons_append, ← List.append_assoc, entries_ofRows_append, ← List.cons_append,
      ← List.append_assoc, entries_ofRows_append, ih, put_add_comm there]

end Parameters

def Request.parameterCall? (id : OpId) : Request → Option ParameterCall
  | setParameter owner key value => if owner = id then some (.set key value) else none
  | addParameter owner key value => if owner = id then some (.add key value) else none
  | _ => none

namespace Table

variable {Row : Type} {t : Table Row} {before later : List (Int64 × Row)} {entry : Int64 × Row}

theorem map_rows_of_key (split : t.rows = before ++ entry :: later) (change : Row → Row) :
    (t.map fun key row => if key = entry.1 then change row else row).rows =
      before ++ (entry.1, change entry.2) :: later := by
  have sorted := t.ascending
  rw [split, List.pairwise_append, List.pairwise_cons] at sorted
  have others : ∀ other ∈ before ++ later, other.1 ≠ entry.1 := by
    intro other there same
    rcases List.mem_append.1 there with there | there
    · have less := sorted.2.2 other there entry List.mem_cons_self
      rw [same] at less
      omega
    · have less := sorted.2.1.1 other there
      rw [same] at less
      omega
  have kept : ∀ rows : List (Int64 × Row), (∀ other ∈ rows, other ∈ before ++ later) →
      rows.map (fun other => (other.1, if other.1 = entry.1 then change other.2 else other.2)) =
        rows := by
    intro rows inside
    refine (List.map_congr_left fun other there => ?_).trans (List.map_id rows)
    rw [if_neg (others other (inside other there))]
    rfl
  simp only [Table.map, split, List.map_append, List.map_cons]
  rw [kept before fun other there => List.mem_append_left _ there,
    kept later fun other there => List.mem_append_right _ there, if_pos trivial]

end Table

namespace Store

open ParameterCall

variable {s t : Store} {id owner : OpId} {key : String}

/-- The calls of a history that gave an operation a parameter, in order. -/
def callsTo (s : Store) (id : OpId) (history : List Request) : List ParameterCall :=
  ((history.zip (s.answers history)).filter fun served => served.2 = .stored).filterMap
    fun served => served.1.parameterCall? id

def Spares (s : Store) (id : OpId) : List Request → Prop
  | [] => True
  | request :: rest =>
    (s.contains id → (s.serve request).2.contains id) ∧ (s.serve request).2.Spares id rest

theorem callsTo_cons (s : Store) (id : OpId) (request : Request) (rest : List Request) :
    s.callsTo id (request :: rest) =
      s.callsTo id [request] ++ (s.serve request).2.callsTo id rest := by
  simp only [callsTo, answers, List.zip_cons_cons, List.zip_nil_left, List.filter_cons,
    List.filter_nil]
  split
  · rw [← List.filterMap_append, List.singleton_append]
  · rfl

theorem parameterRows_insert {row : ParameterRow} {number : Int64}
    {parameters : Table ParameterRow}
    (inserted : s.parameters.insert row = some (number, parameters)) (id : OpId) :
    ({ s with parameters } : Store).parameterRows id =
      s.parameterRows id ++ if row.owner = id then [(row.key, row.value)] else [] := by
  rw [parameterRows, (Table.insert_eq_some inserted).2.1, List.filter_append, List.map_append]
  by_cases own : row.owner = id
  · simp [parameterRows, own]
  · simp [parameterRows, own]

theorem entries_insert {row : ParameterRow} (stored : s.insertParameter row = .ok t) (id : OpId) :
    (t.parametersOf id).entries =
      if row.owner = id then (add row.key row.value).apply (s.parametersOf id).entries
      else (s.parametersOf id).entries := by
  unfold insertParameter at stored
  split at stored
  · cases stored
  · rename_i number parameters inserted
    cases stored
    rw [parametersOf, parameterRows_insert inserted]
    by_cases own : row.owner = id
    · rw [if_pos own, if_pos own, Parameters.entries_ofRows_append]
      rfl
    · rw [if_neg own, if_neg own, List.append_nil]
      rfl

theorem entries_update {row : Int64} (first : s.firstParameter? owner key = some row)
    (value : Option String) (id : OpId) :
    (({ s with parameters := s.parameters.map fun number parameter =>
          if number = row then { parameter with value } else parameter } : Store).parametersOf
        id).entries =
      if owner = id then put key value (s.parametersOf id).entries
      else (s.parametersOf id).entries := by
  obtain ⟨entry, found, rfl⟩ := Option.map_eq_some_iff.1 first
  obtain ⟨here, before, later, split, others⟩ := List.find?_eq_some_iff_append.1 found
  obtain ⟨rfl, rfl⟩ : entry.2.owner = owner ∧ entry.2.key = key := by simpa using here
  rw [parametersOf, parameterRows, Table.map_rows_of_key split fun row => { row with value },
    parametersOf, parameterRows, split]
  by_cases own : entry.2.owner = id
  · have absent : entry.2.key ∉ ((before.filter fun other => other.2.owner == id).map
        fun other => (other.2.key, other.2.value)).map Prod.fst := by
      simp only [List.map_map, List.mem_map, List.mem_filter, Function.comp]
      rintro ⟨other, ⟨there, same⟩, keys⟩
      have differs := others other there
      simp [keys, own, beq_iff_eq.1 same] at differs
    simp only [List.filter_append, List.map_append, List.filter_cons, own, beq_self_eq_true,
      if_true, List.map_cons]
    exact Parameters.entries_ofRows_replace absent entry.2.value value
  · have skipped : (entry.2.owner == id) = false := by simpa using own
    simp only [List.filter_append, List.filter_cons, skipped, own, if_false, Bool.false_eq_true]

theorem entries_setParameter {value : String} (stored : s.setParameter owner key value = .ok t)
    (id : OpId) : (t.parametersOf id).entries =
      if owner = id then put key (some value) (s.parametersOf id).entries
      else (s.parametersOf id).entries := by
  obtain ⟨_, _, rest⟩ := bind_eq_ok.1 stored
  split at rest
  · rename_i none
    have inserted := entries_insert rest id
    by_cases own : owner = id
    · subst own
      have absent : key ∉ (s.parametersOf owner).entries.map Prod.fst := by
        rw [parametersOf, Parameters.mem_ofRows, parameterRows]
        simp only [List.map_map, List.mem_map, List.mem_filter, Function.comp]
        rintro ⟨entry, ⟨there, same⟩, rfl⟩
        exact firstParameter?_eq_none.1 none entry there ⟨beq_iff_eq.1 same, rfl⟩
      rw [if_pos rfl, apply, if_neg absent] at inserted
      rw [if_pos rfl, put_of_notMem absent, inserted]
    · rwa [if_neg own] at inserted ⊢
  · rename_i row first
    cases rest
    exact entries_update first (some value) id

theorem entries_addParameter {value : Option String}
    (stored : s.addParameter owner key value = .ok t) (id : OpId) :
    (t.parametersOf id).entries =
      if owner = id then (add key value).apply (s.parametersOf id).entries
      else (s.parametersOf id).entries := by
  obtain ⟨_, _, inserted⟩ := bind_eq_ok.1 stored
  exact entries_insert inserted id

theorem operations_insertParameter {row : ParameterRow} (stored : s.insertParameter row = .ok t) :
    t.operations = s.operations := by
  unfold insertParameter at stored
  split at stored
  · cases stored
  · cases stored
    rfl

theorem operations_addParameter (s : Store) (owner : OpId) (key : String) (value : Option String) :
    (s.serve (.addParameter owner key value)).2.operations = s.operations := by
  cases attempted : s.attempt (.addParameter owner key value) with
  | error error => rw [serve, attempted]
  | ok served =>
    rw [serve, attempted]
    obtain ⟨t, stored, rfl⟩ := map_eq_ok.1 attempted
    obtain ⟨_, _, inserted⟩ := bind_eq_ok.1 stored
    exact operations_insertParameter inserted

theorem operations_setParameter (s : Store) (owner : OpId) (key value : String) :
    (s.serve (.setParameter owner key value)).2.operations = s.operations := by
  cases attempted : s.attempt (.setParameter owner key value) with
  | error error => rw [serve, attempted]
  | ok served =>
    rw [serve, attempted]
    obtain ⟨t, stored, rfl⟩ := map_eq_ok.1 attempted
    obtain ⟨_, _, rest⟩ := bind_eq_ok.1 stored
    split at rest
    · exact operations_insertParameter rest
    · cases rest
      rfl

theorem kept_of_operations (same : t.operations = s.operations) (there : s.contains id) :
    t.contains id := by
  rwa [contains, same]

theorem notMem_subtree_of_kept {d : OpId} (known : s.contains d)
    (kept : s.contains id → (s.remove (s.subtree d)).contains id) : id ∉ s.subtree d := by
  intro inside
  obtain ⟨top, stored, rfl⟩ := contains_iff.1 known
  obtain ⟨op, there, rfl, _⟩ := reaches_of_mem_subtreeTo stored inside
  obtain ⟨left, remains, same⟩ := contains_iff.1 (kept (contains_of_mem there))
  obtain ⟨_, outside⟩ := mem_allOperations_remove.1 remains
  rw [same] at outside
  exact outside inside

theorem callsTo_singleton (s : Store) (id : OpId) (request : Request) :
    s.callsTo id [request] =
      if (s.serve request).1 = .stored then (request.parameterCall? id).toList else [] := by
  simp only [callsTo, answers, List.zip_cons_cons, List.zip_nil_left, List.filter_cons,
    List.filter_nil, decide_eq_true_eq]
  split
  · cases called : request.parameterCall? id <;> simp [called]
  · rfl

theorem entries_serve {request : Request}
    (kept : s.contains id → (s.serve request).2.contains id) :
    ((s.serve request).2.parametersOf id).entries =
      replay (s.parametersOf id).entries (s.callsTo id [request]) := by
  rw [callsTo_singleton]
  cases attempted : s.attempt request with
  | error error =>
    have same : s.serve request = (.failed error, s) := by rw [serve, attempted]
    rw [same, if_neg (by simp)]
    rfl
  | ok served =>
    have same : s.serve request = served := by rw [serve, attempted]
    rw [same] at kept ⊢
    cases request with
    | setParameter owner key value =>
      obtain ⟨t, stored, rfl⟩ := map_eq_ok.1 attempted
      rw [if_pos rfl, entries_setParameter stored, Request.parameterCall?]
      exact apply_if (owner = id) (.set key value) _
    | addParameter owner key value =>
      obtain ⟨t, stored, rfl⟩ := map_eq_ok.1 attempted
      rw [if_pos rfl, entries_addParameter stored, Request.parameterCall?]
      exact apply_if (owner = id) (.add key value) _
    | create opcode parent sequence =>
      obtain ⟨⟨new, t⟩, made, rfl⟩ := map_eq_ok.1 attempted
      cases change_create made
      rfl
    | append opcode parent =>
      obtain ⟨⟨new, t⟩, made, rfl⟩ := map_eq_ok.1 attempted
      cases change_append made
      rfl
    | delete d =>
      obtain ⟨⟨count, t⟩, left, rfl⟩ := map_eq_ok.1 attempted
      obtain ⟨_, known, removed⟩ := bind_eq_ok.1 left
      cases removed
      rw [if_neg (by simp)]
      have outside := notMem_subtree_of_kept (require_eq_ok.1 known) kept
      exact congrArg Parameters.entries (parametersOf_remove outside)
    | resequence parent =>
      obtain ⟨⟨count, t⟩, done, rfl⟩ := map_eq_ok.1 attempted
      obtain ⟨_, _, numbered⟩ := bind_eq_ok.1 done
      cases numbered
      rfl
    | reopen =>
      have reopened : s.reopen = served := Except.ok.inj attempted
      rw [reopen_eq] at reopened
      subst reopened
      rfl

theorem entries_after (s : Store) (id : OpId) (history : List Request)
    (spares : s.Spares id history) : ((s.after history).parametersOf id).entries =
      replay (s.parametersOf id).entries (s.callsTo id history) := by
  induction history generalizing s with
  | nil => rfl
  | cons request rest ih =>
    obtain ⟨kept, spares⟩ := spares
    rw [callsTo_cons, replay, List.foldl_append, after, ih _ spares, entries_serve kept]
    rfl

/-- What is read of an operation is the ordered map that the calls addressed to it have built up.
So a text is read right after it was given, a row under a key that is there already never shows up
later, and what is addressed to other operations changes nothing. -/
theorem parameters_replayed (s : Store) (id : OpId) (history : List Request)
    (spares : s.Spares id history) :
    let now := s.after history
    (now.parametersOf id).entries = replay (s.parametersOf id).entries (s.callsTo id history) ∧
      (∀ key value, (now.serve (.setParameter id key value)).1 = .stored →
        ((now.serve (.setParameter id key value)).2.parametersOf id).get? key = some value) ∧
      (∀ key value, (now.parametersOf id).contains key →
        let hidden := (now.serve (.addParameter id key value)).2
        ∀ later, hidden.Spares id later → ((hidden.after later).parametersOf id).entries =
          replay (now.parametersOf id).entries (hidden.callsTo id later)) ∧
      (∀ request, request.parameterCall? id = none → now.Spares id [request] →
        ((now.serve request).2.parametersOf id).entries = (now.parametersOf id).entries) := by
  intro now
  refine ⟨entries_after s id history spares, fun key value stored => ?_, ?_,
    fun request other kept => ?_⟩
  · have kept : now.contains id → (now.serve (.setParameter id key value)).2.contains id :=
      kept_of_operations (operations_setParameter now id key value)
    have given := entries_serve kept
    rw [callsTo_singleton, if_pos stored, Request.parameterCall?, if_pos rfl] at given
    rw [Parameters.get?, given]
    exact congrArg (Option.bind · Prod.snd) (find?_put key (some value) _)
  · intro key value known hidden later spares
    have kept : now.contains id → (now.serve (.addParameter id key value)).2.contains id :=
      kept_of_operations (operations_addParameter now id key value)
    have given := entries_serve kept
    have unchanged : (hidden.parametersOf id).entries = (now.parametersOf id).entries := by
      rw [callsTo_singleton, Request.parameterCall?, if_pos rfl] at given
      split at given
      · exact given.trans (if_pos (Parameters.contains_iff_mem.1 known))
      · exact given
    rw [entries_after hidden id later spares, unchanged]
  · rw [entries_serve kept.1, callsTo_singleton, other]
    split <;> rfl

/-- Rows without a text count, rows that are hidden stay hidden, and the other operation goes. -/
theorem parameters_replayed_hidden :
    let history : List Request := [.append .print none, .append .print none,
      .addParameter ⟨1⟩ "note" none, .addParameter ⟨1⟩ "value" (some "a"),
      .addParameter ⟨1⟩ "note" (some "b"), .setParameter ⟨2⟩ "note" "c",
      .setParameter ⟨1⟩ "note" "d", .delete ⟨2⟩, .setParameter ⟨2⟩ "value" "e",
      .setParameter ⟨1⟩ "value" "f"]
    let s := Store.empty.after history
    Store.empty.Spares ⟨1⟩ history ∧ s.parameters.size = 3 ∧
      Store.empty.callsTo ⟨1⟩ history = [.add "note" none, .add "value" (some "a"),
        .add "note" (some "b"), .set "note" "d", .set "value" "f"] ∧
      (s.parametersOf ⟨1⟩).entries = [("note", some "d"), ("value", some "f")] := by
  intro history s
  have spares : Store.empty.Spares ⟨1⟩ history := by
    simp only [history, Spares]
    decide
  have calls : Store.empty.callsTo ⟨1⟩ history = [.add "note" none, .add "value" (some "a"),
      .add "note" (some "b"), .set "note" "d", .set "value" "f"] := by decide
  refine ⟨spares, by decide, calls, ?_⟩
  rw [(parameters_replayed .empty ⟨1⟩ history spares).1, calls]
  decide

end Store

end OpTree
