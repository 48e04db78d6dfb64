import OpTree.Proofs.Ways

set_option autoImplicit false

namespace OpTree

/-- How a loop goes whose rounds all start from one state: it visits items from the left and does
what their rounds do, up to the first round that does not pass. -/
structure Visits {α : Type} (returns : Returns) (round : α → Outcome Exit) (items visited : List α)
    (o : Outcome Exit) : Prop where
  inOrder : visited <+: items
  events : o.events = visited.flatMap fun item => (round item).events
  ending : (visited = items ∧ (∀ item ∈ visited, returns.Passes (round item).ending) ∧
      o.ending = .done (.normal none)) ∨
    ∃ before last, visited = before ++ [last] ∧
      (∀ item ∈ before, returns.Passes (round item).ending) ∧
      ¬ returns.Passes (round last).ending ∧ o.ending = (round last).ending

theorem Returns.passes_iff {returns : Returns} {ending : Ending Exit} : returns.Passes ending ↔
    ∃ exit, ending = .done exit ∧ (returns = .unwind → ∃ value, exit = .normal value) := by
  cases ending with
  | done exit => cases returns <;> cases exit <;> simp [Passes, escaping]
  | failed error => simp [Passes]
  | unfinished => simp [Passes]

theorem join_singletons (text : List Char) :
    String.join (text.map String.singleton) = String.ofList text := by
  rw [← String.toList_inj, String.toList_join, String.toList_ofList, List.flatMap_map]
  simp only [String.toList_singleton, List.flatMap_singleton']

namespace Visits

variable {α : Type} {returns : Returns} {round : α → Outcome Exit} {items visited : List α}
  {item : α} {o : Outcome Exit}

theorem nil (state : RunState) : Visits returns round [] []
    { ending := .done (.normal none), state, events := [] } :=
  ⟨List.prefix_refl [], rfl, .inl ⟨rfl, by simp, rfl⟩⟩

theorem last (stopped : ¬ returns.Passes (round item).ending) (rest : List α) :
    Visits returns round (item :: rest) [item] (round item) where
  inOrder := by simp
  events := by simp
  ending := .inr ⟨[], item, rfl, by simp, stopped, rfl⟩

theorem cons (passes : returns.Passes (round item).ending)
    (later : Visits returns round items visited o) :
    Visits returns round (item :: items) (item :: visited) (o.after (round item).events) where
  inOrder := (List.prefix_cons_inj item).2 later.inOrder
  events := by simp [Outcome.after, later.events]
  ending := by
    rcases later.ending with ⟨all, passed, ended⟩ | ⟨before, last, split, passed, stopped, ended⟩
    · exact .inl ⟨by rw [all], List.forall_mem_cons.2 ⟨passes, passed⟩, ended⟩
    · exact .inr ⟨item :: before, last, by rw [split]; rfl, List.forall_mem_cons.2 ⟨passes, passed⟩,
        stopped, ended⟩

end Visits

namespace Execution

open Exec

variable {store : Store} {settings : Settings} {s : RunState}

theorem visits_forEach {α : Type} {round : Value → Exec Exit} (value : α → Value)
    (kept : ∀ item, ((round item).run s).state = s) (items : List α) :
    ∃ visited, Visits settings.returns (fun item => (round (value item)).run s) items visited
      ((forEach settings round (items.map value)).run s) := by
  induction items with
  | nil => exact ⟨[], .nil s⟩
  | cons item rest ih =>
    rw [List.map_cons]
    by_cases passes : settings.returns.Passes ((round (value item)).run s).ending
    · -- The round has left the state as it was, so the rest of the loop starts from the same one.
      obtain ⟨visited, later⟩ := ih
      have whole : (forEach settings round (value item :: rest.map value)).run s =
          ((forEach settings round (rest.map value)).run s).after
            ((round (value item)).run s).events :=
        run_round_of_passes (kept (value item)) passes _
      rw [whole]
      exact ⟨item :: visited, .cons passes later⟩
    · have whole : (forEach settings round (value item :: rest.map value)).run s =
          (round (value item)).run s := run_round_of_not_passes passes _
      rw [whole]
      refine ⟨[item], ?_⟩
      apply Visits.last
      exact passes

variable {slot : Slot} {op : Operation} {iterator raw text : String} {run : Runner}

theorem run_forLoop {params : Parameters} (named : params.get? "iterator" = some iterator)
    (given : params.get? "collection" = some raw)
    (coerced : s.scopes.coerce slot raw = .ok (.str text)) :
    (forLoop store settings run slot op params).run s =
      (forEach settings (fun item => body store settings run op.id slot [(iterator, item)])
        (text.toList.map fun c => .str (String.singleton c))).run s := by
  rw [forLoop, run_required_bind named, run_required_bind given, run_coerce_bind coerced]
  rfl

end Execution

open Execution

/-- A loop over a text visits its characters from the left, and each round does what the body does
alone: from the state before the loop, in a new scope that binds nothing but the iterator, to that
character. It goes on as long as a round ends well and, where a `return` ends more than its own
block, reaches none, and it ends as the first round does that is not so, or else after all
characters and without a value. -/
theorem execute_for_rounds (store : Store) (settings : Settings) {op : Operation}
    (opcode : op.opcode = .forLoop) {slot : Slot} {s : RunState} (live : slot < s.scopes.depth)
    {iterator raw text : String}
    (named : (store.parametersOf op.id).get? "iterator" = some iterator)
    (given : (store.parametersOf op.id).get? "collection" = some raw)
    (coerced : s.scopes.coerce slot raw = .ok (.str text)) (fuel : Nat) :
    let loop := (execute store settings (fuel + 1) slot op).run s
    let start (c : Char) : RunState := { s with
      scopes := (s.scopes.openChild slot).bind s.scopes.depth iterator
        (.str (String.singleton c)) }
    let round (c : Char) :=
      (runBlock store settings fuel s.scopes.depth (some op.id)).run (start c)
    let passes (c : Char) := ∃ exit, (round c).ending = .done exit ∧
      (settings.returns = .unwind → ∃ value, exit = .normal value)
    ∃ visited rest, text.toList = visited ++ rest ∧ loop.state = s ∧
      loop.lines = visited.flatMap (fun c => (round c).lines) ∧
      loop.events = .started op slot s.calls :: visited.flatMap (fun c =>
        .bound s.scopes.depth iterator (.str (String.singleton c)) :: (round c).events) ∧
      ((∀ c ∈ visited, passes c) ∧ rest = [] ∧ String.join (visited.map String.singleton) = text ∧
          loop.ending = .done (.normal none) ∨
        ∃ before last, visited = before ++ [last] ∧ (∀ c ∈ before, passes c) ∧ ¬ passes last ∧
          loop.ending = (round last).ending) := by
  intro loop start round passes
  let single (c : Char) : Outcome Exit := (body store settings (execute store settings fuel) op.id
    slot [(iterator, .str (String.singleton c))]).run s
  have confined := execute_confined store settings fuel
  have ran : loop = ((forLoop store settings (execute store settings fuel) slot op
      (store.parametersOf op.id)).run s).after [.started op slot s.calls] := by
    simp only [loop, run_execute_succ, perform, opcode]
  have same : loop.state = s := by
    rw [ran]
    exact keeps_forLoop store settings confined op (store.parametersOf op.id) s live
  obtain ⟨visited, visits⟩ : ∃ visited, Visits settings.returns single text.toList visited
      ((forLoop store settings (execute store settings fuel) slot op
        (store.parametersOf op.id)).run s) := by
    rw [run_forLoop named given coerced]
    exact visits_forEach (fun c => .str (String.singleton c))
      (fun item => keeps_body store settings confined op.id [(iterator, item)] s live) _
  have ending (c : Char) : (single c).ending = (round c).ending := by
    simp only [single, run_body]
    rfl
  have events (c : Char) : (single c).events =
      .bound s.scopes.depth iterator (.str (String.singleton c)) :: (round c).events := by
    simp only [single, run_body]
    rfl
  have passing (c : Char) : passes c ↔ settings.returns.Passes (single c).ending := by
    rw [ending, Returns.passes_iff]
  obtain ⟨rest, whole⟩ := visits.inOrder
  have trace : loop.events = .started op slot s.calls :: visited.flatMap (fun c =>
      .bound s.scopes.depth iterator (.str (String.singleton c)) :: (round c).events) := by
    rw [ran]
    simp only [Outcome.after, visits.events, events]
    rfl
  refine ⟨visited, rest, whole.symm, same, ?_, trace, ?_⟩
  · rw [Outcome.lines, trace, List.filterMap_cons_none rfl, List.filterMap_flatMap]
    rfl
  · rcases visits.ending with ⟨all, passed, ended⟩ | ⟨before, last, split, passed, stopped, ended⟩
    · refine .inl ⟨fun c there => (passing c).2 (passed c there), ?_, ?_, ?_⟩
      · rwa [all, List.append_right_eq_self] at whole
      · rw [all, join_singletons, String.ofList_toList]
      · rw [ran]
        exact ended
    · refine .inr ⟨before, last, split, fun c there => (passing c).2 (passed c there), ?_, ?_⟩
      · rwa [passing]
      · rw [ran, ← ending]
        exact ended

/-- The body binds the iterator anew, prints it and returns at one character. Where a `return` ends
only its block the loop goes on to the end of the text, and otherwise it ends there. -/
theorem execute_for_rounds_return :
    let store : Store := {
      operations := (Table.ofRows? [(1, ⟨"for", none, 1⟩), (2, ⟨"print", some ⟨1⟩, 1⟩),
        (3, ⟨"eq", some ⟨1⟩, 2⟩), (4, ⟨"assign", some ⟨1⟩, 3⟩), (5, ⟨"if", some ⟨1⟩, 4⟩),
        (6, ⟨"return", some ⟨5⟩, 1⟩)] 6).getD .empty
      parameters := (Table.ofRows? [(1, ⟨⟨1⟩, "iterator", some "c"⟩),
        (2, ⟨⟨1⟩, "collection", some "$word"⟩), (3, ⟨⟨2⟩, "value", some "$c"⟩),
        (4, ⟨⟨3⟩, "left", some "$c"⟩), (5, ⟨⟨3⟩, "right", some "b"⟩),
        (6, ⟨⟨3⟩, "result", some "found"⟩), (7, ⟨⟨4⟩, "var_name", some "c"⟩),
        (8, ⟨⟨4⟩, "value", some "$word"⟩), (9, ⟨⟨5⟩, "condition", some "$found"⟩),
        (10, ⟨⟨6⟩, "value", some "$c"⟩)] 10).getD .empty }
    let op : Operation := ⟨⟨1⟩, .forLoop, none, 1⟩
    let s : RunState :=
      { scopes := Scopes.initial.bind Scopes.root "word" (.str "abc"), calls := 0 }
    let loop (returns : Returns) := (execute store ⟨returns, none⟩ 3 Scopes.root op).run s
    Scopes.root < s.scopes.depth ∧ (loop .shallow).lines = ["a", "b", "c"] ∧
      (loop .shallow).ending = .done (.normal none) ∧ (loop .unwind).lines = ["a", "b"] ∧
      (loop .unwind).ending = .done (.returned (some (.str "abc"))) ∧ (loop .unwind).state = s := by
  intro store op s loop
  have live : Scopes.root < s.scopes.depth := by decide
  have named : (store.parametersOf op.id).get? "iterator" = some "c" := by decide
  have given : (store.parametersOf op.id).get? "collection" = some "$word" := by decide
  have coerced : s.scopes.coerce Scopes.root "$word" = .ok (.str "abc") := by decide
  obtain ⟨_, _, _, same, _⟩ :=
    execute_for_rounds store ⟨.unwind, none⟩ (rfl : op.opcode = .forLoop) live named given coerced 2
  exact ⟨live, by decide, by decide, by decide, by decide, same⟩

end OpTree
