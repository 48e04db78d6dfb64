import OpTree.Proofs.Restoration

set_option autoImplicit false

namespace OpTree

/-- Whether a round that comes to this end is the last one of its loop. -/
def Returns.Stops (returns : Returns) : Ending Exit → Prop
  | .done exit => (returns.escaping exit).isSome
  | .failed _ => True
  | .unfinished => False

theorem Returns.stops_iff {returns : Returns} {ending : Ending Exit} : returns.Stops ending ↔
    (∃ error, ending = .failed error) ∨
      returns = .unwind ∧ ∃ value, ending = .done (.returned value) := by
  cases ending with
  | done exit => cases returns <;> cases exit <;> simp [Stops, escaping]
  | failed error => simp [Stops]
  | unfinished => simp [Stops]

/-- Whether a loop goes on after a round that comes to this end. -/
def Returns.Passes (returns : Returns) : Ending Exit → Prop
  | .done exit => returns.escaping exit = none
  | _ => False

theorem Returns.not_passes_iff {returns : Returns} {ending : Ending Exit} :
    ¬ returns.Passes ending ↔ returns.Stops ending ∨ ending = .unfinished := by
  cases ending with
  | done exit => simp [Stops, Passes, Option.ne_none_iff_isSome]
  | failed error => simp [Stops, Passes]
  | unfinished => simp [Stops, Passes]

theorem Returns.eq_of_escaping {returns : Returns} {exit out : Exit}
    (escapes : returns.escaping exit = some out) : out = exit := by
  cases returns <;> cases exit <;> simp_all [escaping]

namespace Execution

open Exec

variable {store : Store} {settings : Settings} {condition : Exec Bool} {round : Exec Exit}
  {s : RunState}

theorem run_round_of_not_passes (last : ¬ settings.returns.Passes (round.run s).ending)
    (next : Exec Exit) :
    (Exec.bind round fun exit => match settings.returns.escaping exit with
      | some exit => Exec.pure exit
      | none => next).run s = round.run s := by
  rw [run_bind]
  generalize round.run s = o at last ⊢
  obtain ⟨ending, state, events⟩ := o
  cases ending with
  | done exit =>
    obtain ⟨out, escapes⟩ := Option.ne_none_iff_exists'.1 last
    obtain rfl := Returns.eq_of_escaping escapes
    simp [escapes, run_pure, Outcome.after]
  | failed error => rfl
  | unfinished => rfl

theorem run_round_of_passes (kept : (round.run s).state = s)
    (passes : settings.returns.Passes (round.run s).ending) (next : Exec Exit) :
    (Exec.bind round fun exit => match settings.returns.escaping exit with
      | some exit => Exec.pure exit
      | none => next).run s = (next.run s).after (round.run s).events := by
  rw [run_bind]
  cases ended : (round.run s).ending with
  | done exit =>
    rw [ended] at passes
    have stays : settings.returns.escaping exit = none := passes
    simp only [stays, kept]
  | failed error =>
    rw [ended] at passes
    exact passes.elim
  | unfinished =>
    rw [ended] at passes
    exact passes.elim

theorem run_bind_of_done {α β : Type} {x : Exec α} {a : α}
    (first : x.run s = { ending := .done a, state := s, events := [] }) (f : α → Exec β) :
    (x >>= f).run s = (f a).run s := by
  change (Exec.bind x f).run s = _
  rw [run_bind, first]
  rfl

section Rounds

variable (holds : condition.run s = { ending := .done true, state := s, events := [] })

include holds

theorem run_repeatWhile_succ (fuel : Nat) :
    (repeatWhile settings condition round (fuel + 1)).run s =
      (Exec.bind round fun exit => match settings.returns.escaping exit with
        | some exit => Exec.pure exit
        | none => repeatWhile settings condition round fuel).run s :=
  run_bind_of_done holds _

theorem run_repeatWhile_of_stops (stops : settings.returns.Stops (round.run s).ending)
    (fuel : Nat) : (repeatWhile settings condition round (fuel + 1)).run s = round.run s := by
  rw [run_repeatWhile_succ holds]
  exact run_round_of_not_passes (Returns.not_passes_iff.2 (.inl stops)) _

theorem ending_repeatWhile_of_not_stops (kept : (round.run s).state = s)
    (goes : ¬ settings.returns.Stops (round.run s).ending) (fuel : Nat) :
    ((repeatWhile settings condition round fuel).run s).ending = .unfinished := by
  induction fuel with
  | zero => rfl
  | succ fuel ih =>
    rw [run_repeatWhile_succ holds]
    by_cases passes : settings.returns.Passes (round.run s).ending
    · rw [run_round_of_passes kept passes]
      exact ih
    · rw [run_round_of_not_passes passes]
      exact (Returns.not_passes_iff.1 passes).resolve_left goes

end Rounds

section Loops

variable {slot : Slot} {op : Operation} {params : Parameters} {raw : String} {value : Value}
  {run : Runner}

theorem run_required_bind {α : Type} {key : String} (given : params.get? key = some raw)
    (f : String → Exec α) : (required op params key >>= f).run s = (f raw).run s := by
  unfold required
  rw [given]
  rfl

theorem run_coerce_of_ok (coerced : s.scopes.coerce slot raw = .ok value) :
    (Exec.coerce slot raw).run s = { ending := .done value, state := s, events := [] } := by
  rw [Exec.coerce, run_inspect, coerced]
  rfl

theorem run_coerce_bind {α : Type} (coerced : s.scopes.coerce slot raw = .ok value)
    (f : Value → Exec α) : (Exec.coerce slot raw >>= f).run s = (f value).run s :=
  run_bind_of_done (run_coerce_of_ok coerced) f

theorem run_condition_of_truthy (coerced : s.scopes.coerce slot raw = .ok value)
    (truthy : value.isTruthy) :
    (do return (← Exec.coerce slot raw).isTruthy : Exec Bool).run s =
      { ending := .done true, state := s, events := [] } := by
  rw [run_coerce_bind coerced, truthy]
  rfl

theorem run_whileLoop (given : params.get? "condition" = some raw) (fuel : Nat) :
    (whileLoop store settings fuel run slot op params).run s =
      (repeatWhile settings (do return (← Exec.coerce slot raw).isTruthy)
        (body store settings run op.id slot []) fuel).run s :=
  run_required_bind given _

theorem not_stops_block_zero (ops : List Operation) : ¬ settings.returns.Stops
    ((block settings (execute store settings 0) slot ops).run s).ending := by
  induction ops with
  | nil =>
    rw [Returns.stops_iff]
    rintro (⟨_, failed⟩ | ⟨_, _, returned⟩)
    · cases failed
    · cases returned
  | cons op rest ih =>
    rw [block]
    split
    · exact ih
    · exact id

theorem not_stops_body_zero (parent : OpId) : ¬ settings.returns.Stops
    ((body store settings (execute store settings 0) parent slot []).run s).ending :=
  not_stops_block_zero (store.children (some parent))

end Loops

end Execution

open Execution

section Truthy

variable (store : Store) (settings : Settings) {op : Operation} (opcode : op.opcode = .whileLoop)
  {slot : Slot} {s : RunState} (live : slot < s.scopes.depth) {raw : String} {value : Value}
  (given : (store.parametersOf op.id).get? "condition" = some raw)
  (coerced : s.scopes.coerce slot raw = .ok value) (truthy : value.isTruthy)

include given coerced truthy

theorem run_whileLoop_of_stops {fuel rounds : Nat} (stops : settings.returns.Stops
      ((body store settings (execute store settings fuel) op.id slot []).run s).ending) :
    (whileLoop store settings (rounds + 1) (execute store settings fuel) slot op
        (store.parametersOf op.id)).run s =
      (body store settings (execute store settings fuel) op.id slot []).run s := by
  rw [run_whileLoop given]
  exact run_repeatWhile_of_stops (run_condition_of_truthy coerced truthy) stops rounds

include opcode

theorem execute_while_of_stops {fuel : Nat} (stops : settings.returns.Stops
      ((body store settings (execute store settings fuel) op.id slot []).run s).ending) :
    (execute store settings (fuel + 1) slot op).run s =
      ((body store settings (execute store settings fuel) op.id slot []).run s).after
        [.started op slot s.calls] := by
  cases fuel with
  | zero => exact absurd stops (not_stops_body_zero op.id)
  | succ fuel =>
    rw [run_execute_succ]
    simp only [perform, opcode]
    rw [run_whileLoop_of_stops store settings given coerced truthy stops]

include live

theorem ending_execute_while_of_not_stops {fuel : Nat} (goes : ¬ settings.returns.Stops
      ((body store settings (execute store settings fuel) op.id slot []).run s).ending) :
    ((execute store settings (fuel + 1) slot op).run s).ending = .unfinished := by
  rw [run_execute_succ]
  simp only [perform, opcode, Outcome.after]
  rw [run_whileLoop given]
  have kept := keeps_body store settings (execute_confined store settings fuel) op.id [] s live
  exact ending_repeatWhile_of_not_stops (run_condition_of_truthy coerced truthy) kept goes fuel

end Truthy

/-- A loop whose condition holds comes to an end only if its first round fails or, where a `return`
ends more than its own block, reaches one. It then ends as that round does, which is its only one:
nothing that a round does can be seen by the condition or by the next round. -/
theorem execute_while_of_truthy (store : Store) (settings : Settings) {op : Operation}
    (opcode : op.opcode = .whileLoop) {slot : Slot} {s : RunState} (live : slot < s.scopes.depth)
    {raw : String} {value : Value}
    (given : (store.parametersOf op.id).get? "condition" = some raw)
    (coerced : s.scopes.coerce slot raw = .ok value) (truthy : value.isTruthy) (fuel : Nat) :
    let loop := (execute store settings (fuel + 1) slot op).run s
    let first := (body store settings (execute store settings fuel) op.id slot []).run s
    let once := (whileLoop store settings 1 (execute store settings fuel) slot op
      (store.parametersOf op.id)).run s
    (∀ value, loop.ending ≠ .done (.normal value)) ∧
      (settings.returns = .shallow → ∀ exit, loop.ending ≠ .done exit) ∧
      (loop.ending ≠ .unfinished ↔ (∃ error, first.ending = .failed error) ∨
        settings.returns = .unwind ∧ ∃ value, first.ending = .done (.returned value)) ∧
      (loop.ending ≠ .unfinished → loop = first.after [.started op slot s.calls] ∧
        loop.lines = first.lines ∧ once = first) := by
  intro loop first once
  by_cases stops : settings.returns.Stops first.ending
  · have same : loop = first.after [.started op slot s.calls] :=
      execute_while_of_stops store settings opcode given coerced truthy stops
    have ending : loop.ending = first.ending := by rw [same, Outcome.after]
    have single : once = first := run_whileLoop_of_stops store settings given coerced truthy stops
    have lines : loop.lines = first.lines := by rw [same]; rfl
    have last := Returns.stops_iff.1 stops
    refine ⟨fun value normal => ?_, fun shallow exit done => ?_, ?_, fun _ => ⟨same, lines, single⟩⟩
    · rw [← ending, normal] at last
      simp at last
    · rw [← ending, done, shallow] at last
      simp at last
    · refine ⟨fun _ => last, fun _ stuck => ?_⟩
      rw [← ending, stuck] at last
      simp at last
  · have stuck : loop.ending = .unfinished :=
      ending_execute_while_of_not_stops store settings opcode live given coerced truthy stops
    rw [Returns.stops_iff] at stops
    simp [stuck, stops]

/-- A round binds the variable of the condition anew, for itself alone, and returns. -/
theorem execute_while_of_truthy_rebound :
    let store : Store := {
      operations := (Table.ofRows? [(1, ⟨"while", none, 1⟩), (2, ⟨"assign", some ⟨1⟩, 1⟩),
        (3, ⟨"print", some ⟨1⟩, 2⟩), (4, ⟨"return", some ⟨1⟩, 3⟩)] 4).getD .empty
      parameters := (Table.ofRows? [(1, ⟨⟨1⟩, "condition", some "$go"⟩),
        (2, ⟨⟨2⟩, "var_name", some "go"⟩), (3, ⟨⟨2⟩, "value", some "false"⟩),
        (4, ⟨⟨3⟩, "value", some "$go"⟩), (5, ⟨⟨4⟩, "value", some "7"⟩)] 5).getD .empty }
    let op : Operation := ⟨⟨1⟩, .whileLoop, none, 1⟩
    let s : RunState := { scopes := Scopes.initial.bind Scopes.root "go" (.bool true), calls := 0 }
    let loop (returns : Returns) := (execute store ⟨returns, none⟩ 3 Scopes.root op).run s
    Scopes.root < s.scopes.depth ∧ (loop .shallow).ending = .unfinished ∧
      (loop .unwind).ending = .done (.returned (some (.int 7))) ∧ (loop .unwind).lines = ["false"] ∧
      (loop .unwind).lines = ((body store ⟨.unwind, none⟩ (execute store ⟨.unwind, none⟩ 2) op.id
        Scopes.root []).run s).lines := by
  intro store op s loop
  have live : Scopes.root < s.scopes.depth := by decide
  have given : (store.parametersOf op.id).get? "condition" = some "$go" := by decide
  have coerced : s.scopes.coerce Scopes.root "$go" = .ok (.bool true) := rfl
  have ended : (loop .unwind).ending = .done (.returned (some (.int 7))) := by decide
  obtain ⟨_, never, _, _⟩ :=
    execute_while_of_truthy store ⟨.shallow, none⟩ rfl live given coerced rfl 2
  obtain ⟨_, _, _, single⟩ :=
    execute_while_of_truthy store ⟨.unwind, none⟩ rfl live given coerced rfl 2
  have finished : (loop .unwind).ending ≠ .unfinished := by simp [ended]
  exact ⟨live, by decide, ended, by decide, (single finished).2.1⟩

end OpTree
