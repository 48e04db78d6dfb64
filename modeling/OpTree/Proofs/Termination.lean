import OpTree.Proofs.CallLimit
import OpTree.Proofs.Lineage

set_option autoImplicit false

/-!
# Programs without `while` end

What runs inside an operation is below it, unless a call goes on anywhere else in the program. A
call takes one from the number of calls that may still begin (`ends_enter`), and each step down
takes one from the depth below (`DepthAtMost.below`). So the fuel that is needed is bounded by both
together, the calls first (`execute_ends`).
-/

namespace OpTree

open Relation

namespace Exec

variable {α β : Type} {limit budget : Nat}

/-- Where no more than `budget` calls may begin inside one another before the limit is reached, the
computation comes to an end, and then as many calls are active as before. -/
structure Ends (limit budget : Nat) (x : Exec α) : Prop where
  finished : ∀ s, limit ≤ s.calls + budget → (x.run s).ending ≠ .unfinished
  calls : ∀ s, limit ≤ s.calls + budget → (x.run s).state.calls = s.calls

theorem Ends.pure (a : α) : (Pure.pure a : Exec α).Ends limit budget where
  finished _ _ := nofun
  calls _ _ := rfl

theorem Ends.fail (error : EvalError) : (Exec.fail error : Exec α).Ends limit budget where
  finished _ _ := nofun
  calls _ _ := rfl

theorem Ends.ofExcept (x : Except EvalError α) : (Exec.ofExcept x).Ends limit budget := by
  cases x with
  | ok a => exact .pure a
  | error error => exact .fail error

theorem Ends.inspect (view : RunState → Except EvalError α) :
    (Exec.inspect view).Ends limit budget where
  finished s := (Ends.ofExcept (view s)).finished s
  calls s := (Ends.ofExcept (view s)).calls s

theorem Ends.bind {x : Exec α} {f : α → Exec β} (first : x.Ends limit budget)
    (next : ∀ a, x.Gives a → (f a).Ends limit budget) : (x >>= f).Ends limit budget := by
  have both : ∀ s, limit ≤ s.calls + budget → ((Exec.bind x f).run s).ending ≠ .unfinished ∧
      ((Exec.bind x f).run s).state.calls = s.calls := by
    intro s room
    have kept := first.calls s room
    rw [run_bind]
    cases ended : (x.run s).ending with
    | done a =>
      have room' : limit ≤ (x.run s).state.calls + budget := by rwa [kept]
      have later := next a ⟨s, ended⟩
      exact ⟨later.finished _ room', (later.calls _ room').trans kept⟩
    | failed error => exact ⟨nofun, kept⟩
    | unfinished => exact absurd ended (first.finished s room)
  exact ⟨fun s room => (both s room).1, fun s room => (both s room).2⟩

end Exec

namespace Execution

open Exec

variable {store : Store} {settings : Settings} {run : Runner} {slot : Slot} {op : Operation}
  {limit budget depth fuel : Nat}

def EndsBeside (limit budget : Nat) (α : Type) (x _ : Exec α) : Prop :=
  x.Ends limit budget

theorem steps_ends (limit budget : Nat) : Steps (EndsBeside limit budget) where
  pure a := .pure a
  fail error _ := .fail error
  coerce slot raw := .inspect fun s => s.scopes.coerce slot raw
  resolve slot name := .inspect fun s => s.scopes.resolve slot name
  eval operator left right := .ofExcept (operator.eval left right)
  note _ _ _ := ⟨fun _ _ => nofun, fun _ _ => rfl⟩
  bindName _ _ _ := ⟨fun _ _ => nofun, fun _ _ => rfl⟩
  bind first next := first.bind next
  inChild slot _ _ inside := {
    finished s := (inside s.scopes.depth).finished { s with scopes := s.scopes.openChild slot }
    calls s := (inside s.scopes.depth).calls { s with scopes := s.scopes.openChild slot } }

/-- A call that begins has one call fewer that may begin inside it. -/
theorem ends_enter {α : Type} {x : Exec α} (limited : settings.limit = some limit)
    (inside : ∀ less < budget, x.Ends limit less) (f : FunctionValue) (args : List Value) :
    (enter settings f args x).Ends limit budget := by
  have both : ∀ s, limit ≤ s.calls + budget →
      ((enter settings f args x).run s).ending ≠ .unfinished ∧
        ((enter settings f args x).run s).state.calls = s.calls := by
    intro s room
    by_cases reached : limit ≤ s.calls
    · rw [run_enter_of_reached limited reached]
      exact ⟨nofun, rfl⟩
    · have free : ∀ n, settings.limit = some n → s.calls < n := by
        intro n same
        rw [limited, Option.some.injEq] at same
        omega
      have within := inside (budget - 1) (by omega)
      have room' : limit ≤ { s with calls := s.calls + 1 }.calls + (budget - 1) := by
        simp only []
        omega
      have kept := within.calls _ room'
      rw [run_enter_of_room free]
      refine ⟨within.finished _ room', ?_⟩
      simp only [kept]
      omega
  exact ⟨fun s room => (both s room).1, fun s room => (both s room).2⟩

theorem ends_body {parent : OpId} (inside : ∀ slot, ∀ child ∈ store.children (some parent),
      (run slot child).Ends limit budget) (slot : Slot) (names : List (String × Value)) :
    (body store settings run parent slot names).Ends limit budget := by
  have c := steps_ends limit budget
  change EndsBeside limit budget Exit _ (body store settings run parent slot names)
  apply c.body
  intro child
  exact c.block (inside child) fun _ _ _ _ _ => rfl

theorem ends_perform (limited : settings.limit = some limit) (stored : op ∈ store.allOperations)
    (bounded : op.opcode ≠ .whileLoop)
    (below : ∀ slot other, TransGen store.IsParent op other → (run slot other).Ends limit budget)
    (later : ∀ less < budget, ∀ slot, ∀ other ∈ store.allOperations,
      (run slot other).Ends limit less) :
    (perform store settings fuel run slot op).Ends limit budget := by
  have c := steps_ends limit budget
  have under : ∀ slot, ∀ child ∈ store.children (some op.id), (run slot child).Ends limit budget :=
    fun slot child there => below slot child (.single (Store.isParent_of_child stored there))
  change EndsBeside limit budget Exit _ (perform store settings fuel run slot op)
  refine c.perform fuel ?conditional ?whileLoop ?forLoop ?call
  case conditional =>
    intro _ params
    refine c.conditional (fun condition parent chosen => ?_) params
    refine ends_body (fun slot child there => ?_) slot []
    rcases branch_eq_some chosen with rfl | ⟨other, beside, -, rfl⟩
    · exact under slot child there
    · have edge := Store.isParent_of_child stored beside
      exact below slot child (.tail (.single edge) (Store.isParent_of_child edge.2.1 there))
  case whileLoop => exact fun opcode => absurd opcode bounded
  case forLoop => exact fun _ params => c.forLoop (ends_body under slot) (fun _ _ _ => rfl) params
  case call =>
    -- The body may be anywhere, also above this operation, but fewer calls may begin inside it.
    intro _ params
    refine c.call (fun f args => ends_enter limited (fun less fewer => ?_) f args) params
    have ended : (body store settings run f.body slot (f.params.zip args)).Ends limit less :=
      ends_body (fun slot child there => later less fewer slot child (Store.stored_of_child there))
        slot _
    exact ended.bind fun exit _ => .pure exit.value

/-- Fuel is enough if it goes beyond what the calls that may still begin can take, each the whole
program, and the depth below. -/
theorem execute_ends (acyclic : store.Acyclic) (limited : settings.limit = some limit)
    (bounded : ∀ op ∈ store.allOperations, op.opcode ≠ .whileLoop)
    (stored : op ∈ store.allOperations) (deep : store.DepthAtMost depth op)
    (enough : budget * (store.operations.size + 1) + depth < fuel) (slot : Slot) :
    (execute store settings fuel slot op).Ends limit budget := by
  induction fuel generalizing budget depth op slot with
  | zero => exact absurd enough (Nat.not_lt_zero _)
  | succ fuel ih =>
    have below : ∀ slot other, TransGen store.IsParent op other →
        (execute store settings fuel slot other).Ends limit budget := by
      intro slot other path
      obtain ⟨shallower, less, deep⟩ := deep.below path
      exact ih (Store.stored_of_reaches stored path.to_reflTransGen) deep (by omega) slot
    have later : ∀ less < budget, ∀ slot, ∀ other ∈ store.allOperations,
        (execute store settings fuel slot other).Ends limit less := by
      intro less fewer slot other known
      have whole := Nat.mul_le_mul_right (store.operations.size + 1) (Nat.succ_le_of_lt fewer)
      rw [Nat.succ_mul] at whole
      exact ih known (Store.depthAtMost_size acyclic known) (by omega) slot
    change EndsBeside limit budget Exit _ (execute store settings (fuel + 1) slot op)
    have performed : (perform store settings fuel (execute store settings fuel) slot op).Ends limit
        budget := ends_perform limited stored (bounded op stored) below later
    exact (steps_ends limit budget).log_bind ⟨fun _ _ => nofun, fun _ _ => rfl⟩ performed

theorem runProgram_ends (acyclic : store.Acyclic) (limited : settings.limit = some limit)
    (bounded : ∀ op ∈ store.allOperations, op.opcode ≠ .whileLoop)
    (enough : (budget + 1) * (store.operations.size + 1) ≤ fuel) :
    (runProgram store settings fuel).Ends limit budget := by
  rw [Nat.succ_mul] at enough
  change EndsBeside limit budget Exit _ (runProgram store settings fuel)
  refine (steps_ends limit budget).block (fun op there => ?_) fun _ _ _ _ _ => rfl
  have stored := Store.stored_of_child there
  exact execute_ends acyclic limited bounded stored (Store.depthAtMost_size acyclic stored)
    (by omega) Scopes.root

end Execution

open Execution

/-- A program without `while` that was built in any way ends with a value or an error if the number
of active calls is limited, whatever its functions call. It does so with all the fuel that each call
could need for the whole program, and more fuel makes no difference. -/
theorem Store.shows_without_while (history : List Request) (mode : Mode) (returns : Returns)
    (given : Option Nat) (sink : Option Sink) (limit : Nat) :
    let s := Store.empty.after history
    given.or mode.limit = some limit → (∀ op ∈ s.allOperations, op.opcode ≠ .whileLoop) →
      ∃ seen, ∀ fuel, (limit + 1) * (s.operations.size + 1) ≤ fuel →
        (Interpreter.fresh s mode returns given sink).ShowsWith fuel seen := by
  intro s limited bounded
  have ended : (runProgram s ⟨returns, given.or mode.limit⟩
      ((limit + 1) * (s.operations.size + 1))).Ends limit limit :=
    runProgram_ends (sound_after history).acyclic limited bounded (Nat.le_refl _)
  have finished : ((Interpreter.fresh s mode returns given sink).run
      ((limit + 1) * (s.operations.size + 1))).1 ≠ .unfinished := by
    rw [Interpreter.run_ending, ne_eq, Ending.leaving_eq_unfinished]
    exact ended.finished RunState.initial (Nat.le_add_left limit 0)
  obtain ⟨seen, shown⟩ := Interpreter.exists_showsWith finished
  refine ⟨seen, fun fuel enough => ?_⟩
  obtain ⟨spare, rfl⟩ := Nat.exists_eq_add_of_le enough
  exact shown.add spare

/-- A function that calls itself under an `if`, at most three times at once. -/
theorem Store.shows_without_while_endless :
    let s := Store.empty.after [.append .function none, .setParameter ⟨1⟩ "name" "f",
      .append .print (some ⟨1⟩), .setParameter ⟨2⟩ "value" "again",
      .append .conditional (some ⟨1⟩), .setParameter ⟨3⟩ "condition" "true",
      .append .call (some ⟨3⟩), .setParameter ⟨4⟩ "name" "f",
      .append .call none, .setParameter ⟨5⟩ "name" "f"]
    (∀ op ∈ s.allOperations, op.opcode ≠ .whileLoop) ∧
      ∃ seen, seen.result = .error (.callDepthExceeded 3) ∧
        seen.lines = ["again", "again", "again"] ∧ ∀ fuel, 24 ≤ fuel →
          (Interpreter.fresh s .interpret .shallow (some 3) none).ShowsWith fuel seen := by
  intro s
  have bounded : ∀ op ∈ s.allOperations, op.opcode ≠ .whileLoop := by decide
  obtain ⟨seen, shown⟩ := shows_without_while _ .interpret .shallow (some 3) none 3 rfl bounded
  have least := shown 24 (by decide)
  refine ⟨bounded, seen, (Interpreter.showsWith_iff.1 least).failed_iff.1 (by decide), ?_, shown⟩
  rw [← least.2.1]
  decide

end OpTree
