import OpTree.Proofs.Congruence

set_option autoImplicit false

/-!
# The number of active calls

A call is active from its `called` event up to the last event of its body. `Nested` reads this off
a trace: every event tells the number of calls around it, and no call begins beyond the limit.
However a computation of a run ends, its trace is nested and the number of active calls is as
before (`runProgram_counted`); the error about the limit carries the limit.
-/

namespace OpTree

/-- Events inside a number of active calls, each call followed by what happens inside it. -/
inductive Nested (limit : Option Nat) : Nat → List Event → Prop
  | nil (calls : Nat) : Nested limit calls []
  | plain {calls : Nat} {event : Event} {rest : List Event} : event.IsAt calls →
      Nested limit calls rest → Nested limit calls (event :: rest)
  | call {calls : Nat} (f : FunctionValue) (args : List Value) {inner rest : List Event} :
      (∀ n, limit = some n → calls < n) → Nested limit (calls + 1) inner →
      Nested limit calls rest → Nested limit calls (.called f args (calls + 1) :: (inner ++ rest))

namespace Nested

variable {limit : Option Nat} {calls n m : Nat} {f : FunctionValue} {args : List Value}
  {es before later : List Event}

theorem append {es' : List Event} (first : Nested limit calls es) (second : Nested limit calls es') :
    Nested limit calls (es ++ es') := by
  induction first with
  | nil calls => exact second
  | plain here _ ih => exact .plain here (ih second)
  | call f args room inner _ _ ih =>
    rw [List.cons_append, List.append_assoc]
    exact .call f args room inner (ih second)

theorem le (nested : Nested (some n) calls es) (called : .called f args m ∈ es) : m ≤ n := by
  induction nested with
  | nil calls => cases called
  | plain here _ ih =>
    rcases List.mem_cons.1 called with rfl | inside
    · exact here.elim
    · exact ih inside
  | call f' args' room _ _ ihInner ihRest =>
    rcases List.mem_cons.1 called with same | inside
    · cases same
      exact room n rfl
    · rcases List.mem_append.1 inside with inside | inside
      · exact ihInner inside
      · exact ihRest inside

/-- The first call beyond some depth is just one deeper, since the calls around it came before. -/
theorem eq_succ_of_first (nested : Nested limit calls es) (start : calls ≤ n)
    (split : es = before ++ .called f args m :: later) (deep : n < m)
    (first : ∀ f' args' m', .called f' args' m' ∈ before → m' ≤ n) : m = n + 1 := by
  induction nested generalizing before later with
  | nil calls => simp at split
  | plain here _ ih =>
    cases before with
    | nil =>
      rw [List.nil_append, List.cons.injEq] at split
      rw [split.1] at here
      exact here.elim
    | cons event before =>
      rw [List.cons_append, List.cons.injEq] at split
      exact ih start split.2 fun f' args' m' inside => first f' args' m' (.tail _ inside)
  | call f' args' _ _ _ ihInner ihRest =>
    cases before with
    | nil =>
      rw [List.nil_append, List.cons.injEq, Event.called.injEq] at split
      omega
    | cons event before =>
      rw [List.cons_append, List.cons.injEq] at split
      obtain ⟨rfl, split⟩ := split
      have within := first f' args' _ List.mem_cons_self
      have earlier : ∀ f' args' m', .called f' args' m' ∈ before → m' ≤ n := by
        intro f' args' m' inside
        exact first f' args' m' (.tail _ inside)
      -- The deep call is in the rest or inside this call, around which fewer than it are active.
      rcases List.append_eq_append_iff.1 split with ⟨more, rfl, tail⟩ | ⟨more, tail, rest⟩
      · exact ihRest start tail fun f' args' m' inside =>
          earlier f' args' m' (List.mem_append_right _ inside)
      · cases more with
        | nil =>
          have split : _ = [] ++ .called f args m :: later := rest.symm
          exact ihRest start split nofun
        | cons event more =>
          rw [List.cons_append, List.cons.injEq] at rest
          obtain ⟨rfl, _⟩ := rest
          exact ihInner within tail earlier

end Nested

namespace Exec

/-- However the computation ends, its trace is nested, as many calls are active as before, and
the error about the limit on calls carries the limit. -/
structure Counted {α : Type} (limit : Option Nat) (x : Exec α) : Prop where
  calls : ∀ s, (x.run s).state.calls = s.calls
  nested : ∀ s, Nested limit s.calls (x.run s).events
  depth : ∀ s n, (x.run s).ending = .failed (.callDepthExceeded n) → limit = some n

variable {α β : Type} {limit : Option Nat}

theorem Counted.pure (a : α) : Counted limit (Pure.pure a) where
  calls _ := rfl
  nested s := .nil s.calls
  depth _ _ := nofun

theorem Counted.fail (error : EvalError) (other : ∀ n, error ≠ .callDepthExceeded n) :
    Counted limit (Exec.fail error : Exec α) where
  calls _ := rfl
  nested s := .nil s.calls
  depth _ n failed := absurd (Ending.failed.inj failed) (other n)

theorem Counted.ofExcept (x : Except EvalError α)
    (other : ∀ error, x = .error error → ∀ n, error ≠ .callDepthExceeded n) :
    Counted limit (Exec.ofExcept x) := by
  cases x with
  | ok a => exact .pure a
  | error error => exact .fail error (other error rfl)

theorem Counted.inspect (view : RunState → Except EvalError α)
    (other : ∀ s error, view s = .error error → ∀ n, error ≠ .callDepthExceeded n) :
    Counted limit (Exec.inspect view) := by
  have looked : ∀ s, Counted limit (Exec.ofExcept (view s)) := fun s => .ofExcept _ (other s)
  exact ⟨fun s => (looked s).calls s, fun s => (looked s).nested s, fun s => (looked s).depth s⟩

theorem Counted.bind {x : Exec α} {f : α → Exec β} (first : x.Counted limit)
    (next : ∀ a, x.Gives a → (f a).Counted limit) : (x >>= f).Counted limit := by
  have both : ∀ s, ((x >>= f).run s).state.calls = s.calls ∧
      Nested limit s.calls ((x >>= f).run s).events ∧
      ∀ n, ((x >>= f).run s).ending = .failed (.callDepthExceeded n) → limit = some n := by
    intro s
    have kept := first.calls s
    have trace := first.nested s
    have depth := first.depth s
    change ((Exec.bind x f).run s).state.calls = _ ∧ Nested _ _ ((Exec.bind x f).run s).events ∧
      ∀ n, ((Exec.bind x f).run s).ending = _ → _
    rw [run_bind]
    cases ended : (x.run s).ending with
    | done a =>
      have later := next a ⟨s, ended⟩
      have more := later.nested (x.run s).state
      rw [kept] at more
      exact ⟨(later.calls _).trans kept, trace.append more, later.depth _⟩
    | failed error =>
      refine ⟨kept, trace, fun n failed => depth n ?_⟩
      have same : error = .callDepthExceeded n := Ending.failed.inj failed
      rw [ended, same]
    | unfinished => exact ⟨kept, trace, nofun⟩
  exact ⟨fun s => (both s).1, fun s => (both s).2.1, fun s => (both s).2.2⟩

end Exec

namespace Execution

open Exec

variable {α : Type} {settings : Settings} {s : RunState}

theorem run_calls_bind (f : Nat → Exec α) (s : RunState) :
    (Exec.calls >>= f).run s = (f s.calls).run s :=
  rfl

theorem run_checkDepth_of_reached {n : Nat} (limit : settings.limit = some n)
    (reached : n ≤ s.calls) : (checkDepth settings).run s =
      { ending := .failed (.callDepthExceeded n), state := s, events := [] } := by
  simp only [checkDepth, limit]
  rw [run_calls_bind, if_pos reached, run_fail]

theorem run_checkDepth_of_room (room : ∀ n, settings.limit = some n → s.calls < n) :
    (checkDepth settings).run s = { ending := .done (), state := s, events := [] } := by
  unfold checkDepth
  cases limit : settings.limit with
  | none => rfl
  | some n =>
    have below : ¬ n ≤ s.calls := Nat.not_le.2 (room n limit)
    simp only []
    rw [run_calls_bind, if_neg below]
    rfl

theorem run_enter_of_reached {n : Nat} (limit : settings.limit = some n) (reached : n ≤ s.calls)
    (f : FunctionValue) (args : List Value) (x : Exec α) :
    (enter settings f args x).run s =
      { ending := .failed (.callDepthExceeded n), state := s, events := [] } := by
  change (Exec.bind (checkDepth settings) _).run s = _
  rw [run_bind, run_checkDepth_of_reached limit reached]

theorem run_enter_of_room (room : ∀ n, settings.limit = some n → s.calls < n)
    (f : FunctionValue) (args : List Value) (x : Exec α) :
    (enter settings f args x).run s =
      let o := x.run { s with calls := s.calls + 1 }
      { ending := o.ending
        state := { o.state with calls := o.state.calls - 1 }
        events := .called f args (s.calls + 1) :: o.events } := by
  have inner : (do Exec.log (.called f args (← Exec.calls)); x).run
      { s with calls := s.calls + 1 } =
        (x.run { s with calls := s.calls + 1 }).after [.called f args (s.calls + 1)] := by
    rw [run_calls_bind]
    change (Exec.bind (Exec.log _) _).run _ = _
    rw [run_bind, run_log]
  change (Exec.bind (checkDepth settings) _).run s = _
  rw [run_bind, run_checkDepth_of_room room]
  simp only []
  rw [run_inCall, inner]
  rfl

theorem counted_enter {x : Exec α} (inside : x.Counted settings.limit) (f : FunctionValue)
    (args : List Value) : (enter settings f args x).Counted settings.limit := by
  have both : ∀ s, ((enter settings f args x).run s).state.calls = s.calls ∧
      Nested settings.limit s.calls ((enter settings f args x).run s).events ∧
      ∀ n, ((enter settings f args x).run s).ending = .failed (.callDepthExceeded n) →
        settings.limit = some n := by
    intro s
    by_cases reached : ∃ n, settings.limit = some n ∧ n ≤ s.calls
    · obtain ⟨n, limit, reached⟩ := reached
      rw [run_enter_of_reached limit reached]
      refine ⟨rfl, .nil _, fun m failed => ?_⟩
      cases failed
      exact limit
    · have room : ∀ n, settings.limit = some n → s.calls < n := by
        intro n limit
        exact Nat.lt_of_not_le fun le => reached ⟨n, limit, le⟩
      rw [run_enter_of_room room]
      have trace := inside.nested { s with calls := s.calls + 1 }
      have whole := Nested.call f args room trace (.nil s.calls)
      rw [List.append_nil] at whole
      have kept := inside.calls { s with calls := s.calls + 1 }
      refine ⟨?_, whole, inside.depth _⟩
      simp only [kept]
      omega
  exact ⟨fun s => (both s).1, fun s => (both s).2.1, fun s => (both s).2.2⟩

theorem Congruence.counted (settings : Settings) :
    Congruence settings settings fun _ x _ => x.Counted settings.limit where
  pure a := .pure a
  fail error other := .fail error other
  unfinished := ⟨fun _ => rfl, fun s => .nil s.calls, fun _ _ => nofun⟩
  coerce slot raw := by
    apply Counted.inspect
    intro s error failed n same
    subst same
    unfold Scopes.coerce Scopes.resolve at failed
    repeat' split at failed
    all_goals cases failed
  resolve slot name := by
    apply Counted.inspect
    intro s error failed n same
    subst same
    unfold Scopes.resolve at failed
    split at failed
    all_goals cases failed
  eval operator left right := by
    apply Counted.ofExcept
    intro error failed
    have plain := BinaryOp.plain_eval operator left right
    rw [failed] at plain
    exact plain.2
  note event plain _ := ⟨fun _ => rfl, fun s => .plain (plain s.calls) (.nil _), fun _ _ => nofun⟩
  start op slot := ⟨fun _ => rfl, fun s => .plain rfl (.nil s.calls), fun _ _ => nofun⟩
  bindName slot name value :=
    ⟨fun _ => rfl, fun s => .plain trivial (.nil _), fun _ _ => nofun⟩
  bind first next := first.bind next
  inChild slot f _ inside := {
    calls s := (inside s.scopes.depth).calls { s with scopes := s.scopes.openChild slot }
    nested s := (inside s.scopes.depth).nested { s with scopes := s.scopes.openChild slot }
    depth s := (inside s.scopes.depth).depth { s with scopes := s.scopes.openChild slot } }
  enter f args _ _ inside := counted_enter inside f args

end Execution

open Execution

theorem runProgram_counted (store : Store) (settings : Settings) (fuel : Nat) :
    (runProgram store settings fuel).Counted settings.limit :=
  (Congruence.counted settings).runProgram (fun _ => .of_returns rfl) fuel

end OpTree
