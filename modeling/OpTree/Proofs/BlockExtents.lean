import OpTree.Proofs.Siblings
import OpTree.Proofs.Starts

set_option autoImplicit false

namespace OpTree

namespace Execution

def closing? (ops : List Operation) : Option Operation :=
  ops.find? fun op => op.opcode = .giveBack

/-- The operations of a block up to its first `return`, without each `else`. -/
def extent (ops : List Operation) : List Operation :=
  (ops.filter fun op => op.opcode ≠ .otherwise).takeWhile (fun op => op.opcode ≠ .giveBack) ++
    (closing? ops).toList

def sequence (run : Runner) (slot : Slot) : List Operation → Exec Unit
  | [] => pure ()
  | op :: rest => do
    let _ ← run slot op
    sequence run slot rest

/-- A run that ends with the error of one operation, after others have ended well. -/
structure FailsIn (run : Runner) (slot : Slot) (s : RunState) (before : List Operation)
    (last : Operation) (error : EvalError) (o : Outcome Exit) : Prop where
  passed : ((sequence run slot before).run s).ending = .done ()
  failed : ((run slot last).run ((sequence run slot before).run s).state).ending = .failed error
  events : o.events = ((sequence run slot before).run s).events ++
    ((run slot last).run ((sequence run slot before).run s).state).events

/-- How far the block of some operations came: through all of its extent if it ended well, with the
value of its own `return`, and otherwise up to an operation that failed. -/
structure Extends (store : Store) (run : Runner) (slot : Slot) (s : RunState) (ops : List Operation)
    (o : Outcome Exit) : Prop where
  begun : o.startedIn slot <+: extent ops
  all : ∀ exit, o.ending = .done exit → o.startedIn slot = extent ops
  value : ∀ exit, o.ending = .done exit →
    match closing? ops with
    | some r => store.returned r o.state.scopes slot = .ok exit.value
    | none => exit.value = none
  fails : ∀ error, o.ending = .failed error → ∃ before last, o.startedIn slot = before ++ [last] ∧
    FailsIn run slot s before last error o

section Extents

variable {op : Operation} (rest : List Operation)

theorem closing_cons (forward : op.opcode ≠ .giveBack) : closing? (op :: rest) = closing? rest := by
  simp [closing?, forward]

theorem closing_cons_return (back : op.opcode = .giveBack) : closing? (op :: rest) = some op := by
  simp [closing?, back]

theorem extent_cons_else (skipped : op.opcode = .otherwise) :
    extent (op :: rest) = extent rest := by
  simp [extent, closing?, skipped]

theorem extent_cons_return (back : op.opcode = .giveBack) : extent (op :: rest) = [op] := by
  simp [extent, closing?, back]

theorem extent_cons (kept : op.opcode ≠ .otherwise) (forward : op.opcode ≠ .giveBack) :
    extent (op :: rest) = op :: extent rest := by
  simp [extent, closing?, kept, forward]

theorem extent_sublist (ops : List Operation) : (extent ops).Sublist ops := by
  induction ops with
  | nil => exact .slnil
  | cons op rest ih =>
    by_cases skipped : op.opcode = .otherwise
    · rw [extent_cons_else rest skipped]
      exact ih.cons op
    · by_cases back : op.opcode = .giveBack
      · rw [extent_cons_return rest back]
        exact List.singleton_sublist.2 List.mem_cons_self
      · rw [extent_cons rest skipped back]
        exact ih.cons_cons op

end Extents

section Steps

variable {store : Store} {run : Runner} {slot : Slot} {s : RunState} {op : Operation} {exit : Exit}
  {error : EvalError} {rest before : List Operation} {last : Operation} {o : Outcome Exit}

theorem run_sequence_cons (ended : ((run slot op).run s).ending = .done exit) :
    (sequence run slot (op :: rest)).run s =
      ((sequence run slot rest).run ((run slot op).run s).state).after
        ((run slot op).run s).events := by
  change (Exec.bind (run slot op) _).run s = _
  rw [Exec.run_bind, ended]

theorem FailsIn.cons (ended : ((run slot op).run s).ending = .done exit)
    (later : FailsIn run slot ((run slot op).run s).state before last error o) :
    FailsIn run slot s (op :: before) last error (o.after ((run slot op).run s).events) := by
  refine ⟨?_, ?_, ?_⟩ <;> rw [run_sequence_cons ended]
  · exact later.passed
  · exact later.failed
  · simp [Outcome.after, later.events]

theorem Extends.stopped {more : List Operation} (first : extent (op :: rest) = op :: more)
    (stopped : ∀ exit, ((run slot op).run s).ending ≠ .done exit)
    (begun : ((run slot op).run s).startedIn slot <+: [op])
    (started : ∀ error, ((run slot op).run s).ending = .failed error →
      ((run slot op).run s).startedIn slot = [op]) :
    Extends store run slot s (op :: rest) ((run slot op).run s) where
  begun := by
    rw [first]
    exact begun.trans (List.prefix_append [op] more)
  all exit done := absurd done (stopped exit)
  value exit done := absurd done (stopped exit)
  fails error failed := ⟨[], op, started error failed, rfl, failed, rfl⟩

theorem Extends.skip (skipped : op.opcode = .otherwise) (later : Extends store run slot s rest o) :
    Extends store run slot s (op :: rest) o := by
  have forward : op.opcode ≠ .giveBack := by simp [skipped]
  refine ⟨?_, fun exit done => ?_, fun exit done => ?_, later.fails⟩
  · rw [extent_cons_else rest skipped]
    exact later.begun
  · rw [extent_cons_else rest skipped]
    exact later.all exit done
  · rw [closing_cons rest forward]
    exact later.value exit done

theorem Extends.cons (kept : op.opcode ≠ .otherwise) (forward : op.opcode ≠ .giveBack)
    (ended : ((run slot op).run s).ending = .done exit)
    (started : ((run slot op).run s).startedIn slot = [op])
    (later : Extends store run slot ((run slot op).run s).state rest o) :
    Extends store run slot s (op :: rest) (o.after ((run slot op).run s).events) := by
  have trace : (o.after ((run slot op).run s).events).startedIn slot = op :: o.startedIn slot := by
    rw [Outcome.startedIn_after]
    exact congrArg (· ++ o.startedIn slot) started
  refine ⟨?_, fun exit done => ?_, fun exit done => ?_, fun error failed => ?_⟩
  · rw [trace, extent_cons rest kept forward]
    exact (List.prefix_cons_inj op).2 later.begun
  · rw [trace, extent_cons rest kept forward, later.all exit done]
  · rw [closing_cons rest forward]
    exact later.value exit done
  · obtain ⟨before, last, same, fails⟩ := later.fails error failed
    refine ⟨op :: before, last, ?_, fails.cons ended⟩
    rw [trace, same, List.cons_append]

end Steps

theorem run_bind_of_stopped {x : Exec Exit} {f : Exit → Exec Exit} {s : RunState}
    (stopped : ∀ exit, (x.run s).ending ≠ .done exit) : (x >>= f).run s = x.run s := by
  change (Exec.bind x f).run s = x.run s
  rw [Exec.run_bind]
  generalize x.run s = o at stopped
  obtain ⟨ending, state, events⟩ := o
  cases ending with
  | done exit => exact absurd rfl (stopped exit)
  | failed error => rfl
  | unfinished => rfl

section Blocks

variable {store : Store} {settings : Settings} {fuel : Nat} {slot : Slot} {s : RunState}
  {op : Operation} {exit : Exit}

theorem returned_of_done (opcode : op.opcode = .giveBack)
    (ended : ((execute store settings fuel slot op).run s).ending = .done exit) :
    store.returned op ((execute store settings fuel slot op).run s).state.scopes slot =
      .ok exit.value := by
  cases fuel with
  | zero => cases ended
  | succ fuel =>
    rw [run_execute_return store settings opcode] at ended ⊢
    cases given : store.returned op s.scopes slot with
    | ok value =>
      rw [given] at ended
      cases ended
      exact given
    | error error =>
      rw [given] at ended
      cases ended

variable (live : slot < s.scopes.depth)

include live

theorem startedIn_of_ended (ended : ((execute store settings fuel slot op).run s).ending ≠
    .unfinished) : ((execute store settings fuel slot op).run s).startedIn slot = [op] := by
  cases fuel with
  | zero => exact absurd rfl ended
  | succ fuel => exact startedIn_execute store settings fuel op live

theorem extends_of_stopped {rest more : List Operation} (first : extent (op :: rest) = op :: more)
    (stopped : ∀ exit, ((execute store settings fuel slot op).run s).ending ≠ .done exit) :
    Extends store (execute store settings fuel) slot s (op :: rest)
      ((execute store settings fuel slot op).run s) := by
  refine .stopped first stopped ?_ fun error failed => startedIn_of_ended live ?_
  · cases fuel with
    | zero => exact List.nil_prefix
    | succ fuel => simp [startedIn_execute store settings fuel op live]
  · simp [failed]

theorem extends_return (back : op.opcode = .giveBack) (rest : List Operation)
    (ended : ((execute store settings fuel slot op).run s).ending = .done exit) :
    Extends store (execute store settings fuel) slot s (op :: rest)
      { (execute store settings fuel slot op).run s with
        ending := .done (.returned exit.value) } := by
  have started : ((execute store settings fuel slot op).run s).startedIn slot = [op] :=
    startedIn_of_ended live (by simp [ended])
  have whole : _ = extent (op :: rest) := started.trans (extent_cons_return rest back).symm
  refine ⟨whole ▸ List.prefix_refl _, fun _ _ => whole, fun final done => ?_, by simp⟩
  cases done
  have given := returned_of_done back ended
  rw [closing_cons_return rest back]
  exact given

theorem block_extends (shallow : settings.returns = .shallow) (ops : List Operation) :
    Extends store (execute store settings fuel) slot s ops
      ((block settings (execute store settings fuel) slot ops).run s) := by
  induction ops generalizing s with
  | nil =>
    refine ⟨List.nil_prefix, fun _ _ => rfl, fun _ done => ?_, fun _ failed => ?_⟩
    · cases done
      rfl
    · cases failed
  | cons op rest ih =>
    rw [block]
    by_cases skipped : op.opcode = .otherwise
    · rw [if_pos skipped]
      exact .skip skipped (ih live)
    · rw [if_neg skipped]
      by_cases stopped : ∀ exit, ((execute store settings fuel slot op).run s).ending ≠ .done exit
      · rw [run_bind_of_stopped stopped]
        by_cases back : op.opcode = .giveBack
        · exact extends_of_stopped live (extent_cons_return rest back) stopped
        · exact extends_of_stopped live (extent_cons rest skipped back) stopped
      · simp only [not_forall, not_not] at stopped
        obtain ⟨exit, ended⟩ := stopped
        by_cases back : op.opcode = .giveBack
        · simp only [if_pos back]
          rw [Exec.run_bind_pure ended]
          exact extends_return live back rest ended
        · have started : ((execute store settings fuel slot op).run s).startedIn slot = [op] :=
            startedIn_of_ended live (by simp [ended])
          have still := (execute_startsAt store settings fuel slot op).depth s
          simp only [if_neg back, shallow, Returns.escaping]
          change Extends _ _ _ _ _ ((Exec.bind (execute store settings fuel slot op) _).run s)
          rw [Exec.run_bind, ended]
          exact .cons skipped back ended started (ih (Nat.lt_of_lt_of_le live still))

end Blocks

end Execution

open Execution

/-- Where a `return` ends only its own block, what a block runs is a prefix of its extent, each
operation once and in the order of siblings, whatever returns inside them: all of it if the block
ends well, and otherwise all up to the operation that fails. The value of the block is the one that
its own `return` gives back. -/
theorem runBlock_extent (store : Store) (limit : Option Nat) (fuel : Nat) (parent : Option OpId)
    {slot : Slot} {s : RunState} (live : slot < s.scopes.depth) :
    let o := (runBlock store ⟨.shallow, limit⟩ fuel slot parent).run s
    let ops := store.children parent
    ((extent ops).Pairwise fun a b => a.precedes b) ∧ o.startedIn slot <+: extent ops ∧
      (∀ exit, o.ending = .done exit → o.startedIn slot = extent ops ∧
        match closing? ops with
        | some r => store.returned r o.state.scopes slot = .ok exit.value
        | none => exit.value = none) ∧
      (∀ error, o.ending = .failed error → ∃ before last, o.startedIn slot = before ++ [last] ∧
        FailsIn (execute store ⟨.shallow, limit⟩ fuel) slot s before last error o) := by
  intro o ops
  have sorted : (extent ops).Pairwise fun a b => a.precedes b :=
    Store.children_pairwise.sublist (extent_sublist ops)
  have reached : Extends store (execute store ⟨.shallow, limit⟩ fuel) slot s ops o :=
    block_extends live rfl ops
  exact ⟨sorted, reached.begun, fun exit done => ⟨reached.all exit done, reached.value exit done⟩,
    reached.fails⟩

/-- An `if` whose body returns, an `else` and a `print` have one sequence number. The block goes on
after the body and ends at its own `return`. -/
theorem runBlock_extent_tied :
    let store : Store := {
      operations := (Table.ofRows? [(1, ⟨"if", none, 1⟩), (2, ⟨"return", some ⟨1⟩, 1⟩),
        (3, ⟨"else", none, 1⟩), (4, ⟨"print", none, 1⟩), (5, ⟨"return", none, 2⟩),
        (6, ⟨"print", none, 3⟩)] 6).getD .empty
      parameters := (Table.ofRows? [(1, ⟨⟨1⟩, "condition", some "true"⟩),
        (2, ⟨⟨2⟩, "value", some "1"⟩), (3, ⟨⟨4⟩, "value", some "a"⟩),
        (4, ⟨⟨5⟩, "value", some "7"⟩)] 4).getD .empty }
    let o := (runBlock store ⟨.shallow, none⟩ 2 Scopes.root none).run RunState.initial
    Scopes.root < RunState.initial.scopes.depth ∧
      o.ending = .done (.returned (some (.int 7))) ∧
      o.startedIn Scopes.root = extent (store.children none) ∧
      (o.startedIn Scopes.root).map Operation.id = [⟨1⟩, ⟨4⟩, ⟨5⟩] ∧
      (o.startedIn 1).map Operation.id = [⟨2⟩] := by
  intro store o
  have live : Scopes.root < RunState.initial.scopes.depth := by decide
  have ended : o.ending = .done (.returned (some (.int 7))) := by decide
  obtain ⟨_, _, all, _⟩ := runBlock_extent store none 2 none live
  exact ⟨live, ended, (all _ ended).1, by decide, by decide⟩

end OpTree
