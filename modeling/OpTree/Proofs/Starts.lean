import OpTree.Proofs.CallDepth
import OpTree.Proofs.ReturnModes

set_option autoImplicit false

namespace OpTree

/-- The value that a `return` gives back in a scope, or why it cannot. -/
def Store.returned (store : Store) (r : Operation) (scopes : Scopes) (slot : Slot) :
    Except EvalError (Option Value) :=
  ((store.parametersOf r.id).get? "value").mapM fun raw => scopes.coerce slot raw

def Event.startedIn? (slot : Slot) : Event → Option Operation
  | started op scope _ => if scope = slot then some op else none
  | _ => none

def Outcome.startedIn {α : Type} (slot : Slot) (o : Outcome α) : List Operation :=
  o.events.filterMap (Event.startedIn? slot)

theorem Outcome.startedIn_after {α : Type} (slot : Slot) (earlier : List Event) (o : Outcome α) :
    (o.after earlier).startedIn slot =
      earlier.filterMap (Event.startedIn? slot) ++ o.startedIn slot :=
  List.filterMap_append

theorem Scopes.le_depth_release {scopes : Scopes} {slot : Slot} (le : slot ≤ scopes.depth) :
    slot ≤ (scopes.release slot).depth := by
  unfold release
  split
  · exact le
  · simp only [depth, Array.size_shrink]
    exact Nat.le_min.2 ⟨Nat.le_refl slot, le⟩

namespace Exec

/-- Where an operation may start, that is in which scope and inside how many calls, by the state
that a computation starts from. -/
abbrev StartSite : Type :=
  RunState → Slot → Nat → Prop

/-- No scope that was there is gone at the end, as many calls are active as before, and operations
start only where they may. -/
structure StartsAt {α : Type} (allowed : StartSite) (x : Exec α) : Prop where
  depth : ∀ s, s.scopes.depth ≤ (x.run s).state.scopes.depth
  calls : ∀ s, (x.run s).state.calls = s.calls
  starts : ∀ s op scope calls, .started op scope calls ∈ (x.run s).events →
    allowed s scope calls

namespace StartSite

def newScope : StartSite :=
  fun s scope calls => s.scopes.depth ≤ scope ∧ s.calls ≤ calls

def inScope (slot : Slot) : StartSite :=
  fun s scope calls => (scope = slot ∨ s.scopes.depth ≤ scope) ∧ s.calls ≤ calls

def deeper : StartSite :=
  fun s _ calls => s.calls < calls

/-- What is allowed later, with more scopes there, was allowed before. -/
def Narrows (allowed : StartSite) : Prop :=
  ∀ s t scope calls, s.scopes.depth ≤ t.scopes.depth → t.calls = s.calls →
    allowed t scope calls → allowed s scope calls

theorem narrows_newScope : newScope.Narrows :=
  fun _ _ _ _ more same allowed => ⟨Nat.le_trans more allowed.1, same ▸ allowed.2⟩

theorem narrows_inScope (slot : Slot) : (inScope slot).Narrows :=
  fun _ _ _ _ more same allowed => ⟨allowed.1.imp_right (Nat.le_trans more), same ▸ allowed.2⟩

theorem narrows_deeper : deeper.Narrows :=
  fun _ _ _ _ _ same allowed => Nat.lt_of_le_of_lt (Nat.le_of_eq same.symm) allowed

end StartSite

variable {α β : Type} {allowed : StartSite}

theorem exists_of_bind_done {x : Exec α} {f : α → Exec β} {s : RunState} {b : β}
    (ended : ((x >>= f).run s).ending = .done b) : ∃ a, (x.run s).ending = .done a ∧
      (x >>= f).run s = ((f a).run (x.run s).state).after (x.run s).events := by
  change ((bind x f).run s).ending = .done b at ended
  change ∃ a, _ ∧ (bind x f).run s = _
  rw [run_bind] at ended ⊢
  cases first : (x.run s).ending with
  | done a => exact ⟨a, rfl, rfl⟩
  | failed error =>
    rw [first] at ended
    cases ended
  | unfinished =>
    rw [first] at ended
    cases ended

theorem run_bind_pure {x : Exec α} {f : α → β} {s : RunState} {a : α}
    (ended : (x.run s).ending = .done a) :
    (x >>= fun a => Pure.pure (f a)).run s = { x.run s with ending := .done (f a) } := by
  change (bind x fun a => pure (f a)).run s = _
  rw [run_bind, ended]
  simp [run_pure, Outcome.after]

theorem StartsAt.quiet {x : Exec α} (depth : ∀ s, (x.run s).state.scopes.depth = s.scopes.depth)
    (calls : ∀ s, (x.run s).state.calls = s.calls)
    (quiet : ∀ s, ∀ event ∈ (x.run s).events, event.start? = none) : x.StartsAt allowed where
  depth s := Nat.le_of_eq (depth s).symm
  calls := calls
  starts s _ _ _ started := absurd (quiet s _ started) (by simp [Event.start?])

theorem StartsAt.pure (a : α) : (Pure.pure a : Exec α).StartsAt allowed :=
  .quiet (fun _ => rfl) (fun _ => rfl) nofun

theorem StartsAt.fail (error : EvalError) : (Exec.fail error : Exec α).StartsAt allowed :=
  .quiet (fun _ => rfl) (fun _ => rfl) nofun

theorem StartsAt.unfinished : (Exec.unfinished : Exec α).StartsAt allowed :=
  .quiet (fun _ => rfl) (fun _ => rfl) nofun

theorem StartsAt.ofExcept (x : Except EvalError α) : (Exec.ofExcept x).StartsAt allowed := by
  cases x with
  | ok a => exact .pure a
  | error error => exact .fail error

theorem StartsAt.inspect (view : RunState → Except EvalError α) :
    (Exec.inspect view).StartsAt allowed := by
  have looked : ∀ s, (Exec.ofExcept (view s)).StartsAt allowed := fun s => .ofExcept (view s)
  exact ⟨fun s => (looked s).depth s, fun s => (looked s).calls s, fun s => (looked s).starts s⟩

theorem StartsAt.bind (narrows : allowed.Narrows) {x : Exec α} {f : α → Exec β}
    (first : x.StartsAt allowed) (next : ∀ a, x.Gives a → (f a).StartsAt allowed) :
    (x >>= f).StartsAt allowed := by
  have all : ∀ s, s.scopes.depth ≤ ((Exec.bind x f).run s).state.scopes.depth ∧
      ((Exec.bind x f).run s).state.calls = s.calls ∧
      ∀ op scope calls, .started op scope calls ∈ ((Exec.bind x f).run s).events →
        allowed s scope calls := by
    intro s
    have kept := first.depth s
    have same := first.calls s
    have early := first.starts s
    rw [run_bind]
    cases ended : (x.run s).ending with
    | done a =>
      have later := next a ⟨s, ended⟩
      refine ⟨Nat.le_trans kept (later.depth _), (later.calls _).trans same, ?_⟩
      intro op scope calls started
      rcases List.mem_append.1 started with before | after
      · exact early op scope calls before
      · exact narrows s _ scope calls kept same (later.starts _ op scope calls after)
    | failed error => exact ⟨kept, same, early⟩
    | unfinished => exact ⟨kept, same, early⟩
  exact ⟨fun s => (all s).1, fun s => (all s).2.1, fun s => (all s).2.2⟩

theorem StartsAt.inChild (inner : Slot → StartSite) {slot : Slot} {f : Slot → Exec α}
    (within : ∀ s scope calls, inner s.scopes.depth { s with scopes := s.scopes.openChild slot }
      scope calls → allowed s scope calls)
    (inside : ∀ child, (f child).StartsAt (inner child)) :
    (Exec.inChild slot f).StartsAt allowed where
  depth s := by
    have kept := (inside s.scopes.depth).depth { s with scopes := s.scopes.openChild slot }
    rw [Scopes.depth_openChild] at kept
    exact Scopes.le_depth_release (Nat.le_of_succ_le kept)
  calls s := (inside s.scopes.depth).calls { s with scopes := s.scopes.openChild slot }
  starts s op scope calls started :=
    within s scope calls ((inside s.scopes.depth).starts _ op scope calls started)

end Exec

namespace Execution

open Exec

variable (store : Store) (settings : Settings) {run : Runner} {slot : Slot} {op : Operation}
  {allowed : StartSite}

theorem startsAt_enter {α : Type} {inner : StartSite} {x : Exec α}
    (within : ∀ s scope calls, inner { s with calls := s.calls + 1 } scope calls →
      allowed s scope calls)
    (inside : x.StartsAt inner) (f : FunctionValue) (args : List Value) :
    (enter settings f args x).StartsAt allowed := by
  have all : ∀ s, s.scopes.depth ≤ ((enter settings f args x).run s).state.scopes.depth ∧
      ((enter settings f args x).run s).state.calls = s.calls ∧
      ∀ op scope calls, .started op scope calls ∈ ((enter settings f args x).run s).events →
        allowed s scope calls := by
    intro s
    by_cases reached : ∃ n, settings.limit = some n ∧ n ≤ s.calls
    · obtain ⟨n, limit, reached⟩ := reached
      rw [run_enter_of_reached limit reached]
      exact ⟨Nat.le_refl _, rfl, nofun⟩
    · have room : ∀ n, settings.limit = some n → s.calls < n := by
        intro n limit
        exact Nat.lt_of_not_le fun le => reached ⟨n, limit, le⟩
      rw [run_enter_of_room room]
      have kept := inside.calls { s with calls := s.calls + 1 }
      refine ⟨inside.depth { s with calls := s.calls + 1 }, ?_, ?_⟩
      · simp only [kept, Nat.add_sub_cancel]
      · intro op scope calls started
        rcases List.mem_cons.1 started with same | started
        · cases same
        · exact within s scope calls (inside.starts _ op scope calls started)
  exact ⟨fun s => (all s).1, fun s => (all s).2.1, fun s => (all s).2.2⟩

def StartsBeside (allowed : StartSite) (α : Type) (x _ : Exec α) : Prop :=
  x.StartsAt allowed

theorem steps_startsAt (narrows : allowed.Narrows) : Steps (StartsBeside allowed) where
  pure a := .pure a
  fail error _ := .fail error
  coerce slot raw := .inspect fun s => s.scopes.coerce slot raw
  resolve slot name := .inspect fun s => s.scopes.resolve slot name
  eval operator left right := .ofExcept (operator.eval left right)
  note event _ quiet := .quiet (fun _ => rfl) (fun _ => rfl) fun s other logged => by
    obtain rfl := List.mem_singleton.1 logged
    exact quiet s.calls
  bindName slot name value :=
    .quiet (fun _ => Scopes.depth_bind value) (fun _ => rfl) fun s other logged => by
      obtain rfl := List.mem_singleton.1 logged
      rfl
  bind first next := .bind narrows first next
  inChild slot _ _ inside := by
    refine .inChild (fun _ => allowed) (fun s scope calls => ?_) inside
    exact narrows s _ scope calls (by simp) rfl

section Bodies

variable (inside : ∀ slot op, (run slot op).StartsAt (.inScope slot))

include inside

theorem startsAt_body (slot : Slot) (parent : OpId) (names : List (String × Value)) :
    (body store settings run parent slot names).StartsAt .newScope := by
  refine .inChild .inScope (fun s scope calls => ?_) fun child => ?_
  · rintro ⟨rfl | new, enough⟩
    · exact ⟨Nat.le_refl _, enough⟩
    · rw [Scopes.depth_openChild] at new
      exact ⟨Nat.le_of_succ_le new, enough⟩
  · have c := steps_startsAt (StartSite.narrows_inScope child)
    have bound := c.forM (fun entry : String × Value => c.bindName child entry.1 entry.2) names
    have ran : StartsBeside _ Exit _ (block settings run child (store.children (some parent))) :=
      c.block (fun op _ => inside child op) fun _ _ _ _ _ => rfl
    exact StartsAt.bind (StartSite.narrows_inScope child) bound fun _ _ => ran

theorem startsAt_call_body (slot : Slot) (f : FunctionValue) (args : List Value) :
    (do return (← body store settings run f.body slot (f.params.zip args)).value :
      Exec (Option Value)).StartsAt .newScope :=
  .bind StartSite.narrows_newScope (startsAt_body store settings inside slot _ _) fun _ _ => .pure _

theorem startsAt_perform (fuel : Nat) (slot : Slot) (op : Operation) :
    (perform store settings fuel run slot op).StartsAt .newScope := by
  have c := steps_startsAt StartSite.narrows_newScope
  have bodies := startsAt_body store settings inside slot
  change StartsBeside _ Exit _ (perform store settings fuel run slot op)
  refine c.perform fuel ?conditional ?whileLoop ?forLoop ?call
  case conditional => exact fun _ => c.conditional fun _ parent _ => bodies parent []
  case whileLoop =>
    exact fun _ => c.whileLoop .unfinished (bodies op.id []) (fun _ _ => rfl) fuel
  case forLoop => exact fun _ => c.forLoop (bodies op.id) fun _ _ _ => rfl
  case call =>
    intro _ params
    refine c.call (fun f args => ?_) params
    exact startsAt_enter settings (fun s scope calls new => ⟨new.1, Nat.le_of_succ_le new.2⟩)
      (startsAt_call_body store settings inside slot f args) f args

theorem startsDeeper_perform (plain : ¬ op.opcode.isControl) (fuel : Nat) (slot : Slot) :
    (perform store settings fuel run slot op).StartsAt .deeper := by
  have c := steps_startsAt StartSite.narrows_deeper
  change StartsBeside _ Exit _ (perform store settings fuel run slot op)
  refine c.perform fuel ?conditional ?whileLoop ?forLoop ?call
  case conditional => exact fun opcode => absurd (by rw [opcode]; rfl) plain
  case whileLoop => exact fun opcode => absurd (by rw [opcode]; rfl) plain
  case forLoop => exact fun opcode => absurd (by rw [opcode]; rfl) plain
  case call =>
    intro _ params
    refine c.call (fun f args => ?_) params
    exact startsAt_enter settings (fun s scope calls new => new.2)
      (startsAt_call_body store settings inside slot f args) f args

end Bodies

end Execution

open Execution

variable (store : Store) (settings : Settings)

theorem execute_startsAt (fuel : Nat) (slot : Slot) (op : Operation) :
    (execute store settings fuel slot op).StartsAt (.inScope slot) := by
  induction fuel generalizing slot op with
  | zero => exact .unfinished
  | succ fuel ih =>
    have performed := startsAt_perform store settings ih fuel slot op
    refine ⟨fun s => ?_, fun s => ?_, fun s other scope calls started => ?_⟩
    · rw [run_execute_succ]
      exact performed.depth s
    · rw [run_execute_succ]
      exact performed.calls s
    · rw [run_execute_succ] at started
      rcases List.mem_append.1 started with here | inside
      · cases List.mem_singleton.1 here
        exact ⟨.inl rfl, Nat.le_refl _⟩
      · obtain ⟨new, enough⟩ := performed.starts s other scope calls inside
        exact ⟨.inr new, enough⟩

/-- In its own scope an operation starts itself and nothing else. -/
theorem startedIn_execute (fuel : Nat) {slot : Slot} (op : Operation) {s : RunState}
    (live : slot < s.scopes.depth) :
    ((execute store settings (fuel + 1) slot op).run s).startedIn slot = [op] := by
  have performed :=
    startsAt_perform store settings (execute_startsAt store settings fuel) fuel slot op
  have elsewhere : ((perform store settings fuel (execute store settings fuel) slot op).run
      s).startedIn slot = [] := by
    refine List.filterMap_eq_nil_iff.2 fun event logged => ?_
    cases event with
    | started other scope calls =>
      have new := (performed.starts s other scope calls logged).1
      exact if_neg (Nat.ne_of_gt (Nat.lt_of_lt_of_le live new))
    | _ => rfl
  rw [run_execute_succ, Outcome.startedIn_after, elsewhere]
  simp [Event.startedIn?]

theorem run_execute_return {op : Operation} (opcode : op.opcode = .giveBack) (fuel : Nat)
    (slot : Slot) (s : RunState) : (execute store settings (fuel + 1) slot op).run s =
      match store.returned op s.scopes slot with
      | .ok value =>
        { ending := .done (.returned value)
          state := s
          events := [.started op slot s.calls, .returned value slot s.calls] }
      | .error error =>
        { ending := .failed error, state := s, events := [.started op slot s.calls] } := by
  rw [run_execute_succ]
  simp only [perform, opcode, giveBack, Store.returned]
  cases (store.parametersOf op.id).get? "value" with
  | none => rfl
  | some raw =>
    change Outcome.after _ ((Exec.bind (Exec.bind (Exec.inspect _) _) _).run s) = _
    rw [Exec.run_bind, Exec.run_bind, Exec.run_inspect]
    simp only [Option.mapM_some]
    cases s.scopes.coerce slot raw with
    | ok value => rfl
    | error error => rfl

end OpTree
