import OpTree.Proofs.Activations
import OpTree.Proofs.Entries
import OpTree.Proofs.Releases

set_option autoImplicit false

namespace OpTree

open Execution

namespace Call

section Causes

variable (store : Store) (settings : Settings) (op : Operation) (slot : Slot) (s : RunState)

/-- The arguments of a call have these values in the scope of the caller. -/
def Arguments (values : List Value) : Prop :=
  List.Forall₂ (fun raw value => s.scopes.coerce slot raw = .ok value)
    (listEntries (store.parametersOf op.id) "args") values

/-- Why a call enters no function. Each cause counts only where none of those before it does. -/
inductive Refused : EvalError → Prop
  | argument {before after : List String} {name : String} :
      listEntries (store.parametersOf op.id) "args" = before ++ ("$" ++ name) :: after →
      (∀ raw ∈ before, ∃ value, s.scopes.coerce slot raw = .ok value) →
      s.scopes.lookup slot name = none → Refused (.unboundVariable name)
  | nameless {values : List Value} : Arguments store op slot s values →
      (store.parametersOf op.id).get? "name" = none →
      Refused (.missingParameter op.id op.opcode "name")
  | unbound {values : List Value} {name : String} : Arguments store op slot s values →
      (store.parametersOf op.id).get? "name" = some name → s.scopes.lookup slot name = none →
      Refused (.unboundVariable name)
  | otherKind {values : List Value} {name : String} {value : Value} :
      Arguments store op slot s values → (store.parametersOf op.id).get? "name" = some name →
      s.scopes.lookup slot name = some value → (∀ f, value ≠ .function f) →
      Refused (.notAFunction name value.kind)
  | limit {values : List Value} {name : String} {f : FunctionValue} {n : Nat} :
      Arguments store op slot s values → (store.parametersOf op.id).get? "name" = some name →
      s.scopes.lookup slot name = some (.function f) → settings.limit = some n → n ≤ s.calls →
      Refused (.callDepthExceeded n)

structure Accepted (f : FunctionValue) (values : List Value) : Prop where
  arguments : Arguments store op slot s values
  named : ∃ name, (store.parametersOf op.id).get? "name" = some name ∧
    s.scopes.lookup slot name = some (.function f)
  room : ∀ n, settings.limit = some n → s.calls < n

end Causes

/-- The state in which the body of a function begins: in a new scope inside the caller's, in which a
parameter is bound if there is an argument in its place, to the last one if it is named again. -/
structure Begins (s : RunState) (slot : Slot) (f : FunctionValue) (values : List Value)
    (inner : RunState) : Prop where
  calls : inner.calls = s.calls + 1
  depth : inner.scopes.depth = s.scopes.depth + 1
  outer : ∀ i, i < s.scopes.depth → inner.scopes.slots[i]? = s.scopes.slots[i]?
  around : inner.scopes.parent? s.scopes.depth = some slot
  own : ∀ name value, inner.scopes.own? s.scopes.depth name = some value ↔
    ∃ i : Nat, f.params[i]? = some name ∧ values[i]? = some value ∧
      ∀ j, i < j → f.params[j]? = some name → values[j]? = none

end Call

def Ending.map {α β : Type} (f : α → β) : Ending α → Ending β
  | .done a => .done (f a)
  | .failed error => .failed error
  | .unfinished => .unfinished

def Ending.left? : Ending Exit → Option Value
  | .done exit => exit.value
  | _ => none

namespace Scopes

variable {s : Scopes} {slot : Slot} {names : List (String × Value)} {name : String}

theorem bindAll_eq_after : s.bindAll slot names =
    s.after (names.map fun entry => .bind slot entry.1 entry.2) := by
  rw [after, List.foldl_map]
  rfl

theorem permits_binds (live : slot < s.depth) :
    s.Permits (names.map fun entry => .bind slot entry.1 entry.2) := by
  induction names generalizing s with
  | nil => trivial
  | cons entry rest ih => exact ⟨live, ih (by rwa [move, depth_bind])⟩

theorem parent?_bindAll (i : Slot) : (s.bindAll slot names).parent? i = s.parent? i := by
  induction names generalizing s with
  | nil => rfl
  | cons entry rest ih => exact ih.trans (parent?_bind entry.2 i)

/-- Of several bindings of a name the last one counts. -/
theorem own?_bindAll (live : slot < s.depth) (unbound : s.own? slot name = none) {value : Value} :
    (s.bindAll slot names).own? slot name = some value ↔ ∃ before later,
      names = before ++ (name, value) :: later ∧ ∀ entry ∈ later, entry.1 ≠ name := by
  rw [bindAll_eq_after, own?_after (permits_binds live), unbound]
  constructor
  · rintro (⟨_, _, split, others⟩ | ⟨-, bound⟩)
    · obtain ⟨before, rest, rfl, rfl, tail⟩ := List.map_eq_append_iff.1 split
      obtain ⟨entry, later, rfl, same, rfl⟩ := List.map_eq_cons_iff.1 tail
      cases same
      refine ⟨before, later, rfl, fun entry there again => ?_⟩
      exact others _ (List.mem_map_of_mem there) ⟨rfl, again⟩
    · cases bound
  · rintro ⟨before, later, rfl, others⟩
    refine .inl ⟨before.map fun entry => .bind slot entry.1 entry.2,
      later.map fun entry => .bind slot entry.1 entry.2, by simp, fun m inside removed => ?_⟩
    obtain ⟨entry, there, rfl⟩ := List.mem_map.1 inside
    exact others entry there removed.2

end Scopes

theorem exists_last_zip_iff {α β : Type} {as : List α} {bs : List β} {a : α} {b : β} :
    (∃ before later, as.zip bs = before ++ (a, b) :: later ∧ ∀ entry ∈ later, entry.1 ≠ a) ↔
      ∃ i : Nat, as[i]? = some a ∧ bs[i]? = some b ∧
        ∀ j, i < j → as[j]? = some a → bs[j]? = none := by
  constructor
  · rintro ⟨before, later, whole, others⟩
    have here : (as.zip bs)[before.length]? = some (a, b) := by simp [whole]
    obtain ⟨first, second⟩ := List.getElem?_zip_eq_some.1 here
    refine ⟨before.length, first, second, fun j after again => ?_⟩
    cases other : bs[j]? with
    | none => rfl
    | some c =>
      have there : (as.zip bs)[j]? = some (a, c) := List.getElem?_zip_eq_some.2 ⟨again, other⟩
      obtain ⟨k, rfl⟩ := Nat.exists_eq_add_of_lt after
      have place : before.length + k + 1 - before.length = k + 1 := by omega
      rw [whole, List.getElem?_append_right (by omega), place, List.getElem?_cons_succ] at there
      exact absurd rfl (others (a, c) (List.mem_of_getElem? there))
  · rintro ⟨i, first, second, others⟩
    have here : (as.zip bs)[i]? = some (a, b) := List.getElem?_zip_eq_some.2 ⟨first, second⟩
    obtain ⟨below, same⟩ := List.getElem?_eq_some_iff.1 here
    refine ⟨(as.zip bs).take i, (as.zip bs).drop (i + 1), ?_, fun entry there again => ?_⟩
    · rw [← same, List.getElem_cons_drop, List.take_append_drop]
    · obtain ⟨k, found⟩ := List.mem_iff_getElem?.1 there
      rw [List.getElem?_drop] at found
      obtain ⟨named, given⟩ := List.getElem?_zip_eq_some.1 found
      rw [again] at named
      rw [others (i + 1 + k) (by omega) named] at given
      cases given

theorem begins_inBody (s : RunState) (slot : Slot) (f : FunctionValue) (values : List Value) :
    Call.Begins s slot f values
      (RunState.inBody { s with calls := s.calls + 1 } slot (f.params.zip values)) where
  calls := rfl
  depth := (Scopes.depth_bindAll _ _ _).trans Scopes.depth_openChild
  outer i there := by
    have opened : s.scopes.depth < (s.scopes.openChild slot).depth := by simp
    have kept : s.scopes.KeptIn ((s.scopes.openChild slot).bindAll s.scopes.depth
        (f.params.zip values)) := by
      rw [Scopes.bindAll_eq_after]
      refine Scopes.KeptIn.openChild.after (Scopes.permits_binds opened) fun m inside => ?_
      obtain ⟨entry, -, rfl⟩ := List.mem_map.1 inside
      exact Nat.le_refl s.scopes.depth
    exact kept.same i there
  around := by
    rw [RunState.inBody, Scopes.parent?_bindAll, Scopes.parent?_openChild, if_pos rfl]
  own name value := by
    have opened : s.scopes.depth < (s.scopes.openChild slot).depth := by simp
    have unbound : (s.scopes.openChild slot).own? s.scopes.depth name = none := by
      rw [Scopes.own?_openChild, Scopes.own?_of_le (Nat.le_refl s.scopes.depth)]
    rw [← exists_last_zip_iff]
    exact Scopes.own?_bindAll opened unbound

theorem Parameters.get?_eq_some_iff {p : Parameters} {key text : String} :
    p.get? key = some text ↔ (key, some text) ∈ p.entries := by
  obtain ⟨rows, distinct⟩ := p
  change (rows.find? fun entry => entry.1 == key).bind Prod.snd = some text ↔ _ ∈ rows
  induction rows with
  | nil => simp
  | cons entry rest ih =>
    obtain ⟨first, others⟩ := List.nodup_cons.1 distinct
    by_cases here : entry.1 = key
    · subst here
      have nowhere : (entry.1, some text) ∉ rest := fun there =>
        first (List.mem_map.2 ⟨_, there, rfl⟩)
      rw [List.find?_cons_of_pos (by simp), List.mem_cons, or_iff_left nowhere]
      simp [Prod.ext_iff, eq_comm]
    · have other : (key, some text) ≠ entry := by
        rintro rfl
        exact here rfl
      rw [List.find?_cons_of_neg (by simpa using here), List.mem_cons, or_iff_right other]
      exact ih others

section Coercions

variable {s : Scopes} {slot : Slot} {raw : String} {error : EvalError}

theorem toList_reference (name : String) : ("$" ++ name).toList = '$' :: name.toList := by
  rw [String.toList_append]
  rfl

theorem Scopes.coerce_reference (s : Scopes) (slot : Slot) (name : String) :
    s.coerce slot ("$" ++ name) = s.resolve slot name := by
  rw [coerce, toList_reference]
  simp only [String.ofList_toList]

theorem Scopes.coerce_eq_error_iff : s.coerce slot raw = .error error ↔
    ∃ name, raw = "$" ++ name ∧ s.lookup slot name = none ∧ error = .unboundVariable name := by
  constructor
  · intro failed
    unfold coerce at failed
    split at failed
    case h_1 letters whole =>
      refine ⟨String.ofList letters, ?_, ?_⟩
      · rw [← String.toList_inj, whole]
        simp
      · unfold resolve at failed
        split at failed
        case h_1 => cases failed
        case h_2 unbound =>
          cases failed
          exact ⟨unbound, rfl⟩
    case h_2 => cases failed
  · rintro ⟨name, rfl, unbound, rfl⟩
    rw [coerce_reference, resolve, unbound]

/-- The entries of a list all have values, or there is a first one that has none. -/
theorem Scopes.values_or_first_error (s : Scopes) (slot : Slot) (raws : List String) :
    (∃ values, List.Forall₂ (fun raw value => s.coerce slot raw = .ok value) raws values) ∨
      ∃ before bad after error, raws = before ++ bad :: after ∧
        (∀ raw ∈ before, ∃ value, s.coerce slot raw = .ok value) ∧
        s.coerce slot bad = .error error := by
  induction raws with
  | nil => exact .inl ⟨[], .nil⟩
  | cons raw raws ih =>
    cases here : s.coerce slot raw with
    | error error => exact .inr ⟨[], raw, raws, error, rfl, nofun, here⟩
    | ok value =>
      rcases ih with ⟨values, each⟩ | ⟨before, bad, after, error, rfl, earlier, failed⟩
      · exact .inl ⟨value :: values, .cons here each⟩
      · refine .inr ⟨raw :: before, bad, after, error, rfl, ?_, failed⟩
        exact List.forall_mem_cons.2 ⟨⟨value, here⟩, earlier⟩

end Coercions

namespace Execution

open Exec

section Runs

variable {α β : Type} {s : RunState} {slot : Slot} {error : EvalError}

theorem run_bind_of_failed {x : Exec α}
    (first : x.run s = { ending := .failed error, state := s, events := [] }) (f : α → Exec β) :
    (x >>= f).run s = { ending := .failed error, state := s, events := [] } := by
  change (Exec.bind x f).run s = _
  rw [run_bind, first]

theorem run_coerce_of_error {raw : String} (failed : s.scopes.coerce slot raw = .error error) :
    (Exec.coerce slot raw).run s = { ending := .failed error, state := s, events := [] } := by
  rw [Exec.coerce, run_inspect, failed]
  rfl

theorem run_coerceAll {raws : List String} {values : List Value}
    (each : List.Forall₂ (fun raw value => s.scopes.coerce slot raw = .ok value) raws values) :
    (raws.mapM fun raw => Exec.coerce slot raw).run s =
      { ending := .done values, state := s, events := [] } := by
  induction each with
  | nil => rfl
  | cons here _ ih =>
    rw [List.mapM_cons, run_bind_of_done (run_coerce_of_ok here), run_bind_of_done ih]
    rfl

theorem run_coerceAll_of_error {before : List String} {bad : String} (after : List String)
    (earlier : ∀ raw ∈ before, ∃ value, s.scopes.coerce slot raw = .ok value)
    (failed : s.scopes.coerce slot bad = .error error) :
    ((before ++ bad :: after).mapM fun raw => Exec.coerce slot raw).run s =
      { ending := .failed error, state := s, events := [] } := by
  induction before with
  | nil => rw [List.nil_append, List.mapM_cons, run_bind_of_failed (run_coerce_of_error failed)]
  | cons raw before ih =>
    obtain ⟨⟨value, here⟩, others⟩ := List.forall_mem_cons.1 earlier
    rw [List.cons_append, List.mapM_cons, run_bind_of_done (run_coerce_of_ok here),
      run_bind_of_failed (ih others)]

theorem run_required_of_none {op : Operation} {params : Parameters} {key : String}
    (absent : params.get? key = none) : (required op params key).run s =
      { ending := .failed (.missingParameter op.id op.opcode key), state := s, events := [] } := by
  rw [required, absent]
  rfl

theorem run_resolveFunction (slot : Slot) (name : String) (s : RunState) :
    (resolveFunction slot name).run s =
      { ending := match s.scopes.lookup slot name with
          | some (.function f) => .done f
          | some other => .failed (.notAFunction name other.kind)
          | none => .failed (.unboundVariable name)
        state := s
        events := [] } := by
  have looked : (Exec.resolve slot name).run s =
      (Exec.ofExcept (s.scopes.resolve slot name)).run s := run_inspect _ s
  change (Exec.bind (Exec.resolve slot name) _).run s = _
  rw [run_bind, looked, Scopes.resolve]
  cases s.scopes.lookup slot name with
  | none => rfl
  | some value => cases value <;> rfl

theorem run_bindTarget {target : Option String} {value : Option Value} (a : α) :
    (bindTarget slot target value >>= fun _ => Pure.pure a).run s =
      match target, value with
      | some name, some value =>
        { ending := .done a
          state := { s with scopes := s.scopes.bind slot name value }
          events := [.bound slot name value] }
      | _, _ => { ending := .done a, state := s, events := [] } := by
  cases target <;> cases value <;> rfl

theorem run_bind_map (x : Exec α) (f : α → β) (s : RunState) :
    (x >>= fun a => Pure.pure (f a)).run s =
      { x.run s with ending := (x.run s).ending.map f } := by
  change (Exec.bind x fun a => Exec.pure (f a)).run s = _
  rw [run_bind]
  cases (x.run s).ending with
  | done a => simp [run_pure, Outcome.after, Ending.map]
  | failed error => rfl
  | unfinished => rfl

end Runs

section Calls

variable {store : Store} {settings : Settings} {op : Operation} {slot : Slot} {s : RunState}
  {error : EvalError} {f : FunctionValue} {values : List Value}

open Call

theorem run_call_of_named {name : String} (each : Arguments store op slot s values)
    (named : (store.parametersOf op.id).get? "name" = some name) (run : Runner) :
    (call store settings run slot op (store.parametersOf op.id)).run s =
      (do
        let f ← resolveFunction slot name
        checkDepth settings
        let value ← invoke store settings run slot f values
        bindTarget slot ((store.parametersOf op.id).get? "result") value
        return Exit.normal value : Exec Exit).run s := by
  rw [call, run_bind_of_done (run_coerceAll each), run_required_bind named]

theorem run_call_of_refused (refused : Refused store settings op slot s error) (run : Runner) :
    (call store settings run slot op (store.parametersOf op.id)).run s =
      { ending := .failed error, state := s, events := [] } := by
  cases refused with
  | argument listed earlier unbound =>
    have failed := Scopes.coerce_eq_error_iff.2 ⟨_, rfl, unbound, rfl⟩
    rw [call, listed, run_bind_of_failed (run_coerceAll_of_error _ earlier failed)]
  | nameless each absent =>
    rw [call, run_bind_of_done (run_coerceAll each),
      run_bind_of_failed (run_required_of_none absent)]
  | @unbound values name each named unbound =>
    have failed := run_resolveFunction slot name s
    rw [unbound] at failed
    rw [run_call_of_named each named, run_bind_of_failed failed]
  | @otherKind values name value each named found other =>
    have failed : (resolveFunction slot name).run s =
        { ending := .failed (.notAFunction name value.kind), state := s, events := [] } := by
      rw [run_resolveFunction, found]
      cases value with
      | function f => exact absurd rfl (other f)
      | _ => rfl
    rw [run_call_of_named each named, run_bind_of_failed failed]
  | @limit values name f n each named found limit reached =>
    have resolved := run_resolveFunction slot name s
    rw [found] at resolved
    rw [run_call_of_named each named, run_bind_of_done resolved,
      run_bind_of_failed (run_checkDepth_of_reached limit reached)]

theorem run_call_of_invoke (accepted : Accepted store settings op slot s f values)
    (run : Runner) : (call store settings run slot op (store.parametersOf op.id)).run s =
      (invoke store settings run slot f values >>= fun value =>
        bindTarget slot ((store.parametersOf op.id).get? "result") value >>= fun _ =>
          Pure.pure (.normal value)).run s := by
  obtain ⟨each, ⟨name, named, found⟩, room⟩ := accepted
  have resolved := run_resolveFunction slot name s
  rw [found] at resolved
  rw [run_call_of_named each named, run_bind_of_done resolved,
    run_bind_of_done (run_checkDepth_of_room room)]

theorem refused_or_accepted (store : Store) (settings : Settings) (op : Operation) (slot : Slot)
    (s : RunState) : (∃ error, Refused store settings op slot s error) ∨
      ∃ f values, Accepted store settings op slot s f values := by
  rcases s.scopes.values_or_first_error slot (listEntries (store.parametersOf op.id) "args") with
    ⟨values, each⟩ | ⟨before, bad, after, error, listed, earlier, failed⟩
  · cases named : (store.parametersOf op.id).get? "name" with
    | none => exact .inl ⟨_, .nameless each named⟩
    | some name =>
      cases found : s.scopes.lookup slot name with
      | none => exact .inl ⟨_, .unbound each named found⟩
      | some value =>
        by_cases function : ∃ f, value = .function f
        · obtain ⟨f, rfl⟩ := function
          by_cases reached : ∃ n, settings.limit = some n ∧ n ≤ s.calls
          · obtain ⟨n, limit, reached⟩ := reached
            exact .inl ⟨_, .limit each named found limit reached⟩
          · refine .inr ⟨f, values, each, ⟨name, named, found⟩, fun n limit => ?_⟩
            exact Nat.lt_of_not_le fun le => reached ⟨n, limit, le⟩
        · exact .inl ⟨_, .otherKind each named found fun f same => function ⟨f, same⟩⟩
  · obtain ⟨name, rfl, unbound, -⟩ := Scopes.coerce_eq_error_iff.1 failed
    exact .inl ⟨_, .argument listed earlier unbound⟩

theorem run_invoke_runBlock (live : slot < s.scopes.depth) (fuel : Nat) :
    (invoke store settings (execute store settings fuel) slot f values).run s =
      let r := (runBlock store settings fuel s.scopes.depth (some f.body)).run
        (RunState.inBody { s with calls := s.calls + 1 } slot (f.params.zip values))
      { ending := r.ending.map Exit.value
        state := s
        events := .called f values (s.calls + 1) :: (f.params.zip values).map (fun entry =>
          .bound s.scopes.depth entry.1 entry.2) ++ r.events } := by
  have confined := execute_confined store settings fuel
  have kept := keeps_invoke store settings confined f values s live
  rw [run_invoke, run_bind_map, run_body] at kept ⊢
  simp only [] at kept ⊢
  rw [kept]
  rfl

theorem run_call_of_accepted (live : slot < s.scopes.depth)
    (accepted : Accepted store settings op slot s f values) (fuel : Nat) :
    let params := store.parametersOf op.id
    let o := (call store settings (execute store settings fuel) slot op params).run s
    let r := (runBlock store settings fuel s.scopes.depth (some f.body)).run
      (RunState.inBody { s with calls := s.calls + 1 } slot (f.params.zip values))
    let events := .called f values (s.calls + 1) :: (f.params.zip values).map (fun entry =>
      .bound s.scopes.depth entry.1 entry.2) ++ r.events
    o.ending = r.ending.map (fun exit => .normal exit.value) ∧
    (∀ target value, params.get? "result" = some target → r.ending.left? = some value →
      o.state = { s with scopes := s.scopes.bind slot target value } ∧
        o.events = events ++ [.bound slot target value]) ∧
    (params.get? "result" = none ∨ r.ending.left? = none → o.state = s ∧ o.events = events) := by
  intro params o r events
  have whole : o = (Exec.bind (invoke store settings (execute store settings fuel) slot f values)
      fun value => bindTarget slot (params.get? "result") value >>= fun _ =>
        Pure.pure (Exit.normal value)).run s :=
    run_call_of_invoke accepted (execute store settings fuel)
  have invoked : (invoke store settings (execute store settings fuel) slot f values).run s =
      { ending := r.ending.map Exit.value, state := s, events } := run_invoke_runBlock live fuel
  rw [whole, run_bind, invoked]
  cases r.ending with
  | done exit =>
    simp only [Ending.map, run_bindTarget, Ending.left?]
    cases params.get? "result" <;> cases exit.value <;> simp [Outcome.after]
  | failed error => simp [Ending.map, Ending.left?]
  | unfinished => simp [Ending.map, Ending.left?]

end Calls

end Execution

/-- A list under a key has one entry more than its text has commas, and it is the only one that the
text can have been written for; without a text it is empty. A function has such a list of parameters
and a call such a list of arguments. A call is refused for the first cause that there is, and then
it does nothing else; otherwise it enters the function. The body begins in a new scope with the
parameters bound in it, and the call ends as the body does. The result comes to the scope of the
call if there are a value and a name for it, and nothing else does. -/
theorem execute_call (store : Store) (settings : Settings) (fuel : Nat) {op : Operation}
    (opcode : op.opcode = .call) {slot : Slot} {s : RunState} (live : slot < s.scopes.depth) :
    let params := store.parametersOf op.id
    let o := (execute store settings (fuel + 1) slot op).run s
    (∀ (given : Parameters) key,
      ((∀ text, (key, some text) ∉ given.entries) → listEntries given key = []) ∧
      ∀ text, (key, some text) ∈ given.entries →
        (listEntries given key).length = text.toList.count ',' + 1 ∧
        ∀ listed, listEntries given key = listed ↔ Lists text listed) ∧
    (∀ (definition : Operation) name, definition.opcode = .function →
      (store.parametersOf definition.id).get? "name" = some name →
      (execute store settings (fuel + 1) slot definition).run s =
        let f := ⟨name, listEntries (store.parametersOf definition.id) "params", definition.id⟩
        { ending := .done (.normal none)
          state := { s with scopes := s.scopes.bind slot name (.function f) }
          events := [.started definition slot s.calls, .bound slot name (.function f)] }) ∧
    ((∃ error, Call.Refused store settings op slot s error) ∨
      ∃ f values, Call.Accepted store settings op slot s f values) ∧
    (∀ error, Call.Refused store settings op slot s error →
      o = { ending := .failed error, state := s, events := [.started op slot s.calls] }) ∧
    ∀ f values, Call.Accepted store settings op slot s f values →
      ∃ inner, Call.Begins s slot f values inner ∧
        let r := (runBlock store settings fuel s.scopes.depth (some f.body)).run inner
        let events := .started op slot s.calls :: .called f values (s.calls + 1) ::
          (f.params.zip values).map (fun entry => .bound s.scopes.depth entry.1 entry.2) ++ r.events
        o.ending = r.ending.map (fun exit => .normal exit.value) ∧
        (∀ target value, params.get? "result" = some target → r.ending.left? = some value →
          o.state = { s with scopes := s.scopes.bind slot target value } ∧
            o.events = events ++ [.bound slot target value]) ∧
        (params.get? "result" = none ∨ r.ending.left? = none →
          o.state = s ∧ o.events = events) := by
  intro params o
  have ran : o = ((call store settings (execute store settings fuel) slot op params).run s).after
      [.started op slot s.calls] := by
    simp only [o, run_execute_succ, perform, opcode, params]
  refine ⟨fun given key => ?_, fun definition name function named => ?_,
    refused_or_accepted store settings op slot s, fun error refused => ?_,
    fun f values accepted => ?_⟩
  · refine ⟨fun absent => ?_, fun text there => ?_⟩
    · have none : given.get? key = none :=
        Option.eq_none_iff_forall_ne_some.2 fun text there =>
          absent text (Parameters.get?_eq_some_iff.1 there)
      rw [listEntries, none]
      rfl
    · have same : listEntries given key = entries text := by
        rw [listEntries, Parameters.get?_eq_some_iff.2 there]
        rfl
      rw [same]
      exact ⟨length_entries text, fun listed => entries_eq_iff⟩
  · rw [run_execute_succ, perform, function]
    simp only []
    rw [define, run_required_bind named]
    rfl
  · rw [ran, run_call_of_refused refused]
    rfl
  · obtain ⟨ending, bound, unbound⟩ := run_call_of_accepted live accepted fuel
    refine ⟨_, begins_inBody s slot f values, ?_⟩
    rw [ran]
    refine ⟨ending, fun target value named left => ?_, fun nothing => ?_⟩
    · obtain ⟨state, events⟩ := bound target value named left
      exact ⟨state, congrArg (Event.started op slot s.calls :: ·) events⟩
    · obtain ⟨state, events⟩ := unbound nothing
      exact ⟨state, congrArg (Event.started op slot s.calls :: ·) events⟩

/-- The first parameter is named again, and it is bound to the third argument; the fourth one is not
bound. Another call is refused for its second argument, though it names no function either. -/
theorem execute_call_repeated :
    let store : Store := {
      operations := (Table.ofRows? [(1, ⟨"function", none, 1⟩), (2, ⟨"print", some ⟨1⟩, 1⟩),
        (3, ⟨"print", some ⟨1⟩, 2⟩), (4, ⟨"return", some ⟨1⟩, 3⟩), (5, ⟨"call", none, 2⟩),
        (6, ⟨"call", none, 3⟩)] 6).getD .empty
      parameters := (Table.ofRows? [(1, ⟨⟨1⟩, "name", some "f"⟩),
        (2, ⟨⟨1⟩, "params", some "a, b ,a"⟩), (3, ⟨⟨2⟩, "value", some "$a"⟩),
        (4, ⟨⟨3⟩, "value", some "$b"⟩), (5, ⟨⟨4⟩, "value", some "$a"⟩),
        (6, ⟨⟨5⟩, "name", some "f"⟩), (7, ⟨⟨5⟩, "args", some " 1 ,,$x, 4"⟩),
        (8, ⟨⟨5⟩, "result", some "r"⟩), (9, ⟨⟨6⟩, "args", some "1,$u"⟩)] 9).getD .empty }
    let settings : Settings := ⟨.unwind, some 1⟩
    let f : FunctionValue := ⟨"f", ["a", "b", "a"], ⟨1⟩⟩
    let values : List Value := [.int 1, .str "", .int 9, .int 4]
    let s : RunState := {
      scopes := (Scopes.initial.bind Scopes.root "x" (.int 9)).bind Scopes.root "f" (.function f)
      calls := 0 }
    let op : Operation := ⟨⟨5⟩, .call, none, 2⟩
    let other : Operation := ⟨⟨6⟩, .call, none, 3⟩
    let o := (execute store settings 3 Scopes.root op).run s
    Scopes.root < s.scopes.depth ∧ Call.Accepted store settings op Scopes.root s f values ∧
      Call.Refused store settings other Scopes.root s (.unboundVariable "u") ∧
      o.lines = ["9", ""] ∧ o.state.scopes.lookup Scopes.root "r" = some (.int 9) ∧
      (∃ inner, Call.Begins s Scopes.root f values inner) ∧
      (execute store settings 3 Scopes.root other).run s =
        { ending := .failed (.unboundVariable "u"), state := s,
          events := [.started other Scopes.root 0] } := by
  intro store settings f values s op other o
  have live : Scopes.root < s.scopes.depth := by decide
  have accepted : Call.Accepted store settings op Scopes.root s f values := by
    refine ⟨?_, ⟨"f", by decide, by decide⟩, fun n limit => ?_⟩
    · have listed : listEntries (store.parametersOf op.id) "args" = ["1", "", "$x", "4"] := by
        decide
      rw [Call.Arguments, listed]
      exact .cons (by decide) (.cons (by decide) (.cons (by decide) (.cons (by decide) .nil)))
    · cases limit
      decide
  have refused : Call.Refused store settings other Scopes.root s (.unboundVariable "u") := by
    have listed : listEntries (store.parametersOf other.id) "args" = ["1"] ++ ["$" ++ "u"] := by
      decide
    refine .argument listed (fun raw there => ⟨.int 1, ?_⟩) (by decide)
    cases List.mem_singleton.1 there
    decide
  obtain ⟨-, -, -, -, entered⟩ := execute_call store settings 2 (rfl : op.opcode = .call) live
  obtain ⟨-, -, -, stopped, -⟩ := execute_call store settings 2 (rfl : other.opcode = .call) live
  obtain ⟨inner, begins, -⟩ := entered f values accepted
  exact ⟨live, accepted, refused, by decide, by decide, ⟨inner, begins⟩, stopped _ refused⟩

end OpTree
