import OpTree.Proofs.CallLimit
import OpTree.Proofs.ScopeHistories

set_option autoImplicit false

namespace OpTree

namespace Exec

variable {α β : Type}

/-- The computation is put together from single steps. -/
inductive Stepwise : {α : Type} → Exec α → Prop
  | pure {α : Type} (a : α) : Stepwise (Pure.pure a : Exec α)
  | fail {α : Type} (error : EvalError) : Stepwise (.fail error : Exec α)
  | unfinished {α : Type} : Stepwise (.unfinished : Exec α)
  | inspect {α : Type} (view : RunState → Except EvalError α) : Stepwise (.inspect view)
  | log (event : Event) : Stepwise (.log event)
  | bindName (slot : Slot) (name : String) (value : Value) : Stepwise (.bindName slot name value)
  | bind {α β : Type} {x : Exec α} {f : α → Exec β} : Stepwise x →
      (∀ a, x.Gives a → Stepwise (f a)) → Stepwise (x >>= f)
  | inChild {α : Type} (slot : Slot) {body : Slot → Exec α} : (∀ child, Stepwise (body child)) →
      Stepwise (.inChild slot body)
  | inCall {α : Type} {body : Exec α} : Stepwise body → Stepwise (.inCall body)

/-- A moment of the computation from one state on: the state that it comes to and what has
happened by then. -/
inductive ComesTo : {α : Type} → Exec α → RunState → RunState → List Event → Prop
  | start {α : Type} (x : Exec α) (s : RunState) : ComesTo x s s []
  | finish {α : Type} {x : Exec α} (s : RunState) : Stepwise x →
      ComesTo x s (x.run s).state (x.run s).events
  | first {α β : Type} {x : Exec α} {f : α → Exec β} {s t : RunState} {events : List Event} :
      ComesTo x s t events → ComesTo (x >>= f) s t events
  | later {α β : Type} {x : Exec α} {f : α → Exec β} {s t : RunState} {a : α}
      {events : List Event} : Stepwise x → (x.run s).ending = .done a →
      ComesTo (f a) (x.run s).state t events →
      ComesTo (x >>= f) s t ((x.run s).events ++ events)
  | inChild {α : Type} {slot : Slot} {body : Slot → Exec α} {s t : RunState}
      {events : List Event} :
      ComesTo (body s.scopes.depth) { s with scopes := s.scopes.openChild slot } t events →
      ComesTo (.inChild slot body) s t events
  | inCall {α : Type} {body : Exec α} {s t : RunState} {events : List Event} :
      ComesTo body { s with calls := s.calls + 1 } t events → ComesTo (.inCall body) s t events

variable {x : Exec α} {s t : RunState} {events : List Event}

theorem run_bind_of_ending {f : α → Exec β} {a : α} (ended : (x.run s).ending = .done a) :
    (x >>= f).run s = ((f a).run (x.run s).state).after (x.run s).events := by
  change (Exec.bind x f).run s = _
  rw [run_bind, ended]

theorem ComesTo.isPrefix (comes : x.ComesTo s t events) : events <+: (x.run s).events := by
  induction comes with
  | start x s => exact List.nil_prefix
  | finish s _ => exact List.prefix_rfl
  | first _ ih => exact ih.trans (prefix_run_bind _ _ _)
  | later _ ended _ ih =>
    rw [run_bind_of_ending ended]
    exact (List.prefix_append_right_inj _).mpr ih
  | inChild _ ih => exact ih
  | inCall _ ih => exact ih

theorem run_bind_of_not_done {f : α → Exec β} (stopped : ∀ a, (x.run s).ending ≠ .done a) :
    ((x >>= f).run s).state = (x.run s).state ∧ ((x >>= f).run s).events = (x.run s).events := by
  change ((Exec.bind x f).run s).state = _ ∧ ((Exec.bind x f).run s).events = _
  rw [run_bind]
  cases ended : (x.run s).ending with
  | done a => exact absurd ended (stopped a)
  | failed error => exact ⟨rfl, rfl⟩
  | unfinished => exact ⟨rfl, rfl⟩

theorem exists_comesTo_of_step (stepwise : x.Stepwise) {event : Event}
    (logged : (x.run s).events <+: [event]) (begins : events <+: (x.run s).events) :
    ∃ t, x.ComesTo s t events := by
  rcases List.prefix_cons_iff.mp (begins.trans logged) with rfl | ⟨rest, rfl, none⟩
  · exact ⟨s, .start x s⟩
  · obtain rfl := List.prefix_nil.mp none
    rw [← logged.eq_of_length_le begins.length_le]
    exact ⟨_, .finish s stepwise⟩

/-- For every beginning of the trace there is a moment at which just this has happened. -/
theorem exists_comesTo (stepwise : x.Stepwise) (s : RunState)
    (begins : events <+: (x.run s).events) : ∃ t, x.ComesTo s t events := by
  induction stepwise generalizing s events with
  | pure a => exact ⟨s, List.prefix_nil.mp begins ▸ .start _ s⟩
  | fail error => exact ⟨s, List.prefix_nil.mp begins ▸ .start _ s⟩
  | unfinished => exact ⟨s, List.prefix_nil.mp begins ▸ .start _ s⟩
  | inspect view =>
    have quiet : ((Exec.inspect view).run s).events = [] := by
      rw [run_inspect]
      cases view s <;> rfl
    rw [quiet] at begins
    exact ⟨s, List.prefix_nil.mp begins ▸ .start _ s⟩
  | log event => exact exists_comesTo_of_step (.log event) List.prefix_rfl begins
  | bindName slot name value =>
    exact exists_comesTo_of_step (.bindName slot name value) List.prefix_rfl begins
  | @bind α β x f first _ ih later =>
    by_cases done : ∃ a, (x.run s).ending = .done a
    · -- What has happened by then ends within the first part or reaches into the second one.
      obtain ⟨a, ended⟩ := done
      rw [run_bind_of_ending ended] at begins
      rcases List.prefix_or_prefix_of_prefix begins (List.prefix_append _ _) with early | late
      · obtain ⟨t, comes⟩ := ih s early
        exact ⟨t, .first comes⟩
      · obtain ⟨more, rfl⟩ := late
        obtain ⟨t, comes⟩ := later a ⟨s, ended⟩ _ ((List.prefix_append_right_inj _).mp begins)
        exact ⟨t, .later first ended comes⟩
    · rw [(run_bind_of_not_done fun a ended => done ⟨a, ended⟩).2] at begins
      obtain ⟨t, comes⟩ := ih s begins
      exact ⟨t, .first comes⟩
  | inChild slot _ ih =>
    obtain ⟨t, comes⟩ := ih s.scopes.depth _ begins
    exact ⟨t, .inChild comes⟩
  | inCall _ ih =>
    obtain ⟨t, comes⟩ := ih _ begins
    exact ⟨t, .inCall comes⟩

end Exec

namespace Scopes

variable {scopes : Scopes} {slot i : Slot} {name other : String} {value v : Value}

theorem own?_of_bind (bound : (scopes.bind slot name value).own? i other = some v) :
    scopes.own? i other = some v ∨ i = slot ∧ other = name ∧ v = value := by
  by_cases live : slot < scopes.depth
  · rw [own?_bind value live] at bound
    split at bound
    case isTrue here => exact .inr ⟨here.1, here.2, (Option.some.inj bound).symm⟩
    case isFalse => exact .inl bound
  · left
    by_cases here : i = slot
    · subst here
      rw [own?_of_le (by rw [depth_bind]; exact Nat.le_of_not_lt live)] at bound
      cases bound
    · rwa [own?, slots_bind, if_neg here] at bound

theorem exists_own?_of_lookup (found : scopes.lookup slot name = some value) :
    ∃ i, scopes.own? i name = some value := by
  unfold lookup at found
  generalize slot + 1 = fuel at found
  induction fuel generalizing slot with
  | zero => cases found
  | succ fuel ih =>
    rw [lookupFrom] at found
    cases here : scopes.slots[slot]? with
    | none => simp [here] at found
    | some scope =>
      simp only [here] at found
      cases own : scope.get? name with
      | some v =>
        simp only [own] at found
        exact ⟨slot, by rw [own?, here, Option.bind_some, own, found]⟩
      | none =>
        simp only [own] at found
        cases around : scope.parent with
        | none => simp [around] at found
        | some parent =>
          simp only [around] at found
          exact ih found

theorem own?_of_release (bound : (scopes.release slot).own? i name = some v) :
    scopes.own? i name = some v := by
  rw [own?_release] at bound
  split at bound
  case isTrue => cases bound
  case isFalse => exact bound

end Scopes

namespace Exec

variable {α β : Type} {x : Exec α} {s t : RunState} {events : List Event} {slot : Slot}
  {name : String} {value : Value}

theorem own?_run (stepwise : x.Stepwise)
    (bound : (x.run s).state.scopes.own? slot name = some value) :
    s.scopes.own? slot name = some value ∨ .bound slot name value ∈ (x.run s).events := by
  induction stepwise generalizing s with
  | pure a => exact .inl bound
  | fail error => exact .inl bound
  | unfinished => exact .inl bound
  | inspect view =>
    have quiet : ((Exec.inspect view).run s).state = s := by
      rw [run_inspect]
      cases view s <;> rfl
    rw [quiet] at bound
    exact .inl bound
  | log event => exact .inl bound
  | bindName slot' name' value' =>
    rw [run_bindName] at bound ⊢
    rcases Scopes.own?_of_bind bound with old | ⟨rfl, rfl, rfl⟩
    · exact .inl old
    · exact .inr (List.mem_singleton_self _)
  | @bind α β x f _ _ ih later =>
    by_cases done : ∃ a, (x.run s).ending = .done a
    · obtain ⟨a, ended⟩ := done
      rw [run_bind_of_ending ended] at bound ⊢
      rcases later a ⟨s, ended⟩ bound with old | new
      · exact (ih old).imp_right (List.mem_append_left _)
      · exact .inr (List.mem_append_right _ new)
    · obtain ⟨state, events⟩ := run_bind_of_not_done (f := f) fun a ended => done ⟨a, ended⟩
      rw [state] at bound
      rw [events]
      exact ih bound
  | inChild slot' _ ih =>
    rw [run_inChild] at bound
    rcases ih s.scopes.depth (Scopes.own?_of_release bound) with old | new
    · rw [Scopes.own?_openChild] at old
      exact .inl old
    · exact .inr new
  | inCall _ ih => exact ih bound

theorem own?_comesTo (comes : x.ComesTo s t events)
    (bound : t.scopes.own? slot name = some value) :
    s.scopes.own? slot name = some value ∨ .bound slot name value ∈ events := by
  induction comes with
  | start x s => exact .inl bound
  | finish s stepwise => exact own?_run stepwise bound
  | first _ ih => exact ih bound
  | later stepwise ended _ ih =>
    rcases ih bound with old | new
    · exact (own?_run stepwise old).imp_right (List.mem_append_left _)
    · exact .inr (List.mem_append_right _ new)
  | inChild _ ih =>
    rcases ih bound with old | new
    · rw [Scopes.own?_openChild] at old
      exact .inl old
    · exact .inr new
  | inCall _ ih => exact ih bound

end Exec

namespace Execution

open Exec

/-- The property as a relation, which does not look at the second computation. -/
def StepwiseBeside (α : Type) (x _ : Exec α) : Prop :=
  x.Stepwise

theorem stepwise_ofExcept {α : Type} (result : Except EvalError α) :
    (Exec.ofExcept result).Stepwise := by
  cases result with
  | ok a => exact .pure a
  | error error => exact .fail error

theorem stepwise_calls : Exec.calls.Stepwise :=
  .inspect _

theorem stepwise_logCalls (event : Nat → Event) :
    (Exec.calls >>= fun calls => .log (event calls)).Stepwise :=
  .bind stepwise_calls fun _ _ => .log _

theorem stepwise_checkDepth (settings : Settings) : (checkDepth settings).Stepwise := by
  unfold checkDepth
  split
  · refine .bind stepwise_calls fun calls _ => ?_
    split
    · exact .fail _
    · exact .pure ()
  · exact .pure ()

theorem congruence_stepwise (settings : Settings) :
    Congruence settings settings StepwiseBeside where
  pure a := .pure a
  fail error _ := .fail error
  coerce slot raw := .inspect _
  resolve slot name := .inspect _
  eval operator left right := stepwise_ofExcept (operator.eval left right)
  note event _ _ := stepwise_logCalls event
  bindName slot name value := .bindName slot name value
  bind first next := .bind first next
  inChild slot _ _ inside := .inChild slot inside
  unfinished := .unfinished
  start op slot := stepwise_logCalls fun calls => .started op slot calls
  enter f args _ _ inside := by
    refine .bind (stepwise_checkDepth settings) fun _ _ => .inCall (.bind stepwise_calls ?_)
    exact fun _ _ => .bind (.log _) fun _ _ => inside

theorem stepwise_runProgram (store : Store) (settings : Settings) (fuel : Nat) :
    (runProgram store settings fuel).Stepwise :=
  (congruence_stepwise settings).runProgram (fun _ => .of_returns rfl) fuel

end Execution

end OpTree
