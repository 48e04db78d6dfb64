import OpTree.Proofs.CallDepth

set_option autoImplicit false

namespace OpTree

variable {α β : Type} {limit : Nat}

/-- An outcome of a run that was cut short. The next event of the whole run is a call. -/
structure Outcome.CutFrom (limit : Nat) (o whole : Outcome α) : Prop where
  ending : o.ending = .failed (.callDepthExceeded limit)
  events : ∃ f args calls later, limit < calls ∧
    whole.events = o.events ++ .called f args calls :: later

def Exec.CutAt (limit : Nat) (x y : Exec α) : Prop :=
  ∀ s, x.run s = y.run s ∨ (x.run s).CutFrom limit (y.run s)

theorem Outcome.CutFrom.after {o whole : Outcome α} (cut : o.CutFrom limit whole)
    (earlier : List Event) : (o.after earlier).CutFrom limit (whole.after earlier) := by
  obtain ⟨f, args, calls, later, deep, events⟩ := cut.events
  refine ⟨cut.ending, f, args, calls, later, deep, ?_⟩
  simp only [Outcome.after, events, List.append_assoc]

namespace Exec

theorem CutAt.refl (x : Exec α) : x.CutAt limit x :=
  fun _ => .inl rfl

theorem prefix_run_bind (x : Exec α) (f : α → Exec β) (s : RunState) :
    (x.run s).events <+: ((Exec.bind x f).run s).events := by
  rw [run_bind]
  cases (x.run s).ending with
  | done a => exact List.prefix_append _ _
  | failed error => exact List.prefix_rfl
  | unfinished => exact List.prefix_rfl

theorem CutAt.bind {x y : Exec α} {f g : α → Exec β} (first : x.CutAt limit y)
    (next : ∀ a, x.Gives a → (f a).CutAt limit (g a)) : (x >>= f).CutAt limit (y >>= g) := by
  intro s
  change (Exec.bind x f).run s = (Exec.bind y g).run s ∨
    ((Exec.bind x f).run s).CutFrom limit ((Exec.bind y g).run s)
  rcases first s with same | cut
  · rw [run_bind, run_bind, ← same]
    cases ended : (x.run s).ending with
    | done a =>
      rcases next a ⟨s, ended⟩ (x.run s).state with equal | cut
      · simp only [equal, true_or]
      · exact .inr (cut.after _)
    | failed error => exact .inl rfl
    | unfinished => exact .inl rfl
  · -- What comes after a computation that was cut short happens in the whole run alone.
    obtain ⟨f', args, calls, later, deep, events⟩ := cut.events
    obtain ⟨more, whole⟩ := prefix_run_bind y g s
    right
    rw [run_bind x f, cut.ending]
    refine ⟨rfl, f', args, calls, later ++ more, deep, ?_⟩
    rw [← whole, events, List.append_assoc, List.cons_append]

theorem CutAt.inChild {slot : Slot} {f g : Slot → Exec α}
    (inside : ∀ child, (f child).CutAt limit (g child)) :
    (Exec.inChild slot f).CutAt limit (Exec.inChild slot g) := by
  intro s
  rw [run_inChild, run_inChild]
  rcases inside s.scopes.depth { s with scopes := s.scopes.openChild slot } with same | cut
  · rw [same]
    exact .inl rfl
  · exact .inr ⟨cut.ending, cut.events⟩

end Exec

namespace Execution

open Exec

theorem cutAt_enter (returns : Returns) {x y : Exec α} (inside : x.CutAt limit y)
    (f : FunctionValue) (args : List Value) :
    (enter ⟨returns, some limit⟩ f args x).CutAt limit (enter ⟨returns, none⟩ f args y) := by
  intro s
  have free : ∀ n, (Settings.mk returns none).limit = some n → s.calls < n := nofun
  have whole := run_enter_of_room free f args y
  rw [whole]
  by_cases reached : limit ≤ s.calls
  · rw [run_enter_of_reached rfl reached]
    exact .inr ⟨rfl, f, args, s.calls + 1, _, Nat.lt_succ_of_le reached, rfl⟩
  · have room : ∀ n, some limit = some n → s.calls < n := by
      rintro _ ⟨⟩
      exact Nat.lt_of_not_le reached
    rw [run_enter_of_room room]
    rcases inside { s with calls := s.calls + 1 } with same | cut
    · simp only [same, true_or]
    · have within := cut.after [.called f args (s.calls + 1)]
      exact .inr ⟨within.ending, within.events⟩

theorem Congruence.cutAt (returns : Returns) (limit : Nat) :
    Congruence ⟨returns, some limit⟩ ⟨returns, none⟩ fun _ x y => x.CutAt limit y where
  pure _ := .refl _
  fail _ _ := .refl _
  unfinished := .refl _
  coerce _ _ := .refl _
  resolve _ _ := .refl _
  eval _ _ _ := .refl _
  note _ _ _ := .refl _
  start _ _ := .refl _
  bindName _ _ _ := .refl _
  bind first next := first.bind next
  inChild _ _ _ inside := .inChild inside
  enter f args _ _ inside := cutAt_enter returns inside f args

end Execution

open Execution

theorem runProgram_calls_le {store : Store} {returns : Returns} {fuel n : Nat} {f : FunctionValue}
    {args : List Value} (called : .called f args n ∈
      ((runProgram store ⟨returns, some limit⟩ fuel).run RunState.initial).events) : n ≤ limit :=
  ((runProgram_counted store ⟨returns, some limit⟩ fuel).nested RunState.initial).le called

/-- A run under a limit is the run without one, or ends before the first call beyond the limit. -/
theorem runProgram_whole_or_cut (store : Store) (returns : Returns) (limit fuel : Nat) :
    let o := (runProgram store ⟨returns, some limit⟩ fuel).run RunState.initial
    let free := (runProgram store ⟨returns, none⟩ fuel).run RunState.initial
    (o = free ∧ ∀ n, o.ending ≠ .failed (.callDepthExceeded n)) ∨
    (o.ending = .failed (.callDepthExceeded limit) ∧ ∃ f args later,
      free.events = o.events ++ .called f args (limit + 1) :: later) := by
  intro o free
  have counted := runProgram_counted store ⟨returns, none⟩ fuel
  rcases (Congruence.cutAt returns limit).runProgram (fun _ => .of_returns rfl) fuel
    RunState.initial with same | cut
  · left
    refine ⟨same, fun n failed => ?_⟩
    have ended : free.ending = .failed (.callDepthExceeded n) := by
      rw [← show o = free from same, failed]
    cases counted.depth RunState.initial n ended
  · right
    obtain ⟨f, args, calls, later, deep, events⟩ := cut.events
    have next : calls = limit + 1 := (counted.nested RunState.initial).eq_succ_of_first
      (Nat.zero_le limit) events deep fun _ _ _ called => runProgram_calls_le called
    rw [next] at events
    exact ⟨cut.ending, f, args, later, events⟩

theorem prefix_of_split {e e' : Event} {es es' later later' : List Event}
    (same : es ++ e :: later = es' ++ e' :: later') (absent : e' ∉ es) : es <+: es' := by
  rcases List.append_eq_append_iff.1 same with ⟨more, rfl, _⟩ | ⟨more, rfl, rest⟩
  · exact List.prefix_append es more
  · cases more with
    | nil => simp
    | cons first more =>
      rw [List.cons_append, List.cons.injEq] at rest
      simp [rest.1] at absent

theorem runProgram_same_or_earlier (store : Store) (returns : Returns) {limit' : Option Nat}
    (wider : ∀ n, limit' = some n → limit ≤ n) (fuel : Nat) :
    let o := (runProgram store ⟨returns, some limit⟩ fuel).run RunState.initial
    let o' := (runProgram store ⟨returns, limit'⟩ fuel).run RunState.initial
    (o = o' ∧ ∀ n, o.ending ≠ .failed (.callDepthExceeded n)) ∨
    (o.ending = .failed (.callDepthExceeded limit) ∧ o.events <+: o'.events) := by
  intro o o'
  have narrow := runProgram_whole_or_cut store returns limit fuel
  cases limit' with
  | none =>
    rcases narrow with whole | ⟨failed, f, args, later, events⟩
    · exact .inl whole
    · exact .inr ⟨failed, _, events.symm⟩
  | some n =>
    have above : limit ≤ n := wider n rfl
    -- A call that meets the wider limit is deeper than all that the narrower one lets pass.
    have absent : ∀ f args, .called f args (n + 1) ∉ o.events := by
      intro f args called
      have within := runProgram_calls_le called
      omega
    have wide := runProgram_whole_or_cut store returns n fuel
    rcases narrow with ⟨same, unlimited⟩ | ⟨failed, f, args, later, events⟩
    · rcases wide with ⟨same', _⟩ | ⟨_, f', args', later', events'⟩
      · exact .inl ⟨same.trans same'.symm, unlimited⟩
      · have called : .called f' args' (n + 1) ∈ o.events := by
          rw [show o = _ from same, events']
          simp
        exact absurd called (absent f' args')
    · rcases wide with ⟨same', _⟩ | ⟨_, f', args', later', events'⟩
      · rw [← same'] at events
        exact .inr ⟨failed, _, events.symm⟩
      · exact .inr ⟨failed, prefix_of_split (events.symm.trans events') (absent f' args')⟩

theorem Ending.leaving_eq_failed {ending : Ending Exit} {error : EvalError} :
    ending.leaving = .failed error ↔ ending = .failed error := by
  cases ending <;> simp [Ending.leaving]

theorem Exec.endingOf_eq_failed {x : Except EvalError α} {error : EvalError} :
    endingOf x = .failed error ↔ x = .error error := by
  cases x <;> simp [endingOf]

theorem Outcome.Shows.failed_iff {o : Outcome Exit} {seen : Observation} (shown : o.Shows seen)
    {error : EvalError} : o.ending = .failed error ↔ seen.result = .error error := by
  rw [← Ending.leaving_eq_failed, shown.1, Exec.endingOf_eq_failed]

namespace Interpreter

def events (i : Interpreter) (fuel : Nat) : List Event :=
  (i.outcome fuel).events

section Limits

variable {store : Store} {mode mode' : Mode} {returns : Returns} {given given' : Option Nat}
  {sink sink' : Option Sink} {limit : Nat} {seen seen' : Observation}

theorem outcome_same_or_earlier (bounded : given.or mode.limit = some limit)
    (wider : ∀ n, given'.or mode'.limit = some n → limit ≤ n) (fuel : Nat) :
    let o := (fresh store mode returns given sink).outcome fuel
    let o' := (fresh store mode' returns given' sink').outcome fuel
    (o = o' ∧ ∀ n, o.ending ≠ .failed (.callDepthExceeded n)) ∨
    (o.ending = .failed (.callDepthExceeded limit) ∧ o.events <+: o'.events) := by
  rw [outcome_fresh bounded, outcome_fresh rfl]
  exact runProgram_same_or_earlier store returns wider fuel

theorem shows_of_other_result (bounded : given.or mode.limit = some limit)
    (wider : ∀ n, given'.or mode'.limit = some n → limit ≤ n)
    (shown : (fresh store mode returns given sink).Shows seen)
    (other : ∀ n, seen.result ≠ .error (.callDepthExceeded n)) :
    (fresh store mode' returns given' sink').Shows seen := by
  obtain ⟨fuel, shown⟩ := shown
  have shows := showsWith_iff.1 shown
  rcases outcome_same_or_earlier bounded wider fuel with ⟨same, _⟩ | ⟨failed, _⟩
  · rw [same] at shows
    exact ⟨fuel, shows⟩
  · exact absurd (shows.failed_iff.1 failed) (other limit)

theorem eq_limit_of_shows {n : Nat} (bounded : given.or mode.limit = some limit)
    (shown : (fresh store mode returns given sink).Shows seen)
    (deep : seen.result = .error (.callDepthExceeded n)) : n = limit := by
  obtain ⟨fuel, shown⟩ := shown
  have ended := (showsWith_iff.1 shown).failed_iff.2 deep
  rw [outcome_fresh bounded] at ended
  have carried := (runProgram_counted store ⟨returns, some limit⟩ fuel).depth _ n ended
  exact (Option.some.inj carried).symm

theorem lines_prefix_of_shows {n : Nat} (bounded : given.or mode.limit = some limit)
    (wider : ∀ n, given'.or mode'.limit = some n → limit ≤ n)
    (shown : (fresh store mode returns given sink).Shows seen)
    (deep : seen.result = .error (.callDepthExceeded n))
    (shown' : (fresh store mode' returns given' sink').Shows seen') :
    seen.lines <+: seen'.lines := by
  obtain ⟨fuel, shown⟩ := shown
  obtain ⟨fuel', shown'⟩ := shown'
  -- The two runs are compared with fuel that is enough for both.
  have more' := shown'.add fuel
  rw [Nat.add_comm] at more'
  have shows := showsWith_iff.1 (shown.add fuel')
  have shows' := showsWith_iff.1 more'
  rcases outcome_same_or_earlier bounded wider (fuel + fuel') with ⟨_, unlimited⟩ | ⟨_, earlier⟩
  · exact absurd (shows.failed_iff.2 deep) (unlimited n)
  · rw [← shows.2.1, ← shows'.2.1]
    exact earlier.filterMap Event.line?

theorem nested_events (effective : given.or mode.limit = given') (fuel : Nat) :
    Nested given' 0 ((fresh store mode returns given sink).events fuel) := by
  rw [events, outcome_fresh effective]
  exact (runProgram_counted store ⟨returns, given'⟩ fuel).nested RunState.initial

theorem run_failed_iff (bounded : given.or mode.limit = some limit) (fuel : Nat) :
    let i := fresh store mode returns given sink
    let free := fresh store .interpret returns none none
    ((i.run fuel).1 = .failed (.callDepthExceeded limit) ↔
      ∃ f args, .called f args (limit + 1) ∈ free.events fuel) ∧
    ((i.run fuel).1 = .failed (.callDepthExceeded limit) → ∃ f args later,
      free.events fuel = i.events fuel ++ .called f args (limit + 1) :: later) := by
  intro i free
  have ended : (i.run fuel).1 = .failed (.callDepthExceeded limit) ↔
      (i.outcome fuel).ending = .failed (.callDepthExceeded limit) := Ending.leaving_eq_failed
  have compared : (i.outcome fuel = free.outcome fuel ∧
      ∀ n, (i.outcome fuel).ending ≠ .failed (.callDepthExceeded n)) ∨
      ((i.outcome fuel).ending = .failed (.callDepthExceeded limit) ∧ ∃ f args later,
        free.events fuel = i.events fuel ++ .called f args (limit + 1) :: later) := by
    rw [events, events, outcome_fresh bounded]
    exact runProgram_whole_or_cut store returns limit fuel
  rw [ended]
  rcases compared with ⟨same, unlimited⟩ | ⟨failed, f, args, later, split⟩
  · have within : ∀ f args, .called f args (limit + 1) ∉ free.events fuel := by
      intro f args called
      rw [events, ← same] at called
      have nested : Nested (some limit) 0 (i.events fuel) := nested_events bounded fuel
      exact Nat.not_succ_le_self limit (nested.le called)
    have going : (i.outcome fuel).ending ≠ .failed (.callDepthExceeded limit) := unlimited limit
    simp [within, going]
  · have called : .called f args (limit + 1) ∈ free.events fuel := by
      rw [split]
      simp
    exact ⟨⟨fun _ => ⟨f, args, called⟩, fun _ => failed⟩, fun _ => ⟨f, args, later, split⟩⟩

/-- A limit on calls only cuts a run short, just before the first call that would begin while as
many calls as allowed are active. -/
theorem shows_of_wider_limit
    (bounded : (fresh store mode returns given sink).settings.limit = some limit)
    (wider : ∀ n, (fresh store mode' returns given' sink').settings.limit = some n → limit ≤ n) :
    let i := fresh store mode returns given sink
    let j := fresh store mode' returns given' sink'
    let free := fresh store .interpret returns none none
    (∀ seen, i.Shows seen → (∀ n, seen.result ≠ .error (.callDepthExceeded n)) →
      j.Shows seen) ∧
    (∀ seen n, i.Shows seen → seen.result = .error (.callDepthExceeded n) → n = limit ∧
      ∀ seen', j.Shows seen' → seen.lines <+: seen'.lines) ∧
    ∀ fuel, Nested (some limit) 0 (i.events fuel) ∧ Nested none 0 (free.events fuel) ∧
      ((i.run fuel).1 = .failed (.callDepthExceeded limit) ↔
        ∃ f args, .called f args (limit + 1) ∈ free.events fuel) ∧
      ((i.run fuel).1 = .failed (.callDepthExceeded limit) → ∃ f args later,
        free.events fuel = i.events fuel ++ .called f args (limit + 1) :: later) := by
  intro i j free
  refine ⟨?_, ?_, fun fuel => ?_⟩
  · intro seen shown other
    exact shows_of_other_result bounded wider shown other
  · intro seen n shown deep
    refine ⟨eq_limit_of_shows bounded shown deep, fun seen' shown' => ?_⟩
    exact lines_prefix_of_shows bounded wider shown deep shown'
  · have unlimited : (none : Option Nat).or Mode.interpret.limit = none := rfl
    exact ⟨nested_events bounded fuel, nested_events unlimited fuel, run_failed_iff bounded fuel⟩

end Limits

end Interpreter

def Store.endless : Store where
  operations := (Table.ofRows? [(1, ⟨"function", none, 1⟩), (2, ⟨"print", some ⟨1⟩, 1⟩),
    (3, ⟨"call", some ⟨1⟩, 2⟩), (4, ⟨"call", none, 2⟩)] 4).getD .empty
  parameters := (Table.ofRows? [(1, ⟨⟨1⟩, "name", some "f"⟩), (2, ⟨⟨2⟩, "value", some "in"⟩),
    (3, ⟨⟨3⟩, "name", some "f"⟩), (4, ⟨⟨4⟩, "name", some "f"⟩)] 4).getD .empty

/-- With one active call allowed, the run ends where one with two allowed goes on. -/
theorem Interpreter.shows_of_wider_limit_endless :
    let i := fresh .endless .testRun .shallow (some 1) none
    let j := fresh .endless .interpret .shallow (some 2) none
    let free := fresh .endless .interpret .shallow none none
    let globals := fun name => if name = "f" then some (.function ⟨"f", [], ⟨1⟩⟩) else none
    let seen : Observation := ⟨.error (.callDepthExceeded 1), ["in"], globals⟩
    let seen' : Observation := ⟨.error (.callDepthExceeded 2), ["in", "in"], globals⟩
    i.settings.limit = some 1 ∧ (∀ n, j.settings.limit = some n → 1 ≤ n) ∧
      i.Shows seen ∧ j.Shows seen' ∧ seen.lines <+: seen'.lines ∧
      ∃ f args, .called f args 2 ∈ free.events 6 := by
  intro i j free globals seen seen'
  have bounded : i.settings.limit = some 1 := rfl
  have wider : ∀ n, j.settings.limit = some n → 1 ≤ n := by
    rintro _ ⟨⟩
    decide
  have scopes : (i.run 6).2.state.scopes =
      ⟨#[⟨none, [("f", .function ⟨"f", [], ⟨1⟩⟩)]⟩]⟩ := by decide
  have scopes' : (j.run 6).2.state.scopes =
      ⟨#[⟨none, [("f", .function ⟨"f", [], ⟨1⟩⟩)]⟩]⟩ := by decide
  have shown : i.Shows seen := ⟨6, by decide, by decide, global_of_single scopes⟩
  have shown' : j.Shows seen' := ⟨6, by decide, by decide, global_of_single scopes'⟩
  obtain ⟨_, short, counted⟩ := shows_of_wider_limit bounded wider
  have earlier := (short seen 1 shown rfl).2 seen' shown'
  have met : ∃ f args, .called f args 2 ∈ free.events 6 := (counted 6).2.2.1.1 (by decide)
  exact ⟨bounded, wider, shown, shown', earlier, met⟩

end OpTree
