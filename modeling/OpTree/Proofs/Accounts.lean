import OpTree.Proofs.Origins

set_option autoImplicit false

namespace OpTree

open Execution

/-- What may come after the outcome: anything if it ended well, and else nothing. -/
def Outcome.Precedes {α : Type} (o : Outcome α) (later : List Event) : Prop :=
  later = [] ∨ ∃ a, o.ending = .done a

section Accounts

variable (store : Store) (settings : Settings)

/-- All that some scope binds has an origin. -/
def Originated (events : List Event) (scopes : Scopes) : Prop :=
  ∀ slot name value, scopes.own? slot name = some value → Origin store events value

variable {α β ι : Type}

/-- After what happened earlier the outcome is accounted for: all its events are justified, all that
is bound in the end has an origin, and its value is good by then. -/
structure Accounted (earlier : List Event) (good : List Event → α → Prop) (o : Outcome α) :
    Prop where
  events : ∀ later, o.Precedes later → EachJustified store settings earlier o.events later
  scopes : Originated store (earlier ++ o.events) o.state.scopes
  value : ∀ a, o.ending = .done a → good (earlier ++ o.events) a

/-- From each state in which all that is bound has an origin the computation is accounted for. -/
def Accounts (earlier : List Event) (good : List Event → α → Prop) (x : Exec α) : Prop :=
  ∀ s : RunState, Originated store earlier s.scopes →
    Accounted store settings earlier good (x.run s)

def LeavesOrigin (events : List Event) (exit : Exit) : Prop :=
  Sourced store events exit.value

/-- However the run has come to a stored operation, it is accounted for. -/
def RunsAccounted (run : Runner) : Prop :=
  ∀ earlier slot, ∀ op ∈ store.allOperations,
    Accounts store settings earlier (LeavesOrigin store) (run slot op)

variable {store settings} {earlier now : List Event} {good : List Event → α → Prop}
  {goal : List Event → β → Prop} {x : Exec α} {op : Operation} {slot : Slot}

theorem Originated.mono {events events' : List Event} {scopes : Scopes} (more : events ⊆ events')
    (originated : Originated store events scopes) : Originated store events' scopes :=
  fun slot name value bound => (originated slot name value bound).mono more

theorem LeavesOrigin.normal_none : LeavesOrigin store earlier (.normal none) :=
  sourced_none

theorem LeavesOrigin.escaping {exit out : Exit} (leaves : LeavesOrigin store earlier exit)
    (escapes : settings.returns.escaping exit = some out) : LeavesOrigin store earlier out := by
  unfold Returns.escaping at escapes
  split at escapes
  · cases escapes
    exact leaves
  · cases escapes

theorem Ending.map_eq_done {ending : Ending α} {g : α → β} {b : β}
    (mapped : ending.map g = .done b) : ∃ a, ending = .done a ∧ g a = b := by
  cases ending with
  | done a =>
    cases mapped
    exact ⟨a, rfl, rfl⟩
  | failed error => cases mapped
  | unfinished => cases mapped

theorem Ending.leaving_eq_map (ending : Ending Exit) : ending.leaving = ending.map Exit.value := by
  cases ending <;> rfl

theorem Accounted.cons {o : Outcome α} {event : Event} {g : α → β} {calls : Nat}
    (ran : Accounted store settings (earlier ++ [event]) good o)
    (justified : ∀ later, o.Precedes later →
      Justified store settings earlier (o.events ++ later) event)
    (weaker : ∀ now a, good now a → goal now (g a)) : Accounted store settings earlier goal
      { ending := o.ending.map g
        state := { o.state with calls }
        events := event :: o.events } := by
  have whole : earlier ++ event :: o.events = earlier ++ [event] ++ o.events := by
    rw [List.append_assoc, List.singleton_append]
  refine ⟨fun later follows => ?_, whole ▸ ran.scopes, fun b mapped => ?_⟩
  · have follows' : o.Precedes later := follows.imp_right fun ⟨_, mapped⟩ =>
      (Ending.map_eq_done mapped).imp fun _ => And.left
    exact .cons (justified later follows') (ran.events later follows')
  · obtain ⟨a, ended, rfl⟩ := Ending.map_eq_done mapped
    exact whole ▸ weaker _ a (ran.value a ended)

namespace Accounts

theorem quiet (state : ∀ s, (x.run s).state = s) (events : ∀ s, (x.run s).events = [])
    (value : ∀ s a, Originated store earlier s.scopes → (x.run s).ending = .done a →
      good earlier a) : Accounts store settings earlier good x := by
  intro s originated
  refine ⟨fun _ _ => ?_, ?_, ?_⟩
  · rw [events]
    exact .nil
  · rw [events, state, List.append_nil]
    exact originated
  · rw [events, List.append_nil]
    exact fun a ended => value s a originated ended

theorem pure {a : α} (holds : good earlier a) :
    Accounts store settings earlier good (Pure.pure a) :=
  .quiet (fun _ => rfl) (fun _ => rfl) fun _ b _ ended => by
    cases ended
    exact holds

theorem fail (error : EvalError) : Accounts store settings earlier good (.fail error) :=
  .quiet (fun _ => rfl) (fun _ => rfl) fun _ _ _ ended => by cases ended

theorem unfinished : Accounts store settings earlier good .unfinished :=
  .quiet (fun _ => rfl) (fun _ => rfl) fun _ _ _ ended => by cases ended

theorem inspect {view : RunState → Except EvalError α}
    (holds : ∀ s a, Originated store earlier s.scopes → view s = .ok a → good earlier a) :
    Accounts store settings earlier good (.inspect view) := by
  refine .quiet (fun s => ?_) (fun s => ?_) fun s a originated ended => ?_
  · rw [Exec.run_inspect]
    cases view s <;> rfl
  · rw [Exec.run_inspect]
    cases view s <;> rfl
  · rw [Exec.run_inspect] at ended
    cases viewed : view s with
    | ok b =>
      rw [viewed] at ended
      cases ended
      exact holds s a originated viewed
    | error error =>
      rw [viewed] at ended
      cases ended

theorem calls : Accounts store settings earlier (fun _ _ => True) Exec.calls :=
  .inspect fun _ _ _ _ => trivial

theorem ofExcept {result : Except EvalError α} (holds : ∀ a, result = .ok a → good earlier a) :
    Accounts store settings earlier good (.ofExcept result) := by
  cases result with
  | ok a => exact .pure (holds a rfl)
  | error error => exact .fail error

theorem log {event : Event} (justified : ∀ later, Justified store settings earlier later event) :
    Accounts store settings earlier (fun now _ => event ∈ now) (.log event) := by
  intro s originated
  refine ⟨fun later _ => .cons (justified _) .nil, ?_, fun _ _ => ?_⟩
  · exact originated.mono (List.subset_append_left _ _)
  · exact List.mem_append_right _ (List.mem_singleton_self _)

theorem bindName {name : String} {value : Value} (origin : Origin store earlier value) :
    Accounts store settings earlier (fun _ _ => True) (.bindName slot name value) := by
  intro s originated
  refine ⟨fun later _ => .cons origin .nil, fun i other v bound => ?_, fun _ _ => trivial⟩
  rcases Scopes.own?_of_bind bound with old | ⟨-, -, rfl⟩
  · exact (originated i other v old).mono (List.subset_append_left _ _)
  · exact origin.mono (List.subset_append_left _ _)

/-! ### Composition -/

theorem bind {f : α → Exec β} (first : Accounts store settings earlier good x)
    (next : ∀ a now, earlier ⊆ now → good now a → Accounts store settings now goal (f a)) :
    Accounts store settings earlier goal (x >>= f) := by
  intro s originated
  have before := first s originated
  by_cases done : ∃ a, (x.run s).ending = .done a
  · obtain ⟨a, ended⟩ := done
    have after := next a _ (List.subset_append_left _ _) (before.value a ended) _ before.scopes
    rw [Exec.run_bind_of_ending ended]
    refine ⟨fun later follows => ?_, ?_, ?_⟩
    · exact (before.events _ (.inr ⟨a, ended⟩)).append (after.events later follows)
    · exact List.append_assoc _ _ _ ▸ after.scopes
    · exact List.append_assoc _ _ _ ▸ after.value
  · obtain ⟨state, events⟩ := Exec.run_bind_of_not_done (f := f) fun a ended => done ⟨a, ended⟩
    have stopped : ∀ b, ((x >>= f).run s).ending ≠ .done b := by
      intro b ended
      obtain ⟨a, first, -⟩ := Exec.exists_of_bind_done ended
      exact done ⟨a, first⟩
    refine ⟨fun later follows => ?_, ?_, fun b ended => absurd ended (stopped b)⟩
    · rw [events]
      exact before.events later (follows.imp_right fun ⟨b, ended⟩ => absurd ended (stopped b))
    · rw [events, state]
      exact before.scopes

theorem inChild {body : Slot → Exec α}
    (inside : ∀ child, Accounts store settings earlier good (body child)) :
    Accounts store settings earlier good (.inChild slot body) := by
  intro s originated
  have opened : Originated store earlier (s.scopes.openChild slot) := by
    intro i name value bound
    rw [Scopes.own?_openChild] at bound
    exact originated i name value bound
  have ran := inside s.scopes.depth { s with scopes := s.scopes.openChild slot } opened
  refine ⟨ran.events, fun i name value bound => ?_, ran.value⟩
  exact ran.scopes i name value (Scopes.own?_of_release bound)

theorem mapM {f : ι → Exec α} (mono : ∀ now now' a, now ⊆ now' → good now a → good now' a)
    {is : List ι} (each : ∀ now, earlier ⊆ now → ∀ i ∈ is, Accounts store settings now good (f i)) :
    Accounts store settings earlier (fun now as => ∀ a ∈ as, good now a) (is.mapM f) := by
  induction is generalizing earlier with
  | nil =>
    rw [List.mapM_nil]
    exact .pure (by simp)
  | cons i is ih =>
    rw [List.mapM_cons]
    refine .bind (each earlier (List.Subset.refl _) i List.mem_cons_self) fun a now more first => ?_
    have rest : Accounts store settings now (fun now as => ∀ a ∈ as, good now a) (is.mapM f) :=
      ih fun later grown j inside =>
        each later (List.Subset.trans more grown) j (List.mem_cons_of_mem i inside)
    refine .bind rest fun as later grown holds => .pure ?_
    rintro b (_ | ⟨_, inside⟩)
    · exact mono now later a grown first
    · exact holds b inside

theorem forM_bindName {names : List (String × Value)}
    (origins : ∀ entry ∈ names, Origin store earlier entry.2) :
    Accounts store settings earlier (fun _ _ => True)
      (names.forM fun entry => .bindName slot entry.1 entry.2) := by
  induction names generalizing earlier with
  | nil => exact .pure trivial
  | cons entry names ih =>
    refine .bind (.bindName (origins entry List.mem_cons_self)) fun _ now more _ => ih ?_
    exact fun other inside => (origins other (List.mem_cons_of_mem entry inside)).mono more

theorem required (params : Parameters) (key : String) :
    Accounts store settings earlier (fun _ raw => params.get? key = some raw)
      (required op params key) := by
  unfold Execution.required
  cases given : params.get? key with
  | some raw => exact .pure rfl
  | none => exact .fail _

theorem resolve (name : String) :
    Accounts store settings earlier (Origin store) (.resolve slot name) := by
  refine .inspect fun s value originated resolved => ?_
  unfold Scopes.resolve at resolved
  cases found : s.scopes.lookup slot name with
  | some v =>
    rw [found] at resolved
    cases resolved
    obtain ⟨i, bound⟩ := Scopes.exists_own?_of_lookup found
    exact originated i name value bound
  | none =>
    rw [found] at resolved
    cases resolved

theorem coerce {raw : String}
    (plain : (∀ name, raw ≠ "$" ++ name) → Origin store earlier (Value.ofText raw)) :
    Accounts store settings earlier (Origin store) (.coerce slot raw) := by
  refine .inspect fun s value originated coerced => ?_
  by_cases reference : ∃ name, raw = "$" ++ name
  · obtain ⟨name, rfl⟩ := reference
    obtain ⟨i, bound⟩ := Scopes.exists_own?_of_lookup (Scopes.coerce_reference_eq_ok.1 coerced)
    exact originated i name value bound
  · have none : ∀ name, raw ≠ "$" ++ name := fun name same => reference ⟨name, same⟩
    rw [Scopes.coerce_of_plain none] at coerced
    cases coerced
    exact plain none

variable {f : Value → Exec β}

theorem coerce_given {key raw : String} (begun : HasStarted store earlier op)
    (given : (store.parametersOf op.id).get? key = some raw) :
    Accounts store settings earlier (Origin store) (.coerce slot raw) :=
  .coerce (.text begun given)

theorem read {key : String} (begun : HasStarted store earlier op)
    (next : ∀ value now, earlier ⊆ now → Origin store now value →
      Accounts store settings now goal (f value)) :
    Accounts store settings earlier goal
      (Execution.required op (store.parametersOf op.id) key >>= fun raw =>
        .coerce slot raw >>= f) := by
  refine .bind (.required _ key) fun raw now more given => ?_
  refine .bind (.coerce_given (begun.mono more) given) fun value now' grown origin => ?_
  exact next value now' (List.Subset.trans more grown) origin

theorem resolveFunction (name : String) :
    Accounts store settings earlier (fun now f => Origin store now (.function f))
      (resolveFunction slot name) := by
  refine .bind (.resolve name) fun value now _ origin => ?_
  cases value with
  | function f => exact .pure origin
  | _ => exact .fail _

theorem checkDepth : Accounts store settings earlier (fun _ _ => True) (checkDepth settings) := by
  unfold Execution.checkDepth
  split
  · refine .bind .calls fun calls now _ _ => ?_
    split
    · exact .fail _
    · exact .pure trivial
  · exact .pure trivial

theorem bindTarget (name : Option String) {value : Option Value}
    (sourced : Sourced store earlier value) :
    Accounts store settings earlier (fun _ _ => True) (bindTarget slot name value) := by
  unfold Execution.bindTarget
  split
  case h_1 => exact .bindName (sourced _ rfl)
  case h_2 => exact .pure trivial

section Simple

variable (begun : HasStarted store earlier op)

include begun

theorem assign : Accounts store settings earlier (LeavesOrigin store)
    (assign slot op (store.parametersOf op.id)) := by
  refine .bind (.required _ "var_name") fun name now more _ => ?_
  refine .read (begun.mono more) fun value now' _ origin => ?_
  exact .bind (.bindName origin) fun _ _ _ _ => .pure .normal_none

theorem print : Accounts store settings earlier (LeavesOrigin store)
    (print slot op (store.parametersOf op.id)) := by
  refine .read begun fun value now _ origin => ?_
  exact .bind (.log fun _ => ⟨value, origin, rfl⟩) fun _ _ _ _ => .pure .normal_none

theorem binary {operator : BinaryOp} (opcode : op.opcode = .binary operator) :
    Accounts store settings earlier (LeavesOrigin store)
      (binary operator slot op (store.parametersOf op.id)) := by
  refine .read begun fun left now more fromLeft => ?_
  refine .read (begun.mono more) fun right now' more' fromRight => ?_
  have computed : Accounts store settings now' (Origin store)
      (.ofExcept (operator.eval left right)) := .ofExcept fun value =>
    .result (begun.mono (List.Subset.trans more more')) opcode (fromLeft.mono more') fromRight
  refine .bind computed fun value _ _ origin => ?_
  have sourced := sourced_some origin
  exact .bind (.bindTarget _ sourced) fun _ _ grown _ => .pure (sourced.mono grown)

theorem giveBack : Accounts store settings earlier (LeavesOrigin store)
    (giveBack slot (store.parametersOf op.id)) := by
  have read : Accounts store settings earlier (Sourced store)
      (((store.parametersOf op.id).get? "value").mapM fun raw => Exec.coerce slot raw) := by
    cases given : (store.parametersOf op.id).get? "value" with
    | none => exact .pure sourced_none
    | some raw =>
      exact .bind (.coerce_given begun given) fun _ _ _ origin => .pure (sourced_some origin)
  refine .bind read fun value now _ sourced => ?_
  refine .bind .calls fun calls now' more _ => ?_
  refine .bind (.log fun _ => sourced.mono more) fun _ _ grown _ => .pure ?_
  exact sourced.mono (List.Subset.trans more grown)

theorem define (opcode : op.opcode = .function) :
    Accounts store settings earlier (LeavesOrigin store)
      (define slot op (store.parametersOf op.id)) := by
  refine .bind (.required _ "name") fun name now more given => ?_
  let f : FunctionValue :=
    { name, params := listEntries (store.parametersOf op.id) "params", body := op.id }
  have origin : Origin store now (.function f) :=
    .function (begun.mono more) ⟨opcode, given, rfl, rfl⟩
  exact .bind (.bindName origin) fun _ _ _ _ => .pure .normal_none

end Simple

/-! ### Blocks and loops -/

section Blocks

variable {run : Runner} (inside : RunsAccounted store settings run)

include inside

theorem block {ops : List Operation} (stored : ∀ op ∈ ops, op ∈ store.allOperations) :
    Accounts store settings earlier (LeavesOrigin store) (block settings run slot ops) := by
  induction ops generalizing earlier with
  | nil => exact .pure .normal_none
  | cons op rest ih =>
    have later : ∀ now, Accounts store settings now (LeavesOrigin store)
        (Execution.block settings run slot rest) :=
      fun now => ih fun other there => stored other (List.mem_cons_of_mem op there)
    rw [Execution.block]
    by_cases skipped : op.opcode = .otherwise
    · rw [if_pos skipped]
      exact later earlier
    · rw [if_neg skipped]
      have first := inside earlier slot op (stored op List.mem_cons_self)
      refine .bind first fun exit now _ leaves => ?_
      by_cases back : op.opcode = .giveBack
      · rw [if_pos back]
        exact .pure leaves
      · rw [if_neg back]
        cases escapes : settings.returns.escaping exit with
        | some out => exact .pure (leaves.escaping escapes)
        | none => exact later now

theorem children (parent : Option OpId) : Accounts store settings earlier (LeavesOrigin store)
    (Execution.block settings run slot (store.children parent)) :=
  .block inside fun _ there => (Store.mem_children.1 there).1

theorem body (parent : OpId) {names : List (String × Value)}
    (origins : ∀ entry ∈ names, Origin store earlier entry.2) :
    Accounts store settings earlier (LeavesOrigin store)
      (body store settings run parent slot names) :=
  .inChild fun _ => .bind (.forM_bindName origins) fun _ _ _ _ => .children inside (some parent)

omit inside in
theorem forEach {round : Value → Exec Exit} (each : ∀ item now, Origin store now item →
      Accounts store settings now (LeavesOrigin store) (round item))
    {items : List Value} (origins : ∀ item ∈ items, Origin store earlier item) :
    Accounts store settings earlier (LeavesOrigin store) (forEach settings round items) := by
  induction items generalizing earlier with
  | nil => exact .pure .normal_none
  | cons item rest ih =>
    rw [Execution.forEach]
    have first := each item earlier (origins item List.mem_cons_self)
    refine .bind first fun exit now more leaves => ?_
    cases escapes : settings.returns.escaping exit with
    | some out => exact .pure (leaves.escaping escapes)
    | none =>
      exact ih fun other there => (origins other (List.mem_cons_of_mem item there)).mono more

omit inside in
theorem repeatWhile {condition : Exec Bool} {round : Exec Exit}
    (test : ∀ now, earlier ⊆ now → Accounts store settings now (fun _ _ => True) condition)
    (each : ∀ now, Accounts store settings now (LeavesOrigin store) round) (fuel : Nat) :
    Accounts store settings earlier (LeavesOrigin store)
      (repeatWhile settings condition round fuel) := by
  induction fuel generalizing earlier with
  | zero => exact .unfinished
  | succ fuel ih =>
    rw [Execution.repeatWhile]
    refine .bind (test earlier (List.Subset.refl _)) fun holds now more _ => ?_
    cases holds with
    | false => exact .pure .normal_none
    | true =>
      refine .bind (each now) fun exit now' grown leaves => ?_
      cases escapes : settings.returns.escaping exit with
      | some out => exact .pure (leaves.escaping escapes)
      | none =>
        have more' := List.Subset.trans more grown
        exact ih fun later grown' => test later (List.Subset.trans more' grown')

variable (begun : HasStarted store earlier op)

include begun

theorem conditional : Accounts store settings earlier (LeavesOrigin store)
    (conditional store settings run slot op (store.parametersOf op.id)) := by
  refine .read begun fun condition now _ _ => ?_
  cases branch store op condition with
  | some parent => exact .body inside parent (by simp)
  | none => exact .pure .normal_none

theorem whileLoop (fuel : Nat) : Accounts store settings earlier (LeavesOrigin store)
    (whileLoop store settings fuel run slot op (store.parametersOf op.id)) := by
  refine .bind (.required _ "condition") fun raw now more given => ?_
  refine .repeatWhile (fun later grown => ?_) (fun _ => .body inside op.id (by simp)) fuel
  have coerced : Accounts store settings later (Origin store) (.coerce slot raw) :=
    .coerce_given (begun.mono (List.Subset.trans more grown)) given
  exact .bind coerced fun _ _ _ _ => .pure trivial

theorem forLoop (opcode : op.opcode = .forLoop) :
    Accounts store settings earlier (LeavesOrigin store)
      (forLoop store settings run slot op (store.parametersOf op.id)) := by
  refine .bind (.required _ "iterator") fun iterator now more _ => ?_
  refine .read (begun.mono more) fun collection now' grown origin => ?_
  have begun' := begun.mono (List.Subset.trans more grown)
  cases collection with
  | str text =>
    refine .forEach (fun item later fromItem => .body inside op.id ?_) fun item visited => ?_
    · rintro entry inside
      rwa [List.mem_singleton.1 inside]
    · obtain ⟨c, there, rfl⟩ := List.mem_map.1 visited
      exact .letter begun' opcode origin there
  | _ => exact .fail _

end Blocks

/-! ### Calls -/

theorem arguments (begun : HasStarted store earlier op) (opcode : op.opcode = .call) :
    Accounts store settings earlier (fun now args => ∀ arg ∈ args, Origin store now arg)
      ((listEntries (store.parametersOf op.id) "args").mapM fun raw => Exec.coerce slot raw) :=
  .mapM (fun _ _ _ grown origin => origin.mono grown) fun _ more _ listed =>
    .coerce (.entry (begun.mono more) opcode listed)

theorem runsUnder_body {fuel : Nat} {s : RunState} {names : List (String × Value)}
    {later : List Event}
    (follows : ((Execution.body store settings (OpTree.execute store settings fuel) op.id slot
      names).run s).Precedes later) :
    RunsUnder store settings op names s.calls (((Execution.body store settings
      (OpTree.execute store settings fuel) op.id slot names).run s).events ++ later) := by
  rw [run_body] at follows ⊢
  exact ⟨fuel, s.scopes.depth, s.inBody slot names, later, rfl, rfl, follows⟩

/-- In a call the arguments are bound and the block of the function is run, and nothing else. -/
theorem invoke {fuel : Nat} (inside : RunsAccounted store settings (execute store settings fuel))
    {f : FunctionValue} {args : List Value} (defined : Origin store earlier (.function f))
    (origins : ∀ arg ∈ args, Origin store earlier arg) :
    Accounts store settings earlier (Sourced store)
      (invoke store settings (execute store settings fuel) slot f args) := by
  intro s originated
  obtain ⟨op, begun, defines⟩ := origin_function_iff.1 defined
  have named : ∀ entry ∈ f.params.zip args,
      Origin store (earlier ++ [.called f args (s.calls + 1)]) entry.2 := fun entry there =>
    (origins entry.2 (List.of_mem_zip there).2).mono (List.subset_append_left _ _)
  have accounts : Accounts store settings _ (LeavesOrigin store)
      (Execution.body store settings (OpTree.execute store settings fuel) f.body slot
        (f.params.zip args)) := .body inside f.body named
  have ran := accounts { s with calls := s.calls + 1 }
    (originated.mono (List.subset_append_left _ _))
  rw [run_invoke, run_bind_map]
  refine ran.cons (fun later follows => ⟨origins, op, begun, defines, ?_⟩) fun _ _ leaves => leaves
  -- The function names its body by the operation that defines it, and so this is what is run.
  rw [defines.body] at follows ⊢
  exact runsUnder_body follows

theorem call {fuel : Nat} (inside : RunsAccounted store settings (execute store settings fuel))
    (begun : HasStarted store earlier op) (opcode : op.opcode = .call) :
    Accounts store settings earlier (LeavesOrigin store)
      (call store settings (execute store settings fuel) slot op (store.parametersOf op.id)) := by
  refine .bind (.arguments begun opcode) fun args now _ origins => ?_
  refine .bind (.required _ "name") fun name now' more _ => ?_
  refine .bind (.resolveFunction name) fun f now₂ more' defined => ?_
  refine .bind .checkDepth fun _ now₃ grown _ => ?_
  have since := List.Subset.trans more (List.Subset.trans more' grown)
  have origins' : ∀ arg ∈ args, Origin store now₃ arg :=
    fun arg passed => (origins arg passed).mono since
  refine .bind (.invoke inside (defined.mono grown) origins') fun value _ _ sourced => ?_
  exact .bind (.bindTarget _ sourced) fun _ _ grown' _ => .pure (sourced.mono grown')

theorem perform {fuel : Nat} (inside : RunsAccounted store settings (execute store settings fuel))
    (begun : HasStarted store earlier op) : Accounts store settings earlier (LeavesOrigin store)
      (perform store settings fuel (execute store settings fuel) slot op) := by
  unfold Execution.perform
  cases opcode : op.opcode with
  | assign => exact .assign begun
  | print => exact .print begun
  | binary operator => exact .binary begun opcode
  | conditional => exact .conditional inside begun
  | whileLoop => exact .whileLoop inside begun fuel
  | forLoop => exact .forLoop inside begun opcode
  | giveBack => exact .giveBack begun
  | function => exact .define begun opcode
  | call => exact .call inside begun opcode
  | otherwise => exact .pure .normal_none
  | breakLoop => exact .pure .normal_none
  | continueLoop => exact .pure .normal_none
  | unknown tag => exact .pure .normal_none

theorem execute (store : Store) (settings : Settings) (fuel : Nat) :
    RunsAccounted store settings (execute store settings fuel) := by
  induction fuel with
  | zero => exact fun _ _ _ _ => .unfinished
  | succ fuel ih =>
    intro earlier slot op stored
    refine .bind .calls fun calls now _ _ => ?_
    refine .bind (.log fun _ => stored) fun _ now' _ started => ?_
    exact .perform ih ⟨stored, slot, calls, started⟩

theorem runProgram (store : Store) (settings : Settings) (fuel : Nat) :
    Accounts store settings [] (LeavesOrigin store) (runProgram store settings fuel) :=
  .children (.execute store settings fuel) none

end Accounts

end Accounts

/-! ## Whole runs -/

section Runs

variable (store : Store)

theorem originated_initial : Originated store [] RunState.initial.scopes := by
  intro slot name value bound
  rw [RunState.initial, Scopes.own?_initial] at bound
  cases bound

theorem accounted_run (settings : Settings) (fuel : Nat) :
    Accounted store settings [] (LeavesOrigin store)
      ((runProgram store settings fuel).run RunState.initial) :=
  Accounts.runProgram store settings fuel RunState.initial (originated_initial store)

/-- What is bound at a moment was bound in an event before it, which is justified. -/
theorem originated_of_comesTo {settings : Settings} {fuel : Nat} {t : RunState}
    {events : List Event}
    (comes : (runProgram store settings fuel).ComesTo RunState.initial t events) :
    Originated store events t.scopes := by
  intro slot name value bound
  rcases Exec.own?_comesTo comes bound with old | new
  · exact (originated_initial store slot name value old).mono (List.nil_subset _)
  · obtain ⟨before, after, rfl⟩ := List.append_of_mem new
    obtain ⟨rest, whole⟩ := comes.isPrefix
    have justified := (accounted_run store settings fuel).events [] (.inl rfl)
    rw [List.append_assoc] at whole
    have origin : Origin store ([] ++ before) value :=
      justified before _ (after ++ rest) whole.symm
    exact origin.mono (List.subset_append_left _ _)

/-- At every moment of a run on a fresh interpreter all that is bound has an origin in what has
happened by then, and there is a moment after each event. Every event is justified by what happened
before it: functions and other values that are bound, passed, returned and printed have an origin,
and a call runs what is under the operation that defines its function. The value of the run has an
origin too. That of a function is a stored operation that defines it and has started. -/
theorem origins_of_run (mode : Mode) (returns : Returns) (limit : Option Nat)
    (sink : Option Sink) (fuel : Nat) :
    let i := Interpreter.fresh store mode returns limit sink
    let program := runProgram store i.settings fuel
    (∀ t events, program.ComesTo RunState.initial t events → events <+: i.events fuel ∧
      ∀ slot name value, t.scopes.own? slot name = some value → Origin store events value) ∧
    (∀ events, events <+: i.events fuel → ∃ t, program.ComesTo RunState.initial t events) ∧
    (∀ before event after, i.events fuel = before ++ event :: after →
      Justified store i.settings before after event) ∧
    (∀ value, (i.run fuel).1 = .done (some value) → Origin store (i.events fuel) value) ∧
    ∀ events f, Origin store events (.function f) ↔
      ∃ op, HasStarted store events op ∧ Defines store op f := by
  intro i program
  have accounted := accounted_run store i.settings fuel
  refine ⟨fun t events comes => ⟨comes.isPrefix, originated_of_comesTo store comes⟩,
    fun events begins => ?_, fun before event after split => ?_, fun value ended => ?_,
    fun _ _ => origin_function_iff⟩
  · exact Exec.exists_comesTo (stepwise_runProgram store i.settings fuel) _ begins
  · have justified := accounted.events [] (.inl rfl) before event after split
    rwa [List.append_nil] at justified
  · rw [Interpreter.run_ending, Ending.leaving_eq_map] at ended
    obtain ⟨exit, done, left⟩ := Ending.map_eq_done ended
    exact accounted.value exit done value left

end Runs

end OpTree
