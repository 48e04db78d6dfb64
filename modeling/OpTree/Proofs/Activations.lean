import OpTree.Proofs.Starts
import OpTree.Proofs.Ways

set_option autoImplicit false

namespace OpTree

namespace Execution

section Endings

def NoReturn (calls : Nat) (events : List Event) : Prop :=
  ∀ op scope, .started op scope calls ∈ events → op.opcode ≠ .giveBack

/-- A `return` that was reached is the only one and the last of all, and gives back a value. -/
def ReturnsLast (store : Store) (reached : Operation → Slot → RunState → Prop) (calls : Nat)
    (events : List Event) (value : Option Value) : Prop :=
  ∃ before r scope t, events = before ++ [.started r scope calls, .returned value scope calls] ∧
    NoReturn calls before ∧ r.opcode = .giveBack ∧ reached r scope t ∧
    store.returned r t.scopes scope = .ok value

def Concludes (store : Store) (reached : Operation → Slot → RunState → Prop) (calls : Nat)
    (events : List Event) : Exit → Prop
  | .normal _ => NoReturn calls events
  | .returned value => ReturnsLast store reached calls events value

/-- If the computation ends well, it does so as its exit says. -/
def ConcludesFrom (store : Store) (reached : Operation → Slot → RunState → Prop) (s : RunState)
    (x : Exec Exit) : Prop :=
  ∀ exit, (x.run s).ending = .done exit → Concludes store reached s.calls (x.run s).events exit

variable {store : Store} {reached reached' : Operation → Slot → RunState → Prop} {calls : Nat}
  {before events : List Event} {exit : Exit}

theorem NoReturn.nil : NoReturn calls [] := by
  intro op scope started
  cases started

theorem NoReturn.append (first : NoReturn calls before) (second : NoReturn calls events) :
    NoReturn calls (before ++ events) := by
  intro op scope started
  exact (List.mem_append.1 started).elim (first op scope) (second op scope)

theorem Concludes.widen (wider : ∀ r scope t, reached r scope t → reached' r scope t)
    (concludes : Concludes store reached calls events exit) :
    Concludes store reached' calls events exit := by
  cases exit with
  | normal value => exact concludes
  | returned value =>
    obtain ⟨before, r, scope, t, whole, none, opcode, way, given⟩ := concludes
    exact ⟨before, r, scope, t, whole, none, opcode, wider r scope t way, given⟩

theorem Concludes.after (first : NoReturn calls before)
    (concludes : Concludes store reached calls events exit) :
    Concludes store reached calls (before ++ events) exit := by
  cases exit with
  | normal value => exact first.append concludes
  | returned value =>
    obtain ⟨more, r, scope, t, rfl, none, rest⟩ := concludes
    exact ⟨before ++ more, r, scope, t, (List.append_assoc _ _ _).symm, first.append none, rest⟩

end Endings

section Constructs

variable {store : Store} {settings : Settings} {fuel : Nat} {slot : Slot} {op : Operation}
  {s : RunState} {reached : Operation → Slot → RunState → Prop}

theorem ConcludesFrom.pure_normal (value : Option Value) :
    ConcludesFrom store reached s (pure (.normal value)) := by
  intro exit ended
  cases ended
  exact .nil

theorem ConcludesFrom.fail (error : EvalError) : ConcludesFrom store reached s (.fail error) := by
  intro exit ended
  cases ended

theorem ConcludesFrom.unfinished : ConcludesFrom store reached s .unfinished := by
  intro exit ended
  cases ended

theorem ConcludesFrom.bind {α : Type} {x : Exec α} {f : α → Exec Exit}
    (each : ∀ a, (x.run s).ending = .done a →
      ∀ exit, ((f a).run (x.run s).state).ending = .done exit → Concludes store reached s.calls
        ((x.run s).events ++ ((f a).run (x.run s).state).events) exit) :
    ConcludesFrom store reached s (x >>= f) := by
  intro exit ended
  obtain ⟨a, first, whole⟩ := Exec.exists_of_bind_done ended
  rw [whole] at ended ⊢
  exact each a first exit ended

theorem ConcludesFrom.required {params : Parameters} {key : String} {f : String → Exec Exit}
    (each : ∀ raw, params.get? key = some raw → ConcludesFrom store reached s (f raw)) :
    ConcludesFrom store reached s (required op params key >>= f) := by
  unfold Execution.required
  cases given : params.get? key with
  | some raw => exact each raw given
  | none => exact .fail _

theorem ConcludesFrom.coerce {raw : String} {f : Value → Exec Exit}
    (each : ∀ value, s.scopes.coerce slot raw = .ok value →
      ConcludesFrom store reached s (f value)) :
    ConcludesFrom store reached s (Exec.coerce slot raw >>= f) := by
  refine .bind fun value ended => ?_
  unfold Exec.coerce at ended ⊢
  rw [Exec.run_inspect] at ended ⊢
  cases coerced : s.scopes.coerce slot raw with
  | ok v =>
    rw [coerced] at ended
    cases ended
    exact each value coerced
  | error error =>
    rw [coerced] at ended
    cases ended

theorem ConcludesFrom.normal {x : Exec Exit} (normal : x.OnlyNormal) (deeper : x.StartsAt .deeper)
    (s : RunState) : ConcludesFrom store reached s x := by
  intro exit ended
  obtain ⟨value, rfl⟩ := normal exit ⟨s, ended⟩
  intro other scope started
  exact absurd (deeper.starts s other scope s.calls started) (Nat.lt_irrefl _)

theorem exit_of_return (opcode : op.opcode = .giveBack) {exit : Exit}
    (ended : ((execute store settings fuel slot op).run s).ending = .done exit) :
    exit = .returned exit.value := by
  cases fuel with
  | zero => cases ended
  | succ fuel =>
    rw [run_execute_return store settings opcode] at ended
    split at ended
    · cases ended
      rfl
    · cases ended

variable (unwind : settings.returns = .unwind)

include unwind

/-- A block ends as the first operation in it that ended as returned, if there is one. -/
theorem concludes_block (inside : ∀ op s, slot < s.scopes.depth → ConcludesFrom store
      (Reaches store settings fuel slot [op] s) s (execute store settings fuel slot op))
    (ops : List Operation) (live : slot < s.scopes.depth) :
    ConcludesFrom store (Reaches store settings fuel slot ops s) s
      (block settings (execute store settings fuel) slot ops) := by
  induction ops generalizing s with
  | nil => exact .pure_normal none
  | cons op rest ih =>
    rw [block]
    by_cases skipped : op.opcode = .otherwise
    · rw [if_pos skipped]
      exact fun exit ended => (ih live exit ended).widen fun _ _ _ => .skip skipped
    · rw [if_neg skipped]
      refine .bind fun first ended exit later => ?_
      have here := inside op s live first ended
      by_cases back : op.opcode = .giveBack
      · rw [if_pos back] at later ⊢
        rw [exit_of_return back ended] at here later ⊢
        cases later
        exact (List.append_nil _).symm ▸ here.widen fun _ _ _ way => way.widen rest
      · rw [if_neg back, unwind] at later ⊢
        cases first with
        | normal value =>
          obtain ⟨calls, scopes⟩ := execute_confined store settings fuel slot op s live
          have still : slot < ((execute store settings fuel slot op).run s).state.scopes.depth :=
            scopes.depth ▸ live
          have remaining := ih still exit later
          rw [calls] at remaining
          refine (remaining.after here).widen fun _ _ _ => .next skipped back ?_ ended
          rw [unwind, escaping_normal]
        | returned value =>
          cases later
          exact (List.append_nil _).symm ▸ here.widen fun _ _ _ way => way.widen rest

theorem concludes_forEach {round : Value → Exec Exit}
    (kept : ∀ item, ((round item).run s).state = s) (items : List Value)
    (inside : ∀ earlier item later, items = earlier ++ item :: later →
      (∀ other ∈ earlier, ∃ exit, settings.returns.escaping exit = none ∧
        ((round other).run s).ending = .done exit) → ConcludesFrom store reached s (round item)) :
    ConcludesFrom store reached s (forEach settings round items) := by
  induction items with
  | nil => exact .pure_normal none
  | cons item rest ih =>
    refine .bind fun first ended exit later => ?_
    have here := inside [] item rest rfl (by simp) first ended
    rw [kept item] at later ⊢
    cases first with
    | normal value =>
      have stays : settings.returns.escaping (.normal value) = none := escaping_normal _ _
      simp only [stays] at later ⊢
      refine (ih (fun earlier item' later' split rounds => ?_) exit later).after here
      refine inside (item :: earlier) item' later' (congrArg (item :: ·) split) ?_
      intro other there
      rcases List.mem_cons.1 there with rfl | there
      · exact ⟨_, stays, ended⟩
      · exact rounds other there
    | returned value =>
      simp only [unwind, Returns.escaping] at later ⊢
      cases later
      exact (List.append_nil _).symm ▸ here

section Blocks

variable (blocks : ∀ slot ops s, slot < s.scopes.depth →
  ConcludesFrom store (Reaches store settings fuel slot ops s) s
    (block settings (execute store settings fuel) slot ops))

include blocks

omit unwind in
theorem concludes_body {parent : OpId} {names : List (String × Value)} (rest : List Operation)
    (enters : Enters store settings fuel slot op s parent names) :
    ConcludesFrom store (Reaches store settings (fuel + 1) slot (op :: rest) s) s
      (body store settings (execute store settings fuel) parent slot names) := by
  intro exit ended
  rw [run_body] at ended ⊢
  have inner := blocks s.scopes.depth (store.children (some parent)) (s.inBody slot names)
    (s.live_inBody slot names) exit ended
  refine (inner.widen fun _ _ _ => .inside enters).after ?_
  intro other scope started
  simp at started

omit unwind in
theorem concludes_conditional (opcode : op.opcode = .conditional) :
    ConcludesFrom store (Reaches store settings (fuel + 1) slot [op] s) s
      (conditional store settings (execute store settings fuel) slot op
        (store.parametersOf op.id)) := by
  refine .required fun raw given => .coerce fun condition coerced => ?_
  cases chosen : branch store op condition with
  | some parent => exact concludes_body blocks [] (.branch opcode given coerced chosen)
  | none => exact .pure_normal none

theorem concludes_whileLoop (opcode : op.opcode = .whileLoop) (rounds : Nat)
    (live : slot < s.scopes.depth) :
    ConcludesFrom store (Reaches store settings (fuel + 1) slot [op] s) s
      (whileLoop store settings rounds (execute store settings fuel) slot op
        (store.parametersOf op.id)) := by
  refine .required fun raw given => ?_
  cases rounds with
  | zero => exact .unfinished
  | succ rounds =>
    rw [repeatWhile, LawfulMonad.bind_assoc]
    refine .coerce fun condition coerced => ?_
    rw [LawfulMonad.pure_bind]
    by_cases truthy : condition.isTruthy
    · rw [if_pos truthy]
      refine .bind fun first ended exit later => ?_
      have here := concludes_body blocks [] (.round opcode given coerced truthy) first ended
      cases first with
      | normal value =>
        have holds := run_condition_of_truthy coerced truthy
        have confined := execute_confined store settings fuel
        have kept := keeps_body store settings confined op.id [] s live
        have goes : ¬ settings.returns.Stops (.done (.normal value)) := by
          simp [Returns.Stops, escaping_normal]
        rw [← ended] at goes
        have stuck := ending_repeatWhile_of_not_stops holds kept goes rounds
        rw [escaping_normal, kept] at later
        rw [stuck] at later
        cases later
      | returned value =>
        rw [unwind] at later ⊢
        cases later
        exact (List.append_nil _).symm ▸ here
    · rw [if_neg truthy]
      exact .pure_normal none

theorem concludes_forLoop (opcode : op.opcode = .forLoop) (live : slot < s.scopes.depth) :
    ConcludesFrom store (Reaches store settings (fuel + 1) slot [op] s) s
      (forLoop store settings (execute store settings fuel) slot op
        (store.parametersOf op.id)) := by
  refine .required fun iterator named => .required fun raw given => .coerce fun value coerced => ?_
  cases found : value.items? with
  | none => exact .fail _
  | some items =>
    refine concludes_forEach unwind (fun item => ?_) items fun earlier item later split rounds => ?_
    · exact keeps_body store settings (execute_confined store settings fuel) op.id _ s live
    · exact concludes_body blocks [] (.item opcode named given coerced (split ▸ found) rounds)

theorem concludes_execute_succ (live : slot < s.scopes.depth) :
    ConcludesFrom store (Reaches store settings (fuel + 1) slot [op] s) s
      (execute store settings (fuel + 1) slot op) := by
  intro exit ended
  by_cases back : op.opcode = .giveBack
  · rw [run_execute_return store settings back] at ended ⊢
    have kept : op.opcode ≠ .otherwise := by simp [back]
    cases given : store.returned op s.scopes slot with
    | ok value =>
      rw [given] at ended
      cases ended
      exact ⟨[], op, slot, s, rfl, .nil, back, .here kept, given⟩
    | error error =>
      rw [given] at ended
      cases ended
  · rw [run_execute_succ] at ended ⊢
    have performed : ConcludesFrom store (Reaches store settings (fuel + 1) slot [op] s) s
        (perform store settings fuel (execute store settings fuel) slot op) := by
      by_cases control : op.opcode.isControl
      · unfold perform
        cases opcode : op.opcode with
        | conditional => exact concludes_conditional blocks opcode
        | whileLoop => exact concludes_whileLoop unwind blocks opcode fuel live
        | forLoop => exact concludes_forLoop unwind blocks opcode live
        | otherwise => exact .normal (.pure none) (.pure _) s
        | _ =>
          rw [opcode] at control
          cases control
      · have starts := execute_startsAt store settings fuel
        exact .normal (onlyNormal_plain control back fuel)
          (startsDeeper_perform store settings starts control fuel slot) s
    refine (performed exit ended).after fun other scope started => ?_
    cases List.mem_singleton.1 started
    exact back

end Blocks

end Constructs

section Runs

variable {store : Store} {settings : Settings} (unwind : settings.returns = .unwind)

include unwind

theorem concludes_execute (fuel : Nat) (slot : Slot) (op : Operation) (s : RunState)
    (live : slot < s.scopes.depth) : ConcludesFrom store (Reaches store settings fuel slot [op] s) s
      (execute store settings fuel slot op) := by
  induction fuel generalizing slot op s with
  | zero => exact .unfinished
  | succ fuel ih =>
    refine concludes_execute_succ unwind (fun slot ops s live => ?_) live
    exact concludes_block unwind (ih slot) ops live

theorem concludes_runBlock (fuel : Nat) (slot : Slot) (parent : Option OpId) (s : RunState)
    (live : slot < s.scopes.depth) :
    ConcludesFrom store (Reaches store settings fuel slot (store.children parent) s) s
      (runBlock store settings fuel slot parent) :=
  concludes_block unwind (concludes_execute unwind fuel slot) _ live

end Runs

/-- What happened in an activation inside so many calls that ended with a value: no `return` at all,
or one, as the last of all. -/
def ActivationEnds (store : Store) (reached : Operation → Slot → RunState → Prop) (calls : Nat)
    (events : List Event) (value : Option Value) : Prop :=
  NoReturn calls events ∧ value = none ∨ ReturnsLast store reached calls events value

section Activations

variable {store : Store} {settings : Settings} {fuel : Nat} {slot : Slot} {s : RunState}
  {reached : Operation → Slot → RunState → Prop} {calls : Nat} {events : List Event} {exit : Exit}

theorem block_normal {run : Runner} {ops : List Operation} {value : Option Value}
    (given : (block settings run slot ops).Gives (.normal value)) : value = none := by
  induction ops with
  | nil =>
    cases Exec.gives_pure given
    rfl
  | cons op rest ih =>
    rw [block] at given
    split at given
    · exact ih given
    · obtain ⟨exit, _, given⟩ := Exec.gives_bind given
      split at given
      · cases Exec.gives_pure given
      · split at given
        case h_1 out escapes =>
          obtain rfl := Returns.eq_of_escaping escapes
          cases Exec.gives_pure given
          rw [escaping_normal] at escapes
          cases escapes
        case h_2 => exact ih given

theorem Concludes.activationEnds (concludes : Concludes store reached calls events exit)
    (bare : ∀ value, exit = .normal value → value = none) :
    ActivationEnds store reached calls events exit.value := by
  cases exit with
  | normal value => exact .inl ⟨concludes, bare value rfl⟩
  | returned value => exact .inr concludes

theorem activationEnds_runBlock (unwind : settings.returns = .unwind) (live : slot < s.scopes.depth)
    {parent : Option OpId}
    (ended : ((runBlock store settings fuel slot parent).run s).ending = .done exit) :
    ActivationEnds store (Reaches store settings fuel slot (store.children parent) s) s.calls
      ((runBlock store settings fuel slot parent).run s).events exit.value := by
  refine (concludes_runBlock unwind fuel slot parent s live exit ended).activationEnds ?_
  rintro value rfl
  exact block_normal ⟨s, ended⟩

theorem run_invoke (run : Runner) (f : FunctionValue) (args : List Value) (s : RunState) :
    (invoke store settings run slot f args).run s =
      let o := (body store settings run f.body slot (f.params.zip args) >>= fun exit =>
        pure exit.value).run { s with calls := s.calls + 1 }
      { ending := o.ending
        state := { o.state with calls := o.state.calls - 1 }
        events := .called f args (s.calls + 1) :: o.events } := by
  have logged : ∀ x : Exec (Option Value),
      (Exec.log (.called f args (s.calls + 1)) >>= fun _ => x).run { s with calls := s.calls + 1 } =
        (x.run { s with calls := s.calls + 1 }).after [.called f args (s.calls + 1)] := by
    intro x
    change (Exec.bind (Exec.log _) _).run _ = _
    rw [Exec.run_bind, Exec.run_log]
  rw [invoke, Exec.run_inCall, run_calls_bind]
  simp only [logged]
  rfl

theorem exists_of_invoke_done {f : FunctionValue} {args : List Value} {value : Option Value}
    (ended : ((invoke store settings (execute store settings fuel) slot f args).run s).ending =
      .done value) :
    let inner := RunState.inBody { s with calls := s.calls + 1 } slot (f.params.zip args)
    let o := (runBlock store settings fuel s.scopes.depth (some f.body)).run inner
    ∃ exit, o.ending = .done exit ∧ value = exit.value ∧
      ((invoke store settings (execute store settings fuel) slot f args).run s).events =
        .called f args (s.calls + 1) :: ((f.params.zip args).map fun entry =>
          .bound s.scopes.depth entry.1 entry.2) ++ o.events := by
  intro inner o
  rw [run_invoke] at ended ⊢
  obtain ⟨exit, first, -⟩ := Exec.exists_of_bind_done ended
  rw [Exec.run_bind_pure first] at ended ⊢
  cases ended
  rw [run_body] at first ⊢
  exact ⟨exit, first, rfl, rfl⟩

theorem activationEnds_invoke (unwind : settings.returns = .unwind) {f : FunctionValue}
    {args : List Value} {value : Option Value}
    (ended : ((invoke store settings (execute store settings fuel) slot f args).run s).ending =
      .done value) :
    ActivationEnds store (Reaches store settings fuel s.scopes.depth (store.children (some f.body))
        (RunState.inBody { s with calls := s.calls + 1 } slot (f.params.zip args))) (s.calls + 1)
      ((invoke store settings (execute store settings fuel) slot f args).run s).events value := by
  obtain ⟨exit, done, rfl, events⟩ := exists_of_invoke_done ended
  have live := RunState.live_inBody { s with calls := s.calls + 1 } slot (f.params.zip args)
  have inner := concludes_runBlock unwind fuel s.scopes.depth (some f.body) _ live exit done
  rw [events]
  refine Concludes.activationEnds (inner.after fun op scope started => ?_) ?_
  · simp at started
  · rintro value rfl
    exact block_normal ⟨_, done⟩

theorem goes_on_after_call {op : Operation} (opcode : op.opcode = .call)
    (ended : ((execute store settings fuel slot op).run s).ending = .done exit) :
    exit = .normal exit.value ∧ ∀ rest,
      (block settings (execute store settings fuel) slot (op :: rest)).run s =
        ((block settings (execute store settings fuel) slot rest).run
          ((execute store settings fuel slot op).run s).state).after
            ((execute store settings fuel slot op).run s).events := by
  have plain : ¬ op.opcode.isControl := by simp [opcode, Opcode.isControl]
  have forward : op.opcode ≠ .giveBack := by simp [opcode]
  have kept : op.opcode ≠ .otherwise := by simp [opcode]
  have normal : exit = .normal exit.value := by
    cases fuel with
    | zero => cases ended
    | succ fuel =>
      rw [run_execute_succ] at ended
      obtain ⟨value, rfl⟩ := onlyNormal_plain plain forward fuel exit ⟨s, ended⟩
      rfl
  refine ⟨normal, fun rest => ?_⟩
  rw [normal] at ended
  rw [block, if_neg kept]
  change (Exec.bind (execute store settings fuel slot op) _).run s = _
  rw [Exec.run_bind, ended]
  simp only [if_neg forward, escaping_normal]

end Activations

end Execution

open Execution

/-- Where a `return` ends every block around it up to the nearest call, it is the last thing that
its activation does, be that the run of a block or a call, and the value of the activation is the
one that it gives back. An activation without one has no value. After a call its block goes on,
whatever was returned. -/
theorem return_ends_activation (store : Store) (limit : Option Nat) (fuel : Nat) {slot : Slot}
    {s : RunState} (live : slot < s.scopes.depth) :
    let settings : Settings := ⟨.unwind, limit⟩
    let run := execute store settings fuel
    (∀ parent exit,
      let o := (runBlock store settings fuel slot parent).run s
      o.ending = .done exit → ActivationEnds store
        (Reaches store settings fuel slot (store.children parent) s) s.calls o.events exit.value) ∧
      (∀ f args value,
        let o := (invoke store settings run slot f args).run s
        let inner := RunState.inBody { s with calls := s.calls + 1 } slot (f.params.zip args)
        o.ending = .done value → ActivationEnds store
          (Reaches store settings fuel s.scopes.depth (store.children (some f.body)) inner)
          (s.calls + 1) o.events value) ∧
      (∀ op exit, op.opcode = .call →
        let o := (run slot op).run s
        o.ending = .done exit → exit = .normal exit.value ∧ ∀ rest,
          (block settings run slot (op :: rest)).run s =
            ((block settings run slot rest).run o.state).after o.events) :=
  ⟨fun _ _ => activationEnds_runBlock rfl live, fun _ _ _ => activationEnds_invoke rfl,
    fun _ _ => goes_on_after_call⟩

/-- A function returns out of an `if` inside a loop that would never end, and its caller prints what
it gave back. -/
theorem return_ends_activation_loop :
    let store : Store := {
      operations := (Table.ofRows? [(1, ⟨"function", none, 1⟩), (2, ⟨"while", some ⟨1⟩, 1⟩),
        (3, ⟨"if", some ⟨2⟩, 1⟩), (4, ⟨"return", some ⟨3⟩, 1⟩), (5, ⟨"print", some ⟨3⟩, 2⟩),
        (6, ⟨"call", none, 2⟩), (7, ⟨"print", none, 3⟩)] 7).getD .empty
      parameters := (Table.ofRows? [(1, ⟨⟨1⟩, "name", some "f"⟩), (2, ⟨⟨1⟩, "params", some "n"⟩),
        (3, ⟨⟨2⟩, "condition", some "true"⟩), (4, ⟨⟨3⟩, "condition", some "$n"⟩),
        (5, ⟨⟨4⟩, "value", some "$n"⟩), (6, ⟨⟨5⟩, "value", some "never"⟩),
        (7, ⟨⟨6⟩, "name", some "f"⟩), (8, ⟨⟨6⟩, "args", some "7"⟩),
        (9, ⟨⟨6⟩, "result", some "x"⟩), (10, ⟨⟨7⟩, "value", some "$x"⟩)] 10).getD .empty }
    let settings : Settings := ⟨.unwind, none⟩
    let s := RunState.initial
    let f : FunctionValue := ⟨"f", ["n"], ⟨1⟩⟩
    let o := (runBlock store settings 5 Scopes.root none).run s
    let called := (invoke store settings (execute store settings 5) Scopes.root f [.int 7]).run s
    Scopes.root < s.scopes.depth ∧ o.lines = ["7"] ∧ o.ending = .done (.normal none) ∧
      NoReturn 0 o.events ∧ called.ending = .done (some (.int 7)) ∧
      ReturnsLast store (Reaches store settings 5 1 (store.children (some ⟨1⟩))
        (RunState.inBody { s with calls := 1 } Scopes.root [("n", .int 7)])) 1 called.events
        (some (.int 7)) := by
  intro store settings s f o called
  have live : Scopes.root < s.scopes.depth := by decide
  have ended : o.ending = .done (.normal none) := by decide
  have given : called.ending = .done (some (.int 7)) := by decide
  obtain ⟨block, call, _⟩ := return_ends_activation store none 5 live
  refine ⟨live, by decide, ended, ?_, given, ?_⟩
  · rcases block none _ ended with ⟨nothing, _⟩ | ⟨before, r, scope, t, last, _⟩
    · exact nothing
    · have other : o.events.getLast? = some (.printed "7") := by decide
      rw [show o.events = _ from last] at other
      simp at other
  · rcases call f [.int 7] _ given with ⟨_, without⟩ | returns
    · cases without
    · exact returns

end OpTree
