import OpTree.Proofs.Visibility

set_option autoImplicit false

namespace OpTree

/-- What is seen of a whole run that has ended. -/
structure Observation where
  result : Except EvalError (Option Value)
  lines : List String
  globals : String → Option Value

def Ending.leaving : Ending Exit → Ending (Option Value)
  | .done exit => .done exit.value
  | .failed error => .failed error
  | .unfinished => .unfinished

theorem Ending.leaving_eq_unfinished {ending : Ending Exit} :
    ending.leaving = .unfinished ↔ ending = .unfinished := by
  cases ending <;> simp [Ending.leaving]

def Outcome.Shows (o : Outcome Exit) (r : Observation) : Prop :=
  o.ending.leaving = Exec.endingOf r.result ∧ o.lines = r.lines ∧
    o.state.scopes.lookup Scopes.root = r.globals

namespace Interpreter

def outcome (i : Interpreter) (fuel : Nat) : Outcome Exit :=
  (runProgram i.store i.settings fuel).run i.state

def printed (i : Interpreter) (fuel : Nat) : List String :=
  ((runProgram i.store i.settings fuel).run i.state).lines

def ShowsWith (i : Interpreter) (fuel : Nat) (r : Observation) : Prop :=
  (i.run fuel).1 = Exec.endingOf r.result ∧ i.printed fuel = r.lines ∧
    (i.run fuel).2.global = r.globals

def Shows (i : Interpreter) (r : Observation) : Prop :=
  ∃ fuel, i.ShowsWith fuel r

theorem run_ending (i : Interpreter) (fuel : Nat) :
    (i.run fuel).1 = ((runProgram i.store i.settings fuel).run i.state).ending.leaving :=
  rfl

theorem showsWith_iff {i : Interpreter} {fuel : Nat} {r : Observation} :
    i.ShowsWith fuel r ↔ (i.outcome fuel).Shows r :=
  Iff.rfl

theorem outcome_fresh {store : Store} {mode : Mode} {returns : Returns} {given limit : Option Nat}
    {sink : Option Sink} (effective : given.or mode.limit = limit) (fuel : Nat) :
    (fresh store mode returns given sink).outcome fuel =
      (runProgram store ⟨returns, limit⟩ fuel).run RunState.initial := by
  rw [← effective]
  rfl

theorem exists_showsWith {i : Interpreter} {fuel : Nat} (finished : (i.run fuel).1 ≠ .unfinished) :
    ∃ r, i.ShowsWith fuel r := by
  cases ending : (i.run fuel).1 with
  | done value => exact ⟨⟨.ok value, _, _⟩, ending, rfl, rfl⟩
  | failed error => exact ⟨⟨.error error, _, _⟩, ending, rfl, rfl⟩
  | unfinished => exact absurd ending finished

theorem global_of_single {i : Interpreter} {name : String} {value : Value}
    (single : i.state.scopes = ⟨#[⟨none, [(name, value)]⟩]⟩) :
    i.global = fun other => if other = name then some value else none := by
  funext other
  rw [global, lookup, single]
  by_cases same : other = name
  · simp [Scopes.lookup, Scopes.lookupFrom, Scope.get?, Scopes.root, same]
  · have differ : (name == other) = false := by simpa using Ne.symm same
    simp [Scopes.lookup, Scopes.lookupFrom, Scope.get?, Scopes.root, same, differ]

theorem ShowsWith.finished {i : Interpreter} {fuel : Nat} {r : Observation}
    (shown : i.ShowsWith fuel r) : (i.run fuel).1 ≠ .unfinished := by
  rw [shown.1]
  cases r.result <;> exact nofun

end Interpreter

namespace Correspondence

variable {spare : Nat} {source target : Store} (c : Correspondence spare source target)

inductive Results : Except EvalError (Option Value) → Except EvalError (Option Value) → Prop
  | ok {v w : Option Value} : Option.Rel c.Val v w → Results (.ok v) (.ok w)
  | error {error error' : EvalError} : c.Err error error' → Results (.error error) (.error error')

/-- Observations that differ at most in the identifiers of operations, as far as these
correspond. -/
structure Observed (r r' : Observation) : Prop where
  result : c.Results r.result r'.result
  lines : r'.lines = r.lines
  globals : ∀ name, Option.Rel c.Val (r.globals name) (r'.globals name)

variable {c} in
theorem val_of_flip {some : 0 < spare} {v w : Value} (values : (c.flip some).Val w v) :
    c.Val v w := by
  cases values with
  | function name params ij =>
    obtain ⟨b, a, ab, opcode, rfl, rfl⟩ := ij
    exact .function name params ⟨a, b, ab, (c.opcode ab).symm.trans opcode, rfl, rfl⟩
  | _ => exact .refl_of_kind nofun

variable {c} in
theorem optional_of_flip {some : 0 < spare} {v w : Option Value}
    (values : Option.Rel (c.flip some).Val w v) : Option.Rel c.Val v w := by
  cases values with
  | none => exact .none
  | some values => exact .some (val_of_flip values)

variable {c} in
theorem err_of_flip {some : 0 < spare} {error error' : EvalError}
    (errors : (c.flip some).Err error' error) : c.Err error error' := by
  cases errors with
  | missing opcode key ij =>
    obtain ⟨b, a, ab, rfl, rfl⟩ := ij
    exact .missing opcode key ⟨a, b, ab, rfl, rfl⟩
  | same other => exact .same other

theorem leaving_matched {o p : Ending Exit} (matched : o.MatchedBy c.Leaves c.Err p) :
    o.leaving.MatchedBy (Option.Rel c.Val) c.Err p.leaving := by
  cases matched with
  | unfinished => exact .unfinished
  | done exits => exact .done (c.value_matched exits)
  | failed errors => exact .failed errors

theorem results_of_endings {x y : Except EvalError (Option Value)}
    (matched : (Exec.endingOf x).MatchedBy (Option.Rel c.Val) c.Err (Exec.endingOf y)) :
    c.Results x y := by
  cases x with
  | ok v =>
    cases y with
    | ok w =>
      cases matched with
      | done values => exact .ok values
    | error error' => cases matched
  | error error =>
    cases y with
    | ok w => cases matched
    | error error' =>
      cases matched with
      | failed errors => exact .error errors

variable {mode : Mode} {returns : Returns} {limit : Option Nat} {sink sink' : Option Sink}

theorem run_matched (fuel : Nat) :
    let i := Interpreter.fresh source mode returns limit sink
    let j := Interpreter.fresh target mode returns limit sink'
    (i.run fuel).1.MatchedBy (Option.Rel c.Val) c.Err (j.run (fuel + spare)).1 ∧
      ((i.run fuel).1 ≠ .unfinished → j.printed (fuel + spare) = i.printed fuel ∧
        ∀ name, Option.Rel c.Val ((i.run fuel).2.global name)
          ((j.run (fuel + spare)).2.global name)) := by
  intro i j
  obtain ⟨ending, lines, view⟩ :=
    c.runProgram_matched i.settings fuel RunState.initial RunState.initial .initial
  refine ⟨c.leaving_matched ending, fun finished => ?_⟩
  have ended : ((runProgram source i.settings fuel).run RunState.initial).ending ≠ .unfinished := by
    intro stuck
    rw [i.run_ending] at finished
    exact finished (congrArg Ending.leaving stuck)
  exact ⟨lines ended, (view ended).lookup⟩

theorem observed_of_showsWith {fuel : Nat} {r r' : Observation}
    (shown : (Interpreter.fresh source mode returns limit sink).ShowsWith fuel r)
    (shown' : (Interpreter.fresh target mode returns limit sink').ShowsWith (fuel + spare) r') :
    c.Observed r r' := by
  obtain ⟨both, rest⟩ := c.run_matched fuel
  obtain ⟨lines, globals⟩ := rest shown.finished
  rw [shown.1, shown'.1] at both
  rw [shown.2.1, shown'.2.1] at lines
  rw [shown.2.2, shown'.2.2] at globals
  exact ⟨c.results_of_endings both, lines, globals⟩

theorem showsWith_matched {fuel : Nat} {r : Observation}
    (shown : (Interpreter.fresh source mode returns limit sink).ShowsWith fuel r) :
    ∃ r', (Interpreter.fresh target mode returns limit sink').ShowsWith (fuel + spare) r' ∧
      c.Observed r r' := by
  have finished : ((Interpreter.fresh target mode returns limit sink').run (fuel + spare)).1 ≠
      .unfinished := fun stuck => shown.finished ((c.run_matched fuel).1.isUnfinished stuck)
  obtain ⟨r', shown'⟩ := Interpreter.exists_showsWith finished
  exact ⟨r', shown', c.observed_of_showsWith shown shown'⟩

theorem shows_matched {r : Observation}
    (shown : (Interpreter.fresh source mode returns limit sink).Shows r) :
    ∃ r', (Interpreter.fresh target mode returns limit sink').Shows r' ∧ c.Observed r r' := by
  obtain ⟨fuel, shown⟩ := shown
  obtain ⟨r', shown', both⟩ := c.showsWith_matched shown
  exact ⟨r', ⟨fuel + spare, shown'⟩, both⟩

variable {c} in
theorem Observed.of_flip {some : 0 < spare} {r r' : Observation}
    (both : (c.flip some).Observed r' r) : c.Observed r r' := by
  obtain ⟨ending, lines, globals⟩ := both
  refine ⟨?_, lines.symm, fun name => optional_of_flip (globals name)⟩
  obtain ⟨result, _, _⟩ := r
  obtain ⟨result', _, _⟩ := r'
  cases ending with
  | ok values => exact .ok (optional_of_flip values)
  | error errors => exact .error (err_of_flip errors)

theorem observed_eq (same : ∀ {a b}, c.Op a b → a = b) {r r' : Observation}
    (both : c.Observed r r') : r = r' := by
  obtain ⟨result, lines, globals⟩ := r
  obtain ⟨result', lines', globals'⟩ := r'
  obtain ⟨ending, printed, bound⟩ := both
  congr 1
  · cases ending with
    | ok values => rw [optional_eq same values]
    | error errors => rw [err_eq same errors]
  · exact printed.symm
  · funext name
    exact optional_eq same (bound name)

end Correspondence

theorem Interpreter.ShowsWith.add {store : Store} {mode : Mode} {returns : Returns}
    {limit : Option Nat} {sink : Option Sink} {fuel : Nat} {r : Observation}
    (shown : (Interpreter.fresh store mode returns limit sink).ShowsWith fuel r) (spare : Nat) :
    (Interpreter.fresh store mode returns limit sink).ShowsWith (fuel + spare) r := by
  let c := Correspondence.self spare store
  obtain ⟨r', shown', both⟩ := c.showsWith_matched shown
  rwa [← c.observed_eq id both] at shown'

/-- What is seen of a program does not depend on the fuel that it is given. -/
theorem Interpreter.shows_unique {store : Store} {mode : Mode} {returns : Returns}
    {limit : Option Nat} {sink : Option Sink} {r r' : Observation}
    (shown : (Interpreter.fresh store mode returns limit sink).Shows r)
    (shown' : (Interpreter.fresh store mode returns limit sink).Shows r') : r = r' := by
  obtain ⟨fuel, shown⟩ := shown
  obtain ⟨fuel', shown'⟩ := shown'
  have more := shown.add fuel'
  have more' := shown'.add fuel
  rw [Nat.add_comm] at more'
  let c := Correspondence.self 0 store
  exact c.observed_eq id (c.observed_of_showsWith more more')

end OpTree
