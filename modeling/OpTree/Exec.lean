import OpTree.Coercion

set_option autoImplicit false

/-!
# Computations of a run

A computation starts from the state of a run and ends with a value, with an error, or not at all
within its fuel. Either way it leaves a state and the events that happened, so an error keeps
what was printed before it. The events of `x >>= f` are the events of `x` and then those of `f`
(`run_bind`). Computations are equal if their runs are (`ext_run`), and bind is lawful.
-/

namespace OpTree

/-- What happened in a run, as far as it can matter later. -/
inductive Event where
  | started (op : Operation) (scope : Slot) (calls : Nat)
  | bound (scope : Slot) (name : String) (value : Value)
  | called (function : FunctionValue) (args : List Value) (calls : Nat)
  | returned (value : Option Value) (scope : Slot) (calls : Nat)
  | printed (line : String)
  deriving DecidableEq, Repr

def Event.line? : Event → Option String
  | printed line => some line
  | _ => none

structure RunState where
  scopes : Scopes
  calls : Nat
  deriving DecidableEq, Repr

def RunState.initial : RunState where
  scopes := Scopes.initial
  calls := 0

inductive Ending (α : Type) where
  | done (value : α)
  | failed (error : EvalError)
  | unfinished
  deriving DecidableEq, Repr

structure Outcome (α : Type) where
  ending : Ending α
  state : RunState
  events : List Event
  deriving DecidableEq, Repr

namespace Outcome

variable {α : Type}

def lines (o : Outcome α) : List String :=
  o.events.filterMap Event.line?

def after (earlier : List Event) (o : Outcome α) : Outcome α :=
  { o with events := earlier ++ o.events }

end Outcome

/-- How far a run has come: its ending, its state and all that it logged, the latest event
first. -/
structure Progress (α : Type) where
  ending : Ending α
  state : RunState
  log : List Event
  deriving DecidableEq, Repr

namespace Progress

variable {α : Type}

def after (earlier : List Event) (p : Progress α) : Progress α :=
  { p with log := p.log ++ earlier }

def outcome (p : Progress α) : Outcome α where
  ending := p.ending
  state := p.state
  events := p.log.reverse

theorem outcome_after (earlier : List Event) (p : Progress α) :
    (p.after earlier).outcome = p.outcome.after earlier.reverse := by
  simp [after, outcome, Outcome.after]

theorem outcome_injective {p q : Progress α} (h : p.outcome = q.outcome) : p = q := by
  cases p
  cases q
  simp_all [outcome]

end Progress

/-- A computation that ends with a value of type `α` if all goes well. It goes on from what is
logged, which it does not look at. -/
structure Exec (α : Type) where
  step : RunState → List Event → Progress α
  step_after : ∀ s log, step s log = (step s []).after log

namespace Exec

variable {α β : Type}

def run (x : Exec α) (s : RunState) : Outcome α :=
  (x.step s []).outcome

theorem outcome_step (x : Exec α) (s : RunState) (log : List Event) :
    (x.step s log).outcome = (x.run s).after log.reverse := by
  rw [x.step_after, Progress.outcome_after, run]

theorem ext_run {x y : Exec α} (h : ∀ s, x.run s = y.run s) : x = y := by
  have steps : x.step = y.step := by
    funext s log
    rw [x.step_after, y.step_after, Progress.outcome_injective (h s)]
  cases x
  cases y
  cases steps
  rfl

def pure (a : α) : Exec α where
  step s log := { ending := .done a, state := s, log }
  step_after _ _ := rfl

def bind (x : Exec α) (f : α → Exec β) : Exec β where
  step s log :=
    match x.step s log with
    | { ending := .done a, state, log } => (f a).step state log
    | { ending := .failed error, state, log } => { ending := .failed error, state, log }
    | { ending := .unfinished, state, log } => { ending := .unfinished, state, log }
  step_after s log := by
    rw [x.step_after s log]
    obtain ⟨ending, state, mine⟩ := x.step s []
    cases ending with
    | done a =>
      simp only [Progress.after]
      rw [(f a).step_after state (mine ++ log), (f a).step_after state mine]
      simp [Progress.after]
    | failed error => rfl
    | unfinished => rfl

instance : Monad Exec where
  pure := Exec.pure
  bind := Exec.bind

def fail (error : EvalError) : Exec α where
  step s log := { ending := .failed error, state := s, log }
  step_after _ _ := rfl

def unfinished : Exec α where
  step s log := { ending := .unfinished, state := s, log }
  step_after _ _ := rfl

def ofExcept : Except EvalError α → Exec α
  | .ok a => pure a
  | .error error => fail error

def inspect (view : RunState → Except EvalError α) : Exec α where
  step s log := (ofExcept (view s)).step s log
  step_after s log := (ofExcept (view s)).step_after s log

def calls : Exec Nat :=
  inspect fun s => .ok s.calls

def log (event : Event) : Exec Unit where
  step s log := { ending := .done (), state := s, log := event :: log }
  step_after _ _ := rfl

def coerce (slot : Slot) (raw : String) : Exec Value :=
  inspect fun s => s.scopes.coerce slot raw

def resolve (slot : Slot) (name : String) : Exec Value :=
  inspect fun s => s.scopes.resolve slot name

def bindName (slot : Slot) (name : String) (value : Value) : Exec Unit where
  step s log :=
    { ending := .done ()
      state := { s with scopes := s.scopes.bind slot name value }
      log := .bound slot name value :: log }
  step_after _ _ := rfl

/-- Runs a body in a new scope, which is released however the body ends. -/
def inChild (parent : Slot) (body : Slot → Exec α) : Exec α where
  step s log :=
    let child := s.scopes.depth
    let p := (body child).step { s with scopes := s.scopes.openChild parent } log
    { p with state := { p.state with scopes := p.state.scopes.release child } }
  step_after s log := by
    simp only []
    rw [(body s.scopes.depth).step_after _ log]
    rfl

def inCall (body : Exec α) : Exec α where
  step s log :=
    let p := body.step { s with calls := s.calls + 1 } log
    { p with state := { p.state with calls := p.state.calls - 1 } }
  step_after s log := by
    simp only []
    rw [body.step_after _ log]
    rfl

theorem run_pure (a : α) (s : RunState) :
    (pure a).run s = { ending := .done a, state := s, events := [] } := rfl

theorem run_bind (x : Exec α) (f : α → Exec β) (s : RunState) :
    (bind x f).run s =
      match (x.run s).ending with
      | .done a => ((f a).run (x.run s).state).after (x.run s).events
      | .failed error => { x.run s with ending := .failed error }
      | .unfinished => { x.run s with ending := .unfinished } := by
  simp only [run, bind]
  obtain ⟨ending, state, log⟩ := x.step s []
  cases ending with
  | done a => exact (f a).outcome_step state log
  | failed error => rfl
  | unfinished => rfl

theorem run_fail (error : EvalError) (s : RunState) :
    (fail error : Exec α).run s = { ending := .failed error, state := s, events := [] } := rfl

theorem run_inspect (view : RunState → Except EvalError α) (s : RunState) :
    (inspect view).run s = (ofExcept (view s)).run s := rfl

theorem run_log (event : Event) (s : RunState) :
    (log event).run s = { ending := .done (), state := s, events := [event] } := rfl

theorem run_bindName (slot : Slot) (name : String) (value : Value) (s : RunState) :
    (bindName slot name value).run s =
      { ending := .done ()
        state := { s with scopes := s.scopes.bind slot name value }
        events := [.bound slot name value] } := rfl

theorem run_inChild (parent : Slot) (body : Slot → Exec α) (s : RunState) :
    (inChild parent body).run s =
      let o := (body s.scopes.depth).run { s with scopes := s.scopes.openChild parent }
      { o with state := { o.state with scopes := o.state.scopes.release s.scopes.depth } } := rfl

theorem run_inCall (body : Exec α) (s : RunState) :
    (inCall body).run s =
      let o := body.run { s with calls := s.calls + 1 }
      { o with state := { o.state with calls := o.state.calls - 1 } } := rfl

theorem pure_bind (a : α) (f : α → Exec β) : bind (pure a) f = f a :=
  rfl

theorem bind_pure (x : Exec α) : bind x pure = x := by
  refine ext_run fun s => ?_
  rw [run_bind]
  cases h : x.run s with
  | mk ending state events => cases ending <;> simp [run_pure, Outcome.after]

theorem bind_assoc {γ : Type} (x : Exec α) (f : α → Exec β) (g : β → Exec γ) :
    bind (bind x f) g = bind x fun a => bind (f a) g := by
  refine ext_run fun s => ?_
  simp only [run_bind]
  cases (x.run s).ending with
  | done a =>
    simp only [Outcome.after]
    cases ((f a).run (x.run s).state).ending <;> simp
  | failed error => rfl
  | unfinished => rfl

instance : LawfulMonad Exec :=
  LawfulMonad.mk' Exec (fun x => bind_pure x) (fun a f => pure_bind a f)
    (fun x f g => bind_assoc x f g)

end Exec

end OpTree
