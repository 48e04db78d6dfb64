import OpTree.Proofs.Activations
import OpTree.Proofs.Coercions
import OpTree.Proofs.Moments

set_option autoImplicit false

/-!
# Where values come from

A function that a run comes to is defined by a stored operation which the run has started, and any
other value was read from a stored text, is a letter that a loop visits, or was computed by an
operator (`Origin`). Every event of a run is justified by what happened before it (`Justified`), and
functions come from their definitions only (`origin_function_iff`). So a call runs nothing but what
is stored under an operation that defines a function.
-/

namespace OpTree

open Execution

section Origins

variable (store : Store)

structure HasStarted (events : List Event) (op : Operation) : Prop where
  stored : op ∈ store.allOperations
  started : ∃ scope calls, .started op scope calls ∈ events

/-- The function has the name and the parameters that the operation gives it, and its body is what
is under the operation. -/
structure Defines (op : Operation) (f : FunctionValue) : Prop where
  opcode : op.opcode = .function
  name : (store.parametersOf op.id).get? "name" = some f.name
  params : f.params = listEntries (store.parametersOf op.id) "params"
  body : f.body = op.id

/-- The value comes from what operations that have started are stored with. -/
inductive Origin (events : List Event) : Value → Prop
  | text {op : Operation} {key raw : String} : HasStarted store events op →
      (store.parametersOf op.id).get? key = some raw → (∀ name, raw ≠ "$" ++ name) →
      Origin events (Value.ofText raw)
  | entry {op : Operation} {raw : String} : HasStarted store events op → op.opcode = .call →
      raw ∈ listEntries (store.parametersOf op.id) "args" → (∀ name, raw ≠ "$" ++ name) →
      Origin events (Value.ofText raw)
  | letter {op : Operation} {text : String} {c : Char} : HasStarted store events op →
      op.opcode = .forLoop → Origin events (.str text) → c ∈ text.toList →
      Origin events (.str (String.singleton c))
  | result {op : Operation} {operator : BinaryOp} {left right value : Value} :
      HasStarted store events op → op.opcode = .binary operator → Origin events left →
      Origin events right → operator.eval left right = .ok value → Origin events value
  | function {op : Operation} {f : FunctionValue} : HasStarted store events op →
      Defines store op f → Origin events (.function f)

def Sourced (events : List Event) (value : Option Value) : Prop :=
  ∀ v, value = some v → Origin store events v

variable {store} {events events' : List Event} {value : Value} {f : FunctionValue}

theorem HasStarted.mono (more : events ⊆ events') {op : Operation}
    (begun : HasStarted store events op) : HasStarted store events' op := by
  obtain ⟨stored, scope, calls, started⟩ := begun
  exact ⟨stored, scope, calls, more started⟩

theorem Origin.mono (more : events ⊆ events') (origin : Origin store events value) :
    Origin store events' value := by
  induction origin with
  | text begun given plain => exact .text (begun.mono more) given plain
  | entry begun opcode listed plain => exact .entry (begun.mono more) opcode listed plain
  | letter begun opcode _ inside ih => exact .letter (begun.mono more) opcode ih inside
  | result begun opcode _ _ computed left right =>
    exact .result (begun.mono more) opcode left right computed
  | function begun defines => exact .function (begun.mono more) defines

theorem Sourced.mono (more : events ⊆ events') {value : Option Value}
    (sourced : Sourced store events value) : Sourced store events' value :=
  fun v given => (sourced v given).mono more

theorem sourced_none : Sourced store events none :=
  nofun

theorem sourced_some (origin : Origin store events value) : Sourced store events (some value) := by
  intro v given
  cases given
  exact origin

theorem ofText_ne_function (raw : String) : Value.ofText raw ≠ .function f := by
  intro same
  have denotes := denotes_ofText raw
  rw [same] at denotes
  cases denotes

theorem arithmetic_ne_function (operator : BinaryOp) (onInts : Int → Int → Int)
    (onFloats : Float → Float → Float) (left right : Value) :
    operator.arithmetic onInts onFloats left right ≠ .ok (.function f) := by
  unfold BinaryOp.arithmetic
  cases operator.numbers left right with
  | error error => nofun
  | ok pair =>
    dsimp only [Bind.bind, Except.bind]
    split
    case h_1 => split <;> nofun
    case h_2 => nofun

theorem compareBy_ne_function (operator : BinaryOp) (onTexts : String → String → Bool)
    (onNumbers : Number → Number → Bool) (left right : Value) :
    operator.compareBy onTexts onNumbers left right ≠ .ok (.function f) := by
  unfold BinaryOp.compareBy
  split
  · nofun
  · cases operator.numbers left right with
    | error error => nofun
    | ok pair => exact fun same => by cases same

theorem divide_ne_function (left right : Value) :
    BinaryOp.divide left right ≠ .ok (.function f) := by
  unfold BinaryOp.divide
  cases BinaryOp.numbers .div left right with
  | error error => nofun
  | ok pair =>
    obtain ⟨l, r⟩ := pair
    change (if r.toFloat == 0 then Except.error EvalError.divisionByZero
      else .ok (Value.float (l.toFloat / r.toFloat))) ≠ _
    split <;> nofun

theorem eval_ne_function (operator : BinaryOp) (left right : Value) :
    operator.eval left right ≠ .ok (.function f) := by
  unfold BinaryOp.eval
  cases operator with
  | add => exact arithmetic_ne_function _ _ _ _ _
  | sub => exact arithmetic_ne_function _ _ _ _ _
  | mul => exact arithmetic_ne_function _ _ _ _ _
  | div => exact divide_ne_function left right
  | eq => nofun
  | lt => exact compareBy_ne_function .lt _ _ left right
  | gt => exact compareBy_ne_function .gt _ _ left right

theorem origin_function_iff : Origin store events (.function f) ↔
    ∃ op, HasStarted store events op ∧ Defines store op f := by
  constructor
  · intro origin
    generalize whole : Value.function f = value at origin
    cases origin with
    | text _ _ _ => exact absurd whole.symm (ofText_ne_function _)
    | entry _ _ _ _ => exact absurd whole.symm (ofText_ne_function _)
    | letter _ _ _ _ => cases whole
    | result _ _ _ _ computed => exact absurd (whole ▸ computed) (eval_ne_function _ _ _)
    | function begun defines =>
      cases whole
      exact ⟨_, begun, defines⟩
  · rintro ⟨op, begun, defines⟩
    exact .function begun defines

end Origins

section Justified

variable (store : Store) (settings : Settings)

/-- The names are bound in a scope, and then the block under the operation is run, inside so many
calls. Only if the block ends well does anything come after it. -/
def RunsUnder (op : Operation) (names : List (String × Value)) (calls : Nat)
    (events : List Event) : Prop :=
  ∃ fuel scope inner rest, inner.calls = calls ∧
    let o := (runBlock store settings fuel scope (some op.id)).run inner
    events = names.map (fun entry => .bound scope entry.1 entry.2) ++ o.events ++ rest ∧
      (rest = [] ∨ ∃ exit, o.ending = .done exit)

/-- All values that an event tells of have an origin in what happened before it, and after a call
comes what is under the operation that defines its function. -/
def Justified (before after : List Event) : Event → Prop
  | .started op _ _ => op ∈ store.allOperations
  | .bound _ _ value => Origin store before value
  | .called f args calls => (∀ arg ∈ args, Origin store before arg) ∧
      ∃ op, HasStarted store before op ∧ Defines store op f ∧
        RunsUnder store settings op (f.params.zip args) calls after
  | .returned value _ _ => Sourced store before value
  | .printed line => ∃ value, Origin store before value ∧ line = value.text

/-- Every one of the events is justified, given what happened before and after all of them. -/
def EachJustified (earlier events later : List Event) : Prop :=
  ∀ before event after, events = before ++ event :: after →
    Justified store settings (earlier ++ before) (after ++ later) event

variable {store settings} {earlier events events' later : List Event} {event : Event}

theorem EachJustified.nil : EachJustified store settings earlier [] later := by
  intro before event after split
  simp at split

theorem EachJustified.cons (first : Justified store settings earlier (events ++ later) event)
    (second : EachJustified store settings (earlier ++ [event]) events later) :
    EachJustified store settings earlier (event :: events) later := by
  intro before other after split
  cases before with
  | nil =>
    cases split
    rwa [List.append_nil]
  | cons _ before =>
    cases split
    have := second before other after rfl
    rwa [List.append_assoc] at this

theorem EachJustified.append
    (first : EachJustified store settings earlier events (events' ++ later))
    (second : EachJustified store settings (earlier ++ events) events' later) :
    EachJustified store settings earlier (events ++ events') later := by
  intro before event after split
  rcases List.append_eq_append_iff.mp split with ⟨more, rfl, rest⟩ | ⟨more, rfl, rest⟩
  · rw [← List.append_assoc]
    exact second more event after rest
  · cases more with
    | nil =>
      have := second [] event after rest.symm
      rwa [List.append_nil, List.append_nil] at this
    | cons other more =>
      rw [List.cons_append] at rest
      obtain ⟨rfl, rfl⟩ := List.cons.inj rest
      rw [List.append_assoc]
      exact first before event more rfl

end Justified

end OpTree
