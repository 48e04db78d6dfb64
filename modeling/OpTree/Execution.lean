import OpTree.Entries
import OpTree.Exec
import OpTree.BinaryEvaluation
import OpTree.Store.Basic

set_option autoImplicit false

/-!
# Execution of operations

`execute` runs one operation and `runBlock` the operations under a parent. Everything that an
operation does is written over a function that runs the operations inside it; `execute` ties the
knot with fuel, which bounds how deep operations nest and how often a loop goes round. An outcome
that is not `unfinished` is the same for every greater fuel.
-/

namespace OpTree

inductive Returns where
  /-- It ends the block that it stands in. -/
  | shallow
  /-- It ends every block around it up to the nearest call. -/
  | unwind
  deriving DecidableEq, Repr

structure Settings where
  returns : Returns
  limit : Option Nat
  deriving DecidableEq, Repr

inductive Exit where
  | normal (value : Option Value)
  | returned (value : Option Value)
  deriving DecidableEq, Repr

def Exit.value : Exit → Option Value
  | normal value => value
  | returned value => value

/-- The exit of a body, if it ends the loop or block around the body as well. -/
def Returns.escaping : Returns → Exit → Option Exit
  | unwind, .returned value => some (.returned value)
  | _, _ => none

namespace Execution

abbrev Runner : Type :=
  Slot → Operation → Exec Exit

variable (store : Store) (settings : Settings)

def required (op : Operation) (params : Parameters) (key : String) : Exec String :=
  match params.get? key with
  | some text => pure text
  | none => .fail (.missingParameter op.id op.opcode key)

def bindTarget (slot : Slot) : Option String → Option Value → Exec Unit
  | some name, some value => .bindName slot name value
  | _, _ => pure ()

/-- Runs operations in order. Those tagged `else` are left out: they run only for their `if`. -/
def block (run : Runner) (slot : Slot) : List Operation → Exec Exit
  | [] => pure (.normal none)
  | op :: rest =>
    if op.opcode = .otherwise then
      block run slot rest
    else do
      let exit ← run slot op
      if op.opcode = .giveBack then
        pure (.returned exit.value)
      else
        match settings.returns.escaping exit with
        | some exit => pure exit
        | none => block run slot rest

def body (run : Runner) (parent : OpId) (slot : Slot) (names : List (String × Value)) :
    Exec Exit :=
  .inChild slot fun child => do
    names.forM fun entry => .bindName child entry.1 entry.2
    block settings run child (store.children (some parent))

def assign (slot : Slot) (op : Operation) (params : Parameters) : Exec Exit := do
  let name ← required op params "var_name"
  let value ← .coerce slot (← required op params "value")
  .bindName slot name value
  pure (.normal none)

def print (slot : Slot) (op : Operation) (params : Parameters) : Exec Exit := do
  let value ← .coerce slot (← required op params "value")
  .log (.printed value.text)
  pure (.normal none)

def binary (operator : BinaryOp) (slot : Slot) (op : Operation) (params : Parameters) :
    Exec Exit := do
  let left ← .coerce slot (← required op params "left")
  let right ← .coerce slot (← required op params "right")
  let value ← .ofExcept (operator.eval left right)
  bindTarget slot (params.get? "result") (some value)
  pure (.normal (some value))

/-- The operation whose children an `if` runs, if any: itself or its first `else`. -/
def branch (op : Operation) (condition : Value) : Option OpId :=
  if condition.isTruthy then some op.id
  else (store.firstChild? op.id .otherwise).map Operation.id

def conditional (run : Runner) (slot : Slot) (op : Operation) (params : Parameters) :
    Exec Exit := do
  let condition ← .coerce slot (← required op params "condition")
  match branch store op condition with
  | some parent => body store settings run parent slot []
  | none => pure (.normal none)

def repeatWhile (condition : Exec Bool) (round : Exec Exit) : Nat → Exec Exit
  | 0 => .unfinished
  | fuel + 1 => do
    if ← condition then
      match settings.returns.escaping (← round) with
      | some exit => pure exit
      | none => repeatWhile condition round fuel
    else
      pure (.normal none)

def whileLoop (fuel : Nat) (run : Runner) (slot : Slot) (op : Operation) (params : Parameters) :
    Exec Exit := do
  let condition ← required op params "condition"
  repeatWhile settings (return (← .coerce slot condition).isTruthy)
    (body store settings run op.id slot []) fuel

def forEach (round : Value → Exec Exit) : List Value → Exec Exit
  | [] => pure (.normal none)
  | item :: rest => do
    match settings.returns.escaping (← round item) with
    | some exit => pure exit
    | none => forEach round rest

def forLoop (run : Runner) (slot : Slot) (op : Operation) (params : Parameters) : Exec Exit := do
  let iterator ← required op params "iterator"
  let collection ← .coerce slot (← required op params "collection")
  match collection.items? with
  | none => .fail (.notIterable collection.kind)
  | some items =>
    forEach settings (fun item => body store settings run op.id slot [(iterator, item)]) items

def giveBack (slot : Slot) (params : Parameters) : Exec Exit := do
  let value ← (params.get? "value").mapM fun raw => Exec.coerce slot raw
  .log (.returned value slot (← .calls))
  pure (.returned value)

def listEntries (params : Parameters) (key : String) : List String :=
  ((params.get? key).map entries).getD []

def define (slot : Slot) (op : Operation) (params : Parameters) : Exec Exit := do
  let name ← required op params "name"
  .bindName slot name (.function { name, params := listEntries params "params", body := op.id })
  pure (.normal none)

def resolveFunction (slot : Slot) (name : String) : Exec FunctionValue := do
  match ← .resolve slot name with
  | .function f => pure f
  | other => .fail (.notAFunction name other.kind)

def checkDepth : Exec Unit := do
  match settings.limit with
  | some limit => if limit ≤ (← .calls) then .fail (.callDepthExceeded limit) else pure ()
  | none => pure ()

def invoke (run : Runner) (slot : Slot) (f : FunctionValue) (args : List Value) :
    Exec (Option Value) :=
  .inCall do
    .log (.called f args (← .calls))
    return (← body store settings run f.body slot (f.params.zip args)).value

def call (run : Runner) (slot : Slot) (op : Operation) (params : Parameters) : Exec Exit := do
  let args ← (listEntries params "args").mapM fun raw => Exec.coerce slot raw
  let name ← required op params "name"
  let f ← resolveFunction slot name
  checkDepth settings
  let value ← invoke store settings run slot f args
  bindTarget slot (params.get? "result") value
  pure (.normal value)

def perform (fuel : Nat) (run : Runner) (slot : Slot) (op : Operation) : Exec Exit :=
  let params := store.parametersOf op.id
  match op.opcode with
  | .assign => assign slot op params
  | .print => print slot op params
  | .binary operator => binary operator slot op params
  | .conditional => conditional store settings run slot op params
  | .whileLoop => whileLoop store settings fuel run slot op params
  | .forLoop => forLoop store settings run slot op params
  | .giveBack => giveBack slot params
  | .function => define slot op params
  | .call => call store settings run slot op params
  | .otherwise | .breakLoop | .continueLoop | .unknown _ => pure (.normal none)

end Execution

open Execution

def execute (store : Store) (settings : Settings) : Nat → Slot → Operation → Exec Exit
  | 0, _, _ => .unfinished
  | fuel + 1, slot, op => do
    .log (.started op slot (← .calls))
    perform store settings fuel (execute store settings fuel) slot op

theorem run_execute_succ (store : Store) (settings : Settings) (fuel : Nat) (slot : Slot)
    (op : Operation) (s : RunState) : (execute store settings (fuel + 1) slot op).run s =
      ((perform store settings fuel (execute store settings fuel) slot op).run s).after
        [.started op slot s.calls] := by
  change ((Exec.log (.started op slot s.calls)).bind fun _ =>
    perform store settings fuel (execute store settings fuel) slot op).run s = _
  rw [Exec.run_bind, Exec.run_log]

def runBlock (store : Store) (settings : Settings) (fuel : Nat) (slot : Slot)
    (parent : Option OpId) : Exec Exit :=
  block settings (execute store settings fuel) slot (store.children parent)

def runProgram (store : Store) (settings : Settings) (fuel : Nat) : Exec Exit :=
  runBlock store settings fuel Scopes.root none

end OpTree
