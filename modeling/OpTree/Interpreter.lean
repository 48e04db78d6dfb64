import OpTree.Execution
import OpTree.Sink

set_option autoImplicit false

namespace OpTree

/-- What an interpreter is for: running a program, or trying it out with bounds. -/
inductive Mode where
  | interpret
  | testRun
  deriving DecidableEq, Repr

def Mode.limit : Mode → Option Nat
  | interpret => none
  | testRun => some 500

def Mode.sink : Mode → Sink
  | interpret => .stdout
  | testRun => .buffer ""

structure Interpreter where
  store : Store
  mode : Mode
  settings : Settings
  sink : Sink
  state : RunState
  deriving DecidableEq, Repr

namespace Interpreter

/-- An interpreter that has run nothing; a limit or sink that is given replaces the mode's. -/
def fresh (store : Store) (mode : Mode) (returns : Returns) (limit : Option Nat)
    (sink : Option Sink) : Interpreter where
  store
  mode
  settings := { returns, limit := limit.or mode.limit }
  sink := sink.getD mode.sink
  state := RunState.initial

def perform (i : Interpreter) (x : Exec Exit) : Ending (Option Value) × Interpreter :=
  let o := x.run i.state
  let ending :=
    match o.ending with
    | .done exit => .done exit.value
    | .failed error => .failed error
    | .unfinished => .unfinished
  (ending, { i with state := o.state, sink := i.sink.emitAll o.lines })

def run (i : Interpreter) (fuel : Nat) : Ending (Option Value) × Interpreter :=
  i.perform (runProgram i.store i.settings fuel)

def runBlock (i : Interpreter) (fuel : Nat) (slot : Slot) (parent : Option OpId) :
    Ending (Option Value) × Interpreter :=
  i.perform (OpTree.runBlock i.store i.settings fuel slot parent)

def execute (i : Interpreter) (fuel : Nat) (slot : Slot) (op : Operation) :
    Ending (Option Value) × Interpreter :=
  i.perform (OpTree.execute i.store i.settings fuel slot op)

def lookup (i : Interpreter) (slot : Slot) (name : String) : Option Value :=
  i.state.scopes.lookup slot name

def global (i : Interpreter) (name : String) : Option Value :=
  i.lookup Scopes.root name

def depth (i : Interpreter) : Nat :=
  i.state.scopes.depth

def captured (i : Interpreter) : String :=
  i.sink.captured

def clear (i : Interpreter) : Interpreter :=
  { i with sink := i.sink.clear }

def openScope (i : Interpreter) (parent : Slot) : Slot × Interpreter :=
  (i.depth, { i with state := { i.state with scopes := i.state.scopes.openChild parent } })

def releaseScope (i : Interpreter) (slot : Slot) : Interpreter :=
  { i with state := { i.state with scopes := i.state.scopes.release slot } }

end Interpreter

end OpTree
