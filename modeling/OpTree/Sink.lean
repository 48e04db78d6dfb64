set_option autoImplicit false

namespace OpTree

inductive Sink where
  | stdout
  | buffer (text : String)
  | discard
  deriving DecidableEq, Repr

namespace Sink

def emit (sink : Sink) (line : String) : Sink :=
  match sink with
  | buffer text => buffer (text ++ line ++ "\n")
  | other => other

def emitAll (sink : Sink) (lines : List String) : Sink :=
  lines.foldl emit sink

def captured : Sink → String
  | buffer text => text
  | _ => ""

def clear : Sink → Sink
  | buffer _ => buffer ""
  | other => other

end Sink

end OpTree
