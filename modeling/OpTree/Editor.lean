import OpTree.Blank
import OpTree.CommandError
import OpTree.Input
import OpTree.Rendering

set_option autoImplicit false

namespace OpTree.Editor

inductive Flow where
  | proceed
  | quit
  deriving DecidableEq, Repr

inductive Effect where
  | reads
  | rewrites
  | writes
  deriving DecidableEq, Repr

structure Reply where
  flow : Flow
  effect : Effect
  store : Store
  output : String
  deriving DecidableEq, Repr

def prompt : String :=
  "arbor> "

def helpText : String :=
  String.join <| [
    "commands:",
    "  show                      render the program",
    "  add <parent|root> <op>    append an operation, print its id",
    "  set <id> <key> <value>    set a parameter (value is the rest of the line)",
    "  delete <id>               delete an operation and its descendants",
    "  reseq <parent|root>       renumber siblings 1..n",
    "  help                      show this list",
    "  quit, exit                end the session"].map (· ++ "\n")

def readId? (text : List Char) : Except NumeralFault OpId :=
  (Numeral.readSigned (trim text)).map OpId.mk

def parseId (text : List Char) : Except CommandError OpId :=
  match readId? text with
  | .ok id => .ok id
  | .error _ => .error (.invalidId (String.ofList text))

def parseParent (text : List Char) : Except CommandError (Option OpId) :=
  if text = "root".toList then .ok none else (parseId text).map some

def argument (command name : String) (rest : List Char) :
    Except CommandError (List Char × List Char) :=
  match nextWord rest with
  | some parts => .ok parts
  | none => .error (.missingArgument command name)

def change {α : Type} (result : Except StoreError α) : Except CommandError α :=
  result.mapError .store

def count (n : Nat) : String :=
  String.ofList (Numeral.writeNat n)

def answer (s : Store) (output : String) : Reply where
  flow := .proceed
  effect := .reads
  store := s
  output

def written (store : Store) (output : String) : Reply where
  flow := .proceed
  effect := .writes
  store
  output

def showProgram (s : Store) : Reply :=
  answer s (if s.render.isEmpty then "(empty program)\n" else s.render)

def add (s : Store) (rest : List Char) : Except CommandError Reply := do
  let (parent, rest) ← argument "add" "parent" rest
  let (tag, _) ← argument "add" "opcode" rest
  let parent ← parseParent parent
  let (id, store) ← change (s.append (Opcode.ofTag (String.ofList tag)) parent)
  .ok (written store (id.text ++ "\n"))

def set (s : Store) (rest : List Char) : Except CommandError Reply := do
  let (id, rest) ← argument "set" "id" rest
  let (key, value) ← argument "set" "key" rest
  if value.isEmpty then
    .error (.missingArgument "set" "value")
  else
    let id ← parseId id
    let key := String.ofList key
    let value := String.ofList value
    let store ← change (s.setParameter id key value)
    if (s.parametersOf id).get? key = some value then
      .ok { written store "" with effect := .rewrites }
    else
      .ok (written store "")

def delete (s : Store) (rest : List Char) : Except CommandError Reply := do
  let (id, _) ← argument "delete" "id" rest
  let id ← parseId id
  let (removed, store) ← change (s.delete id)
  .ok (written store ("deleted " ++ count removed ++ " operation(s)\n"))

def reseq (s : Store) (rest : List Char) : Except CommandError Reply := do
  let (parent, _) ← argument "reseq" "parent" rest
  let parent ← parseParent parent
  let (total, store) ← change (s.resequence parent)
  let output := "resequenced " ++ count total ++ " operation(s)\n"
  .ok (if total = 0 then answer store output else written store output)

def runCommand (s : Store) (command : String) (rest : List Char) : Except CommandError Reply :=
  match command with
  | "show" => .ok (showProgram s)
  | "add" => add s rest
  | "set" => set s rest
  | "delete" => delete s rest
  | "reseq" => reseq s rest
  | "help" => .ok (answer s helpText)
  | "quit" | "exit" => .ok { answer s "" with flow := .quit }
  | other => .error (.unknownCommand other)

def execute (s : Store) (line : String) : Except CommandError Reply :=
  match nextWord line.toList with
  | none => .ok (answer s "")
  | some (command, rest) => runCommand s (String.ofList command) rest

/-- Runs one line on a store whose file may refuse what the command does. -/
def executeUnder (refusal : Effect → Option FileError) (s : Store) (line : String) :
    Except CommandError Reply := do
  let reply ← execute s line
  match refusal reply.effect with
  | none => .ok reply
  | some error => .error (.file error)

def reply (s : Store) : Except CommandError Reply → Reply
  | .ok reply => reply
  | .error error => answer s ("error: " ++ error.message ++ "\n")

def respond (s : Store) (line : String) : Reply :=
  reply s (execute s line)

def respondUnder (refusal : Effect → Option FileError) (s : Store) (line : String) : Reply :=
  reply s (executeUnder refusal s line)

/-- What a session leaves: the store, whether a command has written it, the text for the user and
what ended the session early. -/
structure Session where
  store : Store
  hasWritten : Bool
  output : String
  failure : Option CommandError
  deriving DecidableEq, Repr

namespace Session

def ended (store : Store) (output : String) (failure : Option CommandError) : Session where
  store
  hasWritten := false
  output
  failure

def after (reply : Reply) (session : Session) : Session :=
  { session with
    hasWritten := reply.effect == .writes || session.hasWritten
    output := prompt ++ reply.output ++ session.output }

end Session

/-- Answers lines up to the first one that quits or cannot be read, or up to the end. -/
def sessionBy (answer : Store → String → Reply) (s : Store) : List (Option String) → Session
  | [] => .ended s (prompt ++ "\n") none
  | none :: _ => .ended s prompt (some .unreadableInput)
  | some line :: rest =>
    let reply := answer s line
    match reply.flow with
    | .quit => .after reply (.ended reply.store "" none)
    | .proceed => .after reply (sessionBy answer reply.store rest)

def session (s : Store) (input : List (Option String)) : Session :=
  sessionBy respond s input

end OpTree.Editor
