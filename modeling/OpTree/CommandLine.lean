import OpTree.Editor
import OpTree.Interpreter
import OpTree.Opening

set_option autoImplicit false

namespace OpTree

structure RunOptions where
  maxDepth : Option Nat
  unwindReturns : Bool
  deriving DecidableEq, Repr

namespace RunOptions

def plain : RunOptions where
  maxDepth := none
  unwindReturns := false

/-- The options with one more; of two limits the later one counts. -/
def addOption (options : RunOptions) (arg : String) : Except CommandError RunOptions :=
  match dropStart? "--max-depth=".toList arg.toList with
  | some number =>
    match Numeral.readUnsigned number with
    | .ok depth => .ok { options with maxDepth := some depth }
    | .error _ => .error (.invalidOption arg)
  | none =>
    if arg = "--unwind-returns" then .ok { options with unwindReturns := true }
    else .error (.invalidOption arg)

def parse (args : List String) : Except CommandError RunOptions :=
  args.foldlM addOption plain

def interpreter (options : RunOptions) (store : Store) (sink : Option Sink) : Interpreter :=
  .fresh store .interpret (if options.unwindReturns then .unwind else .shallow) options.maxDepth
    sink

end RunOptions

namespace CommandLine

inductive Action where
  | new
  | edit
  | run (options : List String)
  | view
  deriving DecidableEq, Repr

inductive Command where
  | usage
  | version
  | unknown (name : String)
  | missingPath (usage : String)
  | onFile (action : Action) (path : String)
  deriving DecidableEq, Repr

def withPath (usage : String) (action : List String → Action) : List String → Command
  | [] => .missingPath usage
  | path :: rest =>
    if "-".toList.isPrefixOf path.toList then .missingPath usage else .onFile (action rest) path

def Command.parse : List String → Command
  | [] => .usage
  | name :: args =>
    match name with
    | "new" => withPath "Usage: arbor new <file>" (fun _ => .new) args
    | "edit" => withPath "Usage: arbor edit <file>" (fun _ => .edit) args
    | "run" =>
      withPath "Usage: arbor run <file> [--max-depth=<n>] [--unwind-returns]" .run args
    | "show" => withPath "Usage: arbor show <file>" (fun _ => .view) args
    | "help" | "--help" | "-h" => .usage
    | "version" | "--version" | "-V" => .version
    | other => .unknown other

def usageText : String :=
  String.join <| [
    "Arbor - programs stored as operation trees",
    "",
    "Usage: arbor <command> [options]",
    "",
    "Commands:",
    "  new <file>           Create an empty program file",
    "  edit <file>          Edit a program interactively",
    "  run <file>           Run a program",
    "  show <file>          Print a program as text",
    "  help                 Show this help message",
    "  version              Show version information",
    "",
    "Run options:",
    "  --max-depth=<n>      Fail once calls nest deeper than n",
    "  --unwind-returns     Let a nested return stop the enclosing function",
    "",
    "Environment:",
    "  RUST_LOG             Log filter, e.g. RUST_LOG=arbor_eval=debug",
    "",
    "Examples:",
    "  arbor new hello.db",
    "  arbor edit hello.db",
    "  arbor run hello.db --max-depth=1000"].map (· ++ "\n")

def versionText : String :=
  "Arbor 0.1.0\n"

structure Report where
  code : Nat
  stdout : String
  stderr : String
  changes : Changes
  deriving DecidableEq

namespace Report

def success (stdout : String) (changes : Changes) : Report where
  code := 0
  stdout
  stderr := ""
  changes

def failure (error : CommandError) (stdout : String) (changes : Changes) : Report where
  code := 1
  stdout
  stderr := "error: " ++ error.message ++ "\n"
  changes

end Report

def new (place : Place) : Report :=
  match place.createProgram with
  | (.error error, changes) => .failure (.file error) "" changes
  | (.ok _, changes) => .success ("created " ++ place.path ++ "\n") changes

def refusal : Saving → Editor.Effect → Option FileError
  | .refused, .reads => none
  | .refused, _ => some .readOnly
  | .blocked, .writes => some .cannotOpenCompanion
  | _, _ => none

def respond (saving : Saving) : Store → String → Editor.Reply :=
  Editor.respondUnder (refusal saving)

def edit (place : Place) (input : List (Option String)) : Report :=
  match place.openProgram with
  | (.error error, changes) => .failure (.file error) "" changes
  | (.ok opened, changes) =>
    let session := Editor.sessionBy (respond opened.saving) opened.store input
    let changes :=
      if session.hasWritten then changes.save opened.saving session.store else changes
    match session.failure with
    | none => .success session.output changes
    | some error => .failure error session.output changes

def run (place : Place) (options : List String) (fuel : Nat) : Report :=
  match RunOptions.parse options with
  | .error error => .failure error "" Changes.none
  | .ok options =>
    match place.openProgram with
    | (.error error, changes) => .failure (.file error) "" changes
    | (.ok opened, changes) =>
      let (ending, i) := (options.interpreter opened.store (some (.buffer ""))).run fuel
      match ending with
      | .failed error => .failure (.eval error) i.captured changes
      | .done _ | .unfinished => .success i.captured changes

def view (place : Place) : Report :=
  match place.openProgram with
  | (.error error, changes) => .failure (.file error) "" changes
  | (.ok opened, changes) => .success opened.store.render changes

def perform (action : Action) (place : Place) (input : List (Option String)) (fuel : Nat) :
    Report :=
  match action with
  | .new => new place
  | .edit => edit place input
  | .run options => run place options fuel
  | .view => view place

def Command.report : Command → Report
  | .usage | .onFile _ _ => .success usageText Changes.none
  | .version => .success versionText Changes.none
  | .unknown name =>
    { code := 1
      stdout := usageText
      stderr := "Unknown command: " ++ name ++ "\n\n"
      changes := Changes.none }
  | .missingPath text =>
    { code := 1
      stdout := ""
      stderr := "error: missing file path\n" ++ text ++ "\n"
      changes := Changes.none }

end CommandLine

end OpTree
