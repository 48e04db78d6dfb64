import OpTree.Workspace

set_option autoImplicit false

namespace OpTree.Main

open CommandLine

/-- What is at a path, if anything. A file that cannot be read counts as one that is no program. -/
def entry? (path : String) : IO (Option Entry) := do
  try
    if ← (← IO.FS.realPath path).isDir then
      return some .directory
  catch _ => return none
  try return some (.file (.ofBytes (← IO.FS.readBinFile path)))
  catch _ => return some (.file (.other "??".toUTF8))

def text? (path : Path) : Option String :=
  String.fromUTF8? (ByteArray.mk path.toArray)

def file? (path : String) : Option String :=
  match Locator.parse path with
  | .ok locator => if locator.isKept then text? locator.name else none
  | .error _ => none

def lender? (path : String) : Option Path :=
  match Locator.parse path with
  | .ok locator => locator.lender
  | .error _ => none

def companion? (file : Option String) (companion : Companion) : IO (Option Entry) :=
  match file with
  | some name => entry? (name ++ companion.ending)
  | none => return none

def look (path : String) : IO Place := do
  let file := file? path
  let target ← match file with
    | some name => pure (((← entry? name).map Target.entry).getD .vacant)
    | none => pure .unavailable
  let hasLender ← match lender? path with
    | some lender =>
      match text? lender with
      | some name => pure (← entry? name).isSome
      | none => pure false
    | none => pure true
  let journal ← companion? file .journal
  let log ← companion? file .log
  let index ← companion? file .index
  let mark ← companion? file .mark
  return {
    path
    isThere := (← entry? path).isSome
    locator := Locator.parse path
    target
    hasLender
    admits _ := true
    beside := fun
      | .journal => journal
      | .log => log
      | .index => index
      | .mark => mark }

def putFile (path : String) (content : Option Content) : IO Bool := do
  try
    match content with
    | some content => IO.FS.writeBinFile path content.toBytes
    | none => IO.FS.removeFile path
    return true
  catch _ => return false

def apply (file : Option String) (changes : Changes) : IO Bool := do
  match file with
  | none => return true
  | some name =>
    for change in changes.companions do
      let _ ← putFile (name ++ change.1.ending) change.2
    match changes.content with
    | some content => putFile name (some content)
    | none => return true

def write (stream : IO.FS.Stream) (text : String) : IO Unit := do
  stream.putStr text
  stream.flush

def finish (report : Report) : IO UInt32 := do
  write (← IO.getStdout) report.stdout
  write (← IO.getStderr) report.stderr
  return report.code.toUInt32

def fail (error : CommandError) : IO UInt32 :=
  finish (.failure error "" Changes.none)

partial def readLine (input : IO.FS.Stream) (line : ByteArray) : IO ByteArray := do
  let next ← input.read 1
  if next.isEmpty || next.toList = [10] then
    return line ++ next
  readLine input (line ++ next)

partial def edit (place : Place) (opened : Opened) : IO UInt32 := do
  let output ← IO.getStdout
  write output Editor.prompt
  match Input.ofBytes (← readLine (← IO.getStdin) .empty).toList with
  | [] =>
    write output "\n"
    return 0
  | none :: _ => fail .unreadableInput
  | some line :: _ =>
    let reply := respond opened.saving opened.store line
    write output reply.output
    if reply.effect = .writes then
      unless ← apply (file? place.path) (Changes.none.save opened.saving reply.store) do
        return ← fail (.file (.cannotOpen place.path))
    match reply.flow with
    | .quit => return 0
    | .proceed => edit place { opened with store := reply.store }

/-- Runs a program with more and more fuel until it ends, and prints each line once. -/
partial def run (i : Interpreter) (fuel printed : Nat) : IO UInt32 := do
  let outcome := (runProgram i.store i.settings fuel).run i.state
  for line in outcome.lines.drop printed do
    write (← IO.getStdout) (line ++ "\n")
  match outcome.ending with
  | .done _ => return 0
  | .failed error => fail (.eval error)
  | .unfinished => run i (2 * fuel) outcome.lines.length

def onFile (action : Action) (place : Place) : IO UInt32 := do
  let report := perform action place [] 0
  unless ← apply (file? place.path) report.changes do
    return ← fail (.file (.cannotOpen place.path))
  match action, place.openProgram with
  | .edit, (.ok opened, _) => edit place opened
  | .run options, (.ok opened, _) =>
    match RunOptions.parse options with
    | .ok options => run (options.interpreter opened.store none) 4096 0
    | .error _ => finish report
  | _, _ => finish report

end OpTree.Main

def main (args : List String) : IO UInt32 := do
  match OpTree.CommandLine.Command.parse args with
  | .onFile action path => OpTree.Main.onFile action (← OpTree.Main.look path)
  | command => OpTree.Main.finish command.report
