import OpTree.CommandLine
import OpTree.Path

set_option autoImplicit false

namespace OpTree

structure Workspace where
  entries : List (Way × Entry)
  deriving DecidableEq

namespace Workspace

open CommandLine

def empty : Workspace where
  entries := []

def entry? (w : Workspace) (way : Way) : Option Entry :=
  if way.isOutward then some .directory
  else (w.entries.find? fun known => known.1 == way).map Prod.snd

def put (w : Workspace) (way : Way) (entry : Entry) : Workspace where
  entries := (way, entry) :: w.entries.filter fun known => known.1 != way

/-- Gives a file a new content, or removes it. A directory stays. -/
def putFile (w : Workspace) (way : Way) (content : Option Content) : Workspace :=
  if w.entry? way = some .directory then w
  else
    match content with
    | some content => w.put way (.file content)
    | none => { entries := w.entries.filter fun known => known.1 != way }

def follow (w : Workspace) (way : Way) : List Name → Option Way
  | [] => some way
  | name :: rest =>
    if w.entry? way = some .directory && !name.isTooLong then w.follow (way.step name) rest
    else none

def find? (w : Workspace) (path : Path) : Option Entry :=
  if Path.limit < path.length then none
  else (w.follow path.start path.names).bind w.entry?

/-- Whether a step can be taken by the name alone: not into a file, not to a name in a directory
that is too long for it, and not to a way that is too long. What is not there stops nothing. -/
def admitsStep (w : Workspace) (way : Way) (name : Name) : Bool :=
  way.step name == way || name == Name.outer ||
    ((way.step name).size ≤ Way.stepLimit &&
      match w.entry? way with
      | some .directory => !name.isTooLong
      | some (.file _) => false
      | none => true)

def followNames (w : Workspace) (way : Way) : List Name → Option Way
  | [] => if way ≠ [] ∧ way.size ≤ Way.limit then some way else none
  | name :: rest => if w.admitsStep way name then w.followNames (way.step name) rest else none

def targetAt (w : Workspace) (way : Way) : Target :=
  match w.entry? way with
  | some entry => .entry entry
  | none => if w.entry? (way.drop 1) = some .directory then .vacant else .unavailable

def admits (way : Way) (companion : Companion) : Bool :=
  (way.beside companion.ending).head?.all fun name => !name.isTooLong

def companion? (w : Workspace) (way : Way) (companion : Companion) : Option Entry :=
  if admits way companion then w.entry? (way.beside companion.ending) else none

def hasLender (w : Workspace) (locator : Except LocatorError Locator) : Bool :=
  match locator with
  | .ok { lender := some lender, .. } => lender != [] && (w.find? lender).isSome
  | _ => true

def placeAt (w : Workspace) (path : String) (way : Option Way) : Place where
  path
  isThere := path != "" && (w.find? (.ofString path)).isSome
  locator := Locator.parse path
  target := (way.map w.targetAt).getD .blocked
  hasLender := w.hasLender (Locator.parse path)
  admits companion := way.all fun way => admits way companion
  beside companion := way.bind fun way => w.companion? way companion

def way? (w : Workspace) (path : String) : Option Way :=
  match Locator.parse path with
  | .ok locator =>
    if locator.isKept then w.followNames locator.name.start locator.name.names else none
  | .error _ => none

def place (w : Workspace) (path : String) : Place :=
  w.placeAt path (w.way? path)

def apply (w : Workspace) (way : Way) (changes : Changes) : Workspace :=
  let changed := changes.companions.foldl
    (fun w change => w.putFile (way.beside change.1.ending) change.2) w
  match changes.content with
  | some content => changed.putFile way (some content)
  | none => changed

def write (w : Workspace) (path : Path) (content : Content) : Workspace :=
  match (w.follow path.start path.names.dropLast), path.names.getLast? with
  | some way, some name => w.put (way.step name) (.file content)
  | _, _ => w

def makeDirectories (w : Workspace) (way : Way) : List Name → Workspace
  | [] => w
  | name :: rest =>
    let next := way.step name
    if next.isOutward then w.makeDirectories next rest
    else (w.put next .directory).makeDirectories next rest

def makeDirectory (w : Workspace) (path : Path) : Workspace :=
  w.makeDirectories path.start path.names

def command (w : Workspace) (args : List String) (input : List (Option String)) (fuel : Nat) :
    Report × Workspace :=
  match Command.parse args with
  | .onFile action path =>
    let report := perform action (w.place path) input fuel
    (report, ((w.way? path).map fun way => w.apply way report.changes).getD w)
  | other => (other.report, w)

end Workspace

end OpTree
