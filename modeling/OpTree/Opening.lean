import OpTree.CommandError
import OpTree.ProgramFile

set_option autoImplicit false

/-!
# Opening a program file

A writer of a program file keeps other files beside it while it writes: a journal, or a log with
an index. Opening a program file settles what an interrupted writer has left there, and makes an
empty program of a file without one. So it can change files even if it fails, and is a
computation that collects changes.
-/

namespace OpTree

inductive Entry where
  | directory
  | file (content : Content)
  deriving DecidableEq

inductive Companion where
  | journal
  | log
  | index
  | mark
  deriving DecidableEq, Repr

def Companion.ending : Companion → String
  | journal => "-journal"
  | log => "-wal"
  | index => "-shm"
  | mark => ".lock"

inductive Target where
  | blocked
  | unavailable
  | vacant
  | entry (entry : Entry)
  deriving DecidableEq

structure Place where
  path : String
  isThere : Bool
  locator : Except LocatorError Locator
  target : Target
  hasLender : Bool
  admits : Companion → Bool
  beside : Companion → Option Entry

inductive Saving where
  | refused
  | blocked
  | byJournal
  | byLog
  deriving DecidableEq, Repr

structure Opened where
  store : Store
  saving : Saving
  deriving DecidableEq, Repr

structure Changes where
  content : Option Content
  companions : List (Companion × Option Content)
  deriving DecidableEq

namespace Changes

def none : Changes where
  content := .none
  companions := []

def change (changes : Changes) (companion : Companion) (content : Option Content) : Changes :=
  { changes with companions := changes.companions ++ [(companion, content)] }

def save (changes : Changes) (saving : Saving) (store : Store) : Changes :=
  let written := { changes with content := some (.program store) }
  if saving = .byJournal then written.change .journal .none else written

end Changes

abbrev Opening := ExceptT FileError (StateM Changes)

namespace Opening

def run {α : Type} (x : Opening α) : Except FileError α × Changes :=
  StateT.run (ExceptT.run x) Changes.none

def change (companion : Companion) (content : Option Content) : Opening Unit :=
  modify fun changes => changes.change companion content

def remove (companion : Companion) : Opening Unit :=
  change companion none

def write (content : Content) : Opening Unit :=
  modify fun changes => { changes with content := some content }

end Opening

namespace Place

/-- Marks a file as in use, if its users are kept apart by marks. The mark goes when the file is
closed. -/
def takeMark (place : Place) (locator : Locator) : Opening Unit := do
  if locator.storage = .marked ∧ !locator.isLockless then
    if !place.admits .mark then
      throw .unreadable
    if (place.beside .mark).isSome then
      throw .inUse

def isInUse (place : Place) (locator : Locator) : Bool :=
  locator.storage == .marked && (!locator.isLockless || (place.beside .mark).isSome)

/-- Settles the journal of an interrupted writer. Its first byte is zero once it is of no use. -/
def settleJournal (place : Place) (locator : Locator) (blank : Bool) : Opening Unit := do
  unless place.isInUse locator do
    match place.beside .journal with
    | none => pure ()
    | some .directory => unless blank do throw .unreadable
    | some (.file content) =>
      match content.toBytes.toList with
      | [] => pure ()
      | first :: _ =>
        if blank then
          unless locator.isReadOnly && !locator.isUnlocked do .remove .journal
        else if first != 0 then
          if locator.isReadOnly then throw .readOnly
          else .remove .journal

/-- Whether a log may have entries: its head of 32 bytes is whole, and the bytes in it that tell
one run of entries from the next are not all zero. -/
def mayHaveEntries (log : ByteArray) : Bool :=
  32 ≤ log.size && ((log.toList.drop 16).take 8).any fun b => b != 0

def plainIndex : Content :=
  .other (ByteArray.mk (Array.replicate 32768 0))

/-- Uses the log of an interrupted writer, and tells how changes are saved. Users of a log lock its
index, unless the file is theirs alone to write. Only a log without entries can be read under an
index that cannot be written. -/
def useLog (place : Place) (locator : Locator) (log : ByteArray) : Opening Saving := do
  if locator.isUnlocked || locator.storage == .marked then
    throw .cannotOpenCompanion
  if locator.storage = .shared ∨ locator.isReadOnly then
    if locator.isIndexReadOnly && (place.beside .index).isNone then
      throw .cannotOpenCompanion
    if locator.isIndexReadOnly || place.beside .index = some .directory then
      if mayHaveEntries log then throw .cannotLock else return .refused
    .change .index (if locator.isReadOnly then some plainIndex else none)
  if locator.isReadOnly then
    return .refused
  .remove .log
  return .byLog

def unlogged (place : Place) (locator : Locator) : Saving :=
  if locator.isReadOnly then .refused
  else if !place.admits .journal || place.beside .journal = some .directory then .blocked
  else .byJournal

def settleLog (place : Place) (locator : Locator) (blank : Bool) : Opening Saving := do
  match place.beside .log with
  | none => return place.unlogged locator
  | some .directory => throw (if blank then .unreadable else .cannotOpenCompanion)
  | some (.file content) =>
    if content.toBytes.isEmpty then
      return place.unlogged locator
    if blank then
      .remove .log
      return place.unlogged locator
    place.useLog locator content.toBytes

/-- The program that a file holds. A file without one becomes an empty program. -/
def read (saving : Saving) (content : Content) : Opening Opened := do
  match content with
  | .program store => return { store, saving }
  | other =>
    if !other.isBlank then
      throw .notAProgram
    match saving with
    | .refused => throw .readOnly
    | .blocked => throw .cannotOpenCompanion
    | .byJournal | .byLog =>
      .write (.program .empty)
      .remove .journal
      return { store := .empty, saving }

def openFile (place : Place) (locator : Locator) (content : Content) : Opening Opened := do
  if locator.isFrozen then
    read .refused content
  else
    place.takeMark locator
    place.settleJournal locator content.isBlank
    let saving ← place.settleLog locator content.isBlank
    read saving content

def openTarget (place : Place) (locator : Locator) : Opening Opened := do
  if place.target = .blocked then
    throw (.cannotOpen place.path)
  if !place.hasLender then
    throw .unreadable
  match place.target with
  | .entry (.file content) => place.openFile locator content
  | .entry .directory =>
    throw (if locator.access = .read then .unreadable else .cannotOpen place.path)
  | .vacant =>
    if locator.access = .create then
      .write .empty
      place.openFile locator .empty
    else
      throw (.cannotOpen place.path)
  | .blocked | .unavailable => throw (.cannotOpen place.path)

def openLocator (place : Place) (locator : Locator) : Opening Opened := do
  if locator.isKept then
    place.openTarget locator
  else if locator.isTooLong then
    throw (.cannotOpen place.path)
  else if locator.isReadOnly then
    throw .readOnly
  else
    return { store := .empty, saving := .byJournal }

def load (place : Place) : Opening Opened :=
  match place.locator with
  | .ok locator => place.openLocator locator
  | .error error => throw (.badLocator error)

def openProgram (place : Place) : Except FileError Opened × Changes :=
  if place.isThere then place.load.run else (.error (.notFound place.path), Changes.none)

def createProgram (place : Place) : Except FileError Opened × Changes :=
  if place.isThere then (.error (.alreadyExists place.path), Changes.none) else place.load.run

end Place

end OpTree
