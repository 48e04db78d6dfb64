import OpTree.Path

set_option autoImplicit false

/-!
# Locators

A locator is the text that names a program file. After `file:` it is a name with options, in
which a percent sign with two hexadecimal digits stands for a byte; any other text is a name as
it stands. The options say what may be done with the file and how its users are kept apart.
-/

namespace OpTree

def dropStart? (start text : List Char) : Option (List Char) :=
  if start.isPrefixOf text then some (text.drop start.length) else none

def cutAt (separator : Char) (text : List Char) : List Char × List Char :=
  (text.takeWhile fun c => c != separator, (text.dropWhile fun c => c != separator).drop 1)

inductive Access where
  | read
  | write
  | create
  | memory
  deriving DecidableEq, Repr

namespace Access

def ofName? : String → Option Access
  | "ro" => some read
  | "rw" => some write
  | "rwc" => some create
  | "memory" => some memory
  | _ => none

def rank : Access → Nat
  | read => 1
  | write => 2
  | create => 3
  | memory => 4

def admits (given asked : Access) : Bool :=
  asked == memory || asked.rank ≤ given.rank

end Access

inductive Storage where
  | shared
  | exclusive
  /-- A directory beside a file marks it as in use. -/
  | marked
  | unlocked
  | memory
  deriving DecidableEq, Repr

def Storage.ofName? : String → Option Storage
  | "unix" => some shared
  | "unix-excl" => some exclusive
  | "unix-dotfile" => some marked
  | "unix-none" => some unlocked
  | "memdb" => some memory
  | _ => none

inductive LocatorError where
  | foreignHost (host : String)
  | noSuchMode (kind mode : String)
  | accessDenied (mode : String)
  | noSuchStorage (name : String)
  deriving DecidableEq, Repr

def LocatorError.message : LocatorError → String
  | foreignHost host => "invalid uri authority: " ++ host
  | noSuchMode kind mode => "no such " ++ kind ++ " mode: " ++ mode
  | accessDenied mode => "access mode not allowed: " ++ mode
  | noSuchStorage name => "no such vfs: " ++ name

structure Locator where
  name : Path
  access : Access
  /-- The file is taken as one that nobody changes. -/
  isFrozen : Bool
  isLockless : Bool
  isIndexReadOnly : Bool
  storage : Storage
  /-- The path of the file that lends its permissions to a new one. -/
  lender : Option Path
  deriving DecidableEq, Repr

namespace Locator

def ofName (name : String) : Locator where
  name := Path.ofString name
  access := .create
  isFrozen := false
  isLockless := false
  isIndexReadOnly := false
  storage := .shared
  lender := none

def isNamed (locator : Locator) : Bool :=
  !([Path.ofString "", Path.ofString ":memory:"].contains locator.name ||
    locator.access == .memory)

def isKept (locator : Locator) : Bool :=
  locator.isNamed && locator.storage != .memory

def isReadOnly (locator : Locator) : Bool :=
  locator.access == .read || (locator.isFrozen && locator.isNamed)

def isUnlocked (locator : Locator) : Bool :=
  locator.isLockless || locator.storage == .unlocked

def memoryNameLimit : Nat := 1016

def isTooLong (locator : Locator) : Bool :=
  locator.isNamed && locator.storage == .memory && memoryNameLimit < locator.name.length

def hexDigit? (c : Char) : Option UInt8 :=
  if '0' ≤ c ∧ c ≤ '9' then some (c.toUInt8 - '0'.toUInt8)
  else if 'a' ≤ c ∧ c ≤ 'f' then some (c.toUInt8 - 'a'.toUInt8 + 10)
  else if 'A' ≤ c ∧ c ≤ 'F' then some (c.toUInt8 - 'A'.toUInt8 + 10)
  else none

def partBytes : List Char → List UInt8
  | '%' :: high :: low :: rest =>
    match hexDigit? high, hexDigit? low with
    | some h, some l => if h * 16 + l = 0 then [] else (h * 16 + l) :: partBytes rest
    | _, _ => '%'.toUInt8 :: partBytes (high :: low :: rest)
  | c :: rest => String.utf8EncodeChar c ++ partBytes rest
  | [] => []

abbrev Setting := String × List UInt8

def settings (query : List Char) : List Setting :=
  let setting (option : List Char) :=
    (Utf8.text (partBytes (cutAt '=' option).1), partBytes (cutAt '=' option).2)
  ((query.splitOn '&').map setting).filter fun setting => setting.1 != ""

def dropHost (text : List Char) : Except LocatorError (List Char) :=
  match dropStart? "//".toList text with
  | none => .ok text
  | some rest =>
    let host := String.ofList (rest.takeWhile fun c => c != '/')
    if ["", "localhost"].contains host then .ok (rest.dropWhile fun c => c != '/')
    else .error (.foreignHost host)

def narrow (access : Access) (setting : Setting) : Except LocatorError Access :=
  let value := Utf8.text setting.2
  match setting.1 with
  | "mode" =>
    match Access.ofName? value with
    | none => .error (.noSuchMode "access" value)
    | some asked => if access.admits asked then .ok asked else .error (.accessDenied value)
  | "cache" =>
    if ["shared", "private"].contains value then .ok access
    else .error (.noSuchMode "cache" value)
  | _ => .ok access

def digitsValue (base : Nat) (digits : List Char) : Nat :=
  digits.foldl (fun n digit => n * base + ((hexDigit? digit).getD 0).toNat) 0

def leadingNumber (text : List Char) : Nat :=
  let hexadecimal := (text.drop 2).takeWhile fun c => (hexDigit? c).isSome
  if ["0x".toList, "0X".toList].contains (text.take 2) ∧ hexadecimal ≠ [] then
    digitsValue 16 hexadecimal
  else
    digitsValue 10 (text.takeWhile Char.isDigit)

/-- Whether the value of an option says yes: by a word, or by a number below 2 ^ 31 whose lowest
byte is not zero. -/
def isYes (value : String) : Bool :=
  if value.toList.head?.any Char.isDigit then
    let number := leadingNumber value.toList
    number < 0x80000000 && number % 256 != 0
  else
    ["on", "yes", "true"].contains value.toLower

def storageOf (names : List String) : Except LocatorError Storage :=
  match names.getLast? with
  | none => .ok .shared
  | some name =>
    match Storage.ofName? name with
    | some storage => .ok storage
    | none => .error (.noSuchStorage name)

/-- The locator of a name with options. The storage is looked at after the access. Where an
option that only one value can have is repeated, the first one counts. -/
def ofSettings (name : Path) (settings : List Setting) : Except LocatorError Locator := do
  let values (key : String) := (settings.filter fun setting => setting.1 == key).map Prod.snd
  let isSet (key : String) := (values key).head?.any fun value => isYes (Utf8.text value)
  let access ← settings.foldlM narrow .create
  let storage ← storageOf ((values "vfs").map Utf8.text)
  .ok {
    name
    access
    isFrozen := isSet "immutable"
    isLockless := isSet "nolock"
    isIndexReadOnly := isSet "readonly_shm"
    storage
    lender := (values "modeof").head? }

def parse (text : String) : Except LocatorError Locator :=
  match dropStart? "file:".toList text.toList with
  | none => .ok (ofName text)
  | some rest => do
    let rest ← dropHost rest
    let (name, query) := cutAt '?' (cutAt '#' rest).1
    ofSettings (partBytes name) (settings query)

end Locator

end OpTree
