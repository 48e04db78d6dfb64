import OpTree.EvalError
import OpTree.Locator
import OpTree.Store.Writes

set_option autoImplicit false

namespace OpTree

inductive FileError where
  | notFound (path : String)
  | alreadyExists (path : String)
  | badLocator (error : LocatorError)
  | cannotOpen (path : String)
  /-- A file that a writer needs beside the program file cannot be had. -/
  | cannotOpenCompanion
  | cannotLock
  | inUse
  | unreadable
  | readOnly
  | notAProgram
  deriving DecidableEq, Repr

def FileError.message : FileError → String
  | notFound path => "program file not found: " ++ path
  | alreadyExists path => "program file already exists: " ++ path
  | badLocator error => "storage error: " ++ error.message
  | cannotOpen path => "storage error: unable to open database file: " ++ path
  | cannotOpenCompanion => "storage error: unable to open database file"
  | cannotLock => "storage error: locking protocol"
  | inUse => "storage error: database is locked"
  | unreadable => "storage error: disk I/O error"
  | readOnly => "storage error: attempt to write a readonly database"
  | notAProgram => "storage error: file is not a database"

inductive CommandError where
  | store (error : StoreError)
  | file (error : FileError)
  | eval (error : EvalError)
  | unreadableInput
  | invalidOption (option : String)
  | unknownCommand (command : String)
  | invalidId (text : String)
  | missingArgument (command argument : String)
  deriving DecidableEq, Repr

def CommandError.message : CommandError → String
  | store error => error.message
  | file error => error.message
  | eval error => "runtime error: " ++ error.message
  | unreadableInput => "i/o error: stream did not contain valid UTF-8"
  | invalidOption option => "invalid option '" ++ option ++ "'"
  | unknownCommand command => "unknown command '" ++ command ++ "' (try 'help')"
  | invalidId text => "'" ++ text ++ "' is not an operation id"
  | missingArgument command argument => command ++ ": missing " ++ argument

end OpTree
