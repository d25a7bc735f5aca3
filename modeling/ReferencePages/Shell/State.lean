import ReferencePages.Keyed
import ReferencePages.Sync.FileTree

/-!
# What a running script sees and changes
-/

namespace ReferencePages.Shell

/-- Where what a command writes goes. -/
inductive Sink where
  /-- The output or the errors of the whole script. -/
  | output
  | errors
  /-- The input of the next command. -/
  | pipe
  | file (p : Place)
  /-- Nowhere. -/
  | discard
deriving Repr, DecidableEq

/-- A running script. -/
structure Session where
  tree : FileTree
  directory : Place
  bindings : Keyed String String := {}
  /-- How the last command ended. -/
  status : Nat := 0
  /-- The script has ended. -/
  exited : Bool := false
  /-- What commands read. -/
  input : List UInt8 := []
  /-- Where commands write. -/
  out : Sink := .output
  /-- Where commands write their errors. -/
  err : Sink := .errors
  /-- What was written to each sink that is no file. -/
  output : List UInt8 := []
  errors : List UInt8 := []
  piped : List UInt8 := []

namespace Session

/-- Write bytes to a sink. -/
def send (sh : Session) (sink : Sink) (bytes : List UInt8) : Session :=
  match sink with
  | .output => { sh with output := sh.output ++ bytes }
  | .errors => { sh with errors := sh.errors ++ bytes }
  | .pipe => { sh with piped := sh.piped ++ bytes }
  | .file p =>
    let before := ((sh.tree.file? p).map Content.bytes).getD []
    { sh with tree := sh.tree.put p (Content.ofBytes (before ++ bytes)) }
  | .discard => sh

/-- Write a text as output. -/
def print (sh : Session) (s : String) : Session := sh.send sh.out s.toUTF8.toList

/-- End the command with a status. -/
def finish (sh : Session) (status : Nat) : Session := { sh with status }

/-- Write a message as an error, and end the command with a status. -/
def complain (sh : Session) (status : Nat) (message : String) : Session :=
  (sh.send sh.err (message ++ "\n").toUTF8.toList).finish status

/-- The place that a path leads to. -/
def locate? (sh : Session) (path : String) : Option Place :=
  sh.tree.locateFrom? sh.directory path

end Session

end ReferencePages.Shell
