import ReferencePages.Listing
import ReferencePages.Sync.Pages

/-!
# Commands

The two commands of the command line: one brings the pages of a configuration up to date, the
other writes the modules of one package as a listing.
-/

namespace ReferencePages

/-- The configuration of a text, its paths inside a base directory. -/
def Config.ofText (readers : Readers) (base text : String) : Except DocError Config :=
  match readers.config? text with
  | some c => (c.inside base).validate
  | none => .error (.config .unreadable)

/-- The configuration in a file; its paths are relative to the directory of the file. -/
def readConfig (readers : Readers) (path : String) (t : FileTree) : Except DocError Config :=
  if t.has path then
    match t.readText? path with
    | some text => Config.ofText readers (Path.parent path) text
    | none => .error .io
  else .error (.fileNotFound path)

/-- Why a command failed: what it was doing, and what went wrong. -/
structure CommandFailure where
  message : String
  cause : Option DocError := none
deriving Repr, DecidableEq, Inhabited

/-- A command. -/
abbrev Command := ExceptT CommandFailure (StateM FileTree)

namespace Command

variable {α : Type}

/-- A step of a command; `message` tells what it does. -/
def during (message : String) (step : TreeStep α) : Command α := do
  let (outcome, t) := step.runOn (← get)
  set t
  match outcome with
  | .ok x => return x
  | .error e => throw { message, cause := some e }

/-- Load the configuration of a command. -/
def loadConfig (readers : Readers) (path : String) : Command Config :=
  during s!"failed to load {path}" (TreeStep.reading (readConfig readers path))

/-- Bring the pages of the named packages up to date. -/
def sync (readers : Readers) (programs : Programs) (storage : Storage) (configPath : String)
    (names : List String) (dryRun : Bool) : Command SyncReport := do
  let c ← loadConfig readers configPath
  during "reference sync failed" (ReferencePages.sync readers programs storage c names dryRun)

/-- The modules of a package. -/
def modules (readers : Readers) (programs : Programs) (configPath name : String) :
    Command (List DocModule) := do
  let c ← loadConfig readers configPath
  match c.package? name with
  | none => throw { message := s!"unknown package `{name}`" }
  | some p => during s!"failed to extract `{name}`" (packageModules readers programs c.format p)

/-- Write the modules of a package as a listing. -/
def extract (readers : Readers) (programs : Programs) (storage : Storage)
    (configPath name output : String) : Command Unit := do
  let ms ← modules readers programs configPath name
  let (written, t) := (← get).write (storage 0) output (.text (Listing.write ms))
  set t
  if !written then throw { message := s!"failed to write to {output}" }

end Command

end ReferencePages
