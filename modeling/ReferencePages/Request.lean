import ReferencePages.Preview
import ReferencePages.Sync.Command

/-!
# Requests

What the words of a command line ask for, and the texts that the commands answer with.
-/

namespace ReferencePages

/-- What a command line asks for. -/
inductive Request where
  /-- Bring the pages of the named packages up to date, or only try it. -/
  | sync (configPath : String) (names : List String) (dryRun : Bool)
  /-- Write the modules of a package to a file or as output, or show a preview of them. -/
  | extract (configPath name : String) (output : Option String) (preview color : Bool)
deriving Repr, DecidableEq

namespace Request

/-- The configuration that is read unless another is named. -/
def defaultConfigPath : String := "etch.toml"

/-- Whether a word is an option of a name, or of the first letter of that name. -/
def isOption (name word : String) : Bool :=
  word == "--" ++ name || word == "-" ++ String.ofList (name.toList.take 1)

/-- The request for pages of the words behind its name. -/
def readSync (configPath : String) (names : List String) (dryRun : Bool) :
    List String → Option Request
  | [] => some (.sync configPath names dryRun)
  | "--dry-run" :: rest => readSync configPath names true rest
  | option :: value :: rest =>
    if isOption "config" option then readSync value names dryRun rest
    else if isOption "package" option then readSync configPath (names ++ [value]) dryRun rest
    else none
  | [_] => none

/-- The request for modules of the words behind its name. -/
def readExtract (configPath : String) (name output : Option String) (preview color : Bool) :
    List String → Option Request
  | [] => name.map fun name => .extract configPath name output preview color
  | "--preview" :: rest => readExtract configPath name output true color rest
  | "--no-color" :: rest => readExtract configPath name output preview false rest
  | option :: value :: rest =>
    if isOption "config" option then readExtract value name output preview color rest
    else if isOption "package" option then
      readExtract configPath (some value) output preview color rest
    else if isOption "output" option then
      readExtract configPath name (some value) preview color rest
    else none
  | [_] => none

/-- The request of a command line. -/
def ofArguments? : List String → Option Request
  | "sync" :: rest => readSync defaultConfigPath [] false rest
  | "extract" :: rest => readExtract defaultConfigPath none none false true rest
  | _ => none

/-- The path of the configuration of a request. -/
def configPath : Request → String
  | .sync path _ _ => path
  | .extract path _ _ _ _ => path

/-- How requests are written. -/
def usage : String :=
  "usage: sync [--config FILE] [--package NAME]... [--dry-run]\n" ++
  "       extract [--config FILE] --package NAME [--output FILE] [--preview] [--no-color]"

end Request

/-- A report in words. -/
def SyncReport.summary (r : SyncReport) : String :=
  let verb := if r.dryRun then "Would update" else "Updated"
  let packages := ", ".intercalate r.packages
  s!"{verb} {r.changed} of {r.pages} page(s) for {packages}"

/-- A failure of a command in words. -/
def CommandFailure.text (f : CommandFailure) : String :=
  match f.cause.map DocError.message? with
  | some (some reason) => f.message ++ ": " ++ reason
  | _ => f.message

/-- What a command answers with. -/
structure Answer where
  output : String := ""
  errors : String := ""
  status : Nat := 0
deriving Repr, DecidableEq

/-- Do what a request asks for. -/
def Request.perform (readers : Readers) (programs : Programs) (storage : Storage) :
    Request → Command Answer
  | .sync configPath names dryRun => do
    let report ← Command.sync readers programs storage configPath names dryRun
    return { errors := report.summary ++ "\n" }
  | .extract configPath name (some output) false _ => do
    Command.extract readers programs storage configPath name output
    return {}
  | .extract configPath name _ preview color => do
    let ms ← Command.modules readers programs configPath name
    return { output := if preview then Preview.render color ms else Listing.write ms }

/-- Do what a request asks for on a file tree. -/
def Request.answer (readers : Readers) (programs : Programs) (storage : Storage) (r : Request)
    (t : FileTree) : Answer × FileTree :=
  match (ExceptT.run (r.perform readers programs storage)).run t with
  | (.ok answer, t) => (answer, t)
  | (.error failure, t) => ({ errors := "error: " ++ failure.text ++ "\n", status := 2 }, t)

end ReferencePages
