/-!
# What can go wrong

Every failure stops the run: a page with missing parts is never written. The causes are the
constructors of `DocError`, and their wording is in `DocError.message?`.
-/

namespace ReferencePages

/-- Why the listing of an outside program is missing. -/
inductive GeneratorFailure where
  /-- The program could not be started. -/
  | notStarted
  /-- The program ended with a status other than zero, having written this to its error output. -/
  | exited (status : Nat) (errors : String)
  /-- The listing is missing or no text. -/
  | unreadableListing (path : String)
  /-- The listing does not hold modules. -/
  | invalidListing (path : String)
deriving Repr, DecidableEq

/-- A configuration that is refused. -/
inductive ConfigFailure where
  /-- The text is no TOML, or a field is missing or of a wrong type. -/
  | unreadable
  /-- There is no package. -/
  | noPackages
  /-- Two packages have the same name. -/
  | duplicateName (name : String)
  /-- A package names no source for its modules. -/
  | noSource (name : String)
  /-- A package is selected that does not exist. -/
  | unknownPackage (name : String)
  /-- A package turned out to have no source for its modules. -/
  | noModuleSource (name : String)
deriving Repr, DecidableEq

/-- Why documentation cannot be produced. -/
inductive DocError where
  /-- A file or directory could not be read or written. -/
  | io
  /-- A declaration file does not follow the grammar. -/
  | declarationSyntax
  /-- A marker names neither a module nor a configuration type. -/
  | referenceNotFound (name : String)
  /-- The outside program of a package did not produce its listing. -/
  | generator (command : String) (failure : GeneratorFailure)
  /-- The braces of a declaration's body were not found. -/
  | collapseBoundary (name : String)
  /-- A configuration type or its module is missing. -/
  | symbolNotFound (name : String)
  /-- The configuration is refused. -/
  | config (failure : ConfigFailure)
  /-- A file or directory does not exist. -/
  | fileNotFound (path : String)
deriving Repr, DecidableEq

/-- The wording of a generator's failure, where it has one of its own. -/
def GeneratorFailure.message? : GeneratorFailure → Option String
  | .notStarted => none
  | .exited status errors => some s!"exited with exit status: {status}: {errors}"
  | .unreadableListing path => some s!"cannot read {path}"
  | .invalidListing path => some s!"invalid listing {path}"

/-- The wording of a refused configuration. -/
def ConfigFailure.message? : ConfigFailure → Option String
  | .unreadable => none
  | .noPackages => some "no [[package]] tables configured"
  | .duplicateName name => some s!"duplicate package name `{name}`"
  | .noSource name => some s!"package `{name}` needs [package.declarations] or a generator listing"
  | .unknownPackage name => some s!"unknown package `{name}`"
  | .noModuleSource name => some s!"package `{name}` has no module source"

/-- The wording of a failure. Failures that other programs word have none. -/
def DocError.message? : DocError → Option String
  | .io => none
  | .declarationSyntax => none
  | .referenceNotFound name => some s!"Reference not found in generated types: {name}"
  | .generator _ failure => failure.message?
  | .collapseBoundary name =>
    some s!"Could not locate the member body of `{name}` for collapsing"
  | .symbolNotFound name => some s!"Symbol not found: {name}"
  | .config failure => failure.message?.map fun text => s!"Configuration error: {text}"
  | .fileNotFound path => some s!"File not found: {path}"

end ReferencePages
