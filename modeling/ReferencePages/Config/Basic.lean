import ReferencePages.Isolation
import ReferencePages.Path
import ReferencePages.Snippet.Options

/-!
# Configurations

A configuration names the packages that are documented. Every package needs a source for its
modules: declaration files, or the listing of an outside program. A configuration in which a
package has none, or in which two packages have one name, is refused.
-/

namespace ReferencePages

/-- The outside program of a package. -/
structure Generator where
  program : String
  args : List String := []
  /-- The directory that the program runs in. -/
  directory : String
  /-- The listing that the program writes, relative to its directory. -/
  listing : Option String := none
deriving Repr, DecidableEq, Inhabited

namespace Generator

/-- The program with its arguments. -/
def commandLine (g : Generator) : String := " ".intercalate (g.program :: g.args)

/-- Where the listing is, if the program writes one. -/
def listingPath? (g : Generator) : Option String := g.listing.map (Path.join g.directory)

end Generator

/-- Where the declarations of a package are. -/
structure DeclarationSources where
  /-- A file of types that are documented as one module. -/
  privateTypes : Option String := none
  /-- A directory of page fragments, each of which is the comment of a module. -/
  fragments : Option String := none
  /-- The file whose ambient modules are documented. -/
  entry : String
  /-- The host of the documentation, which is dropped from the comments of modules. -/
  origin : Option String := none
deriving Repr, DecidableEq, Inhabited

/-- A documented package. -/
structure Package where
  name : String
  /-- The directory of the pages. -/
  referenceDir : String
  /-- Move the links to the documentation site. -/
  moveLinks : Bool := false
  generator : Option Generator := none
  declarations : Option DeclarationSources := none
  configTypes : Option ConfigTypeNames := none
deriving Repr, DecidableEq, Inhabited

/-- Whether the modules of a package come from a listing. -/
def Package.usesListing (p : Package) : Bool := p.generator.any fun g => g.listing.isSome

/-- Whether a package has a source for its modules. -/
def Package.hasSource (p : Package) : Bool := p.declarations.isSome || p.usesListing

/-- A configuration. -/
structure Config where
  packages : List Package := []
  format : FormatOptions := {}
deriving Repr, DecidableEq, Inhabited

/-! ## Paths -/

/-- The generator with its directory inside a base directory. -/
def Generator.inside (base : String) (g : Generator) : Generator :=
  { g with directory := Path.join base g.directory }

/-- The sources with their paths inside a base directory. -/
def DeclarationSources.inside (base : String) (s : DeclarationSources) : DeclarationSources :=
  { s with
    entry := Path.join base s.entry
    privateTypes := s.privateTypes.map (Path.join base)
    fragments := s.fragments.map (Path.join base) }

/-- The package with its paths inside a base directory. -/
def Package.inside (base : String) (p : Package) : Package :=
  { p with
    referenceDir := Path.join base p.referenceDir
    generator := p.generator.map (Generator.inside base)
    declarations := p.declarations.map (DeclarationSources.inside base) }

namespace Config

/-- The configuration with its paths inside a base directory. -/
def inside (base : String) (c : Config) : Config :=
  { c with packages := c.packages.map (Package.inside base) }

/-! ## Faults -/

/-- What is wrong with a package behind packages of the names `seen`. -/
def packageFault? (seen : List String) (p : Package) : Option ConfigFailure :=
  if seen.contains p.name then some (.duplicateName p.name)
  else if p.hasSource then none
  else some (.noSource p.name)

/-- What is wrong with the first faulty package. -/
def firstFault? : List String → List Package → Option ConfigFailure
  | _, [] => none
  | seen, p :: rest => (packageFault? seen p).or (firstFault? (p.name :: seen) rest)

/-- What is wrong with a configuration. -/
def fault? (c : Config) : Option ConfigFailure :=
  if c.packages.isEmpty then some .noPackages else firstFault? [] c.packages

/-- The configuration, unless something is wrong with it. -/
def validate (c : Config) : Except DocError Config :=
  match c.fault? with
  | some failure => .error (.config failure)
  | none => .ok c

/-! ## Packages -/

/-- The package of a name. -/
def package? (c : Config) (name : String) : Option Package := c.packages.find? (·.name = name)

/-- The package of a name, which must exist. -/
def package (c : Config) (name : String) : Except DocError Package :=
  match c.package? name with
  | some p => .ok p
  | none => .error (.config (.unknownPackage name))

/-- The packages of some names, in their order; all packages if there is no name. -/
def select (c : Config) (names : List String) : Except DocError (List Package) :=
  if names.isEmpty then .ok c.packages else names.mapM c.package

end Config

end ReferencePages
