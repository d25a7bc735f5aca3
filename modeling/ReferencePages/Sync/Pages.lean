import ReferencePages.Include
import ReferencePages.Sync.Assembly
import ReferencePages.Sync.Listing

/-!
# Keeping pages in step with declarations

The include markers of every page of every selected package are replaced in memory first. Only
when all of them have been, the pages that changed are written; a marker that names nothing thus
leaves all pages as they are.
-/

namespace ReferencePages

/-! ## Modules of a package -/

/-- The modules of a package, in order of name before their links are moved. -/
def packageModules (readers : Readers) (programs : Programs) (format : FormatOptions)
    (p : Package) : TreeStep (List DocModule) := do
  let listed ← match p.generator with
    | some g => g.modules? readers programs
    | none => pure none
  let ms ← match listed, p.declarations with
    | some ms, _ => pure ms
    | none, some sources => TreeStep.reading (assembleModules readers format sources)
    | none, none => throw (.config (.noModuleSource p.name))
  return if p.moveLinks then moveModuleLinks ms else ms

/-- What the markers of a package can name. -/
def referenceTable (readers : Readers) (programs : Programs) (format : FormatOptions)
    (p : Package) : TreeStep ReferenceTable := do
  let ms ← packageModules readers programs format p
  match p.configTypes with
  | none => return { modules := ms }
  | some names =>
    let (outcome, ms) := isolateConfigTypes names ms
    return { modules := ms, config := some (← TreeStep.ofExcept outcome) }

/-! ## Pages -/

/-- The pages directly inside a directory, in order of their file names. -/
def referencePages (directory : String) (t : FileTree) : Except DocError (List String) :=
  match t.locate? directory with
  | some p =>
    if t.isDirectory p then
      .ok (((t.fileNames p).filter isPageName).map (Path.join directory ·.val))
    else .error (.fileNotFound directory)
  | none => .error (.fileNotFound directory)

/-- A page with its markers replaced. -/
structure PlannedWrite where
  path : String
  content : String
  /-- The content differs from the page. -/
  changed : Bool
deriving Repr, DecidableEq, Inhabited

/-- A page with its markers replaced by what a table gives for them. -/
def planPage (table : ReferenceTable) (path : String) (t : FileTree) :
    Except DocError PlannedWrite :=
  match t.readText? path with
  | none => .error .io
  | some text => do
    let content ← table.substitute text
    return { path, content, changed := content ≠ text }

/-- The pages of a package with their markers replaced. -/
def planPackage (readers : Readers) (programs : Programs) (format : FormatOptions) (p : Package) :
    TreeStep (List PlannedWrite) := do
  let table ← referenceTable readers programs format p
  TreeStep.reading fun t => do
    (← referencePages p.referenceDir t).mapM fun path => planPage table path t

/-- The pages of some packages with their markers replaced. -/
def planPackages (readers : Readers) (programs : Programs) (format : FormatOptions) :
    List Package → TreeStep (List PlannedWrite)
  | [] => return []
  | p :: rest => do
    let writes ← planPackage readers programs format p
    return writes ++ (← planPackages readers programs format rest)

/-- What is going to be written. -/
structure Plan where
  /-- The names of the packages. -/
  packages : List String := []
  writes : List PlannedWrite := []
deriving Repr, DecidableEq, Inhabited

/-- The plan for the packages of some names, or for all packages if there is no name. -/
def plan (readers : Readers) (programs : Programs) (c : Config) (names : List String) :
    TreeStep Plan := do
  let packages ← TreeStep.ofExcept (c.select names)
  let writes ← planPackages readers programs c.format packages
  return { packages := packages.map (·.name), writes }

/-! ## Writing -/

/-- Write the page of a planned write. What a write that fails has done to the page stays. -/
def PlannedWrite.perform (w : PlannedWrite) (storing : Storing) : TreeStep Unit := do
  let (written, t) := (← get).write storing w.path (.text w.content)
  set t
  if !written then throw .io

/-- Write some pages, one after the other. -/
def performAll : Storage → List PlannedWrite → TreeStep Unit
  | _, [] => return
  | storage, w :: rest => do
    w.perform (storage 0)
    performAll (Storage.tail storage) rest

/-- Write every page that changed; their number. -/
def commit (storage : Storage) (writes : List PlannedWrite) : TreeStep Nat := do
  let changed := writes.filter (·.changed)
  performAll storage changed
  return changed.length

/-- What a run did. -/
structure SyncReport where
  /-- The names of the packages. -/
  packages : List String
  /-- How many pages were looked at. -/
  pages : Nat
  /-- How many pages changed. -/
  changed : Nat
  /-- Nothing was written. -/
  dryRun : Bool
deriving Repr, DecidableEq, Inhabited

/-- Replace the markers of all pages of the selected packages, and write the pages unless this is
only tried. -/
def sync (readers : Readers) (programs : Programs) (storage : Storage) (c : Config)
    (names : List String) (dryRun : Bool) : TreeStep SyncReport := do
  let p ← plan readers programs c names
  if !dryRun then discard (commit storage p.writes)
  return {
    packages := p.packages
    pages := p.writes.length
    changed := (p.writes.filter (·.changed)).length
    dryRun }

end ReferencePages
