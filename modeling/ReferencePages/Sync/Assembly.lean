import ReferencePages.Config.Basic
import ReferencePages.DocComment.Fence
import ReferencePages.Extraction.File
import ReferencePages.Sync.FileTree
import ReferencePages.SiteLink

/-!
# Modules from declaration files

The modules of a package come from a file of private types, from page fragments, and from the
ambient modules of an entry file.
-/

namespace ReferencePages

open TypeScript

/-- The text of a declaration file, with its examples marked. -/
def readDeclarations (path : String) (t : FileTree) : Except DocError String :=
  if t.has path then
    match t.readText? path with
    | some s => .ok (markExamples s)
    | none => .error .io
  else .error (.fileNotFound path)

/-- A declaration file as a source. -/
def readDeclarationSource (readers : Readers) (path : String) (t : FileTree) :
    Except DocError Source := do
  readSource readers path (← readDeclarations path t).toList

/-! ## Private types -/

/-- The name of the module of private types. -/
def privateModuleName : String := "Private types"

/-- The module of a file of private types. -/
def privateModule (readers : Readers) (o : FormatOptions) (path : String) (t : FileTree) :
    Except DocError DocModule := do
  let source ← readDeclarationSource readers path t
  let e ← Extraction.ofItems o source.text source.items
  return { name := privateModuleName, exports := e.exports, types := e.types }

/-! ## Fragments -/

/-- Whether a name is one of a page. -/
def isPageName (name : FileName) : Bool := (Path.splitExtension name).2 == some "md"

/-- The name of the module that a fragment documents: a plus sign stands for a slash. -/
def fragmentModuleName (fileName : FileName) : String :=
  String.ofList ((Path.splitExtension fileName).1.toList.map fun c => if c = '+' then '/' else c)

/-- The module of a fragment. -/
def fragmentModule (origin : Option String) (directory : String) (fileName : FileName)
    (t : FileTree) : Except DocError DocModule := do
  let text ← readDeclarations (Path.join directory fileName) t
  return { name := fragmentModuleName fileName, comment := stripOrigin origin text, exempt := true }

/-- The modules of the fragments directly inside a directory, in order of their file names. -/
def fragmentModules (origin : Option String) (directory : String) (t : FileTree) :
    Except DocError (List DocModule) :=
  match t.locate? directory with
  | some p =>
    if t.isDirectory p then
      ((t.fileNames p).filter isPageName).mapM fun name => fragmentModule origin directory name t
    else if (t.file? p).isSome then .ok []
    else .error .io
  | none => .error .io

/-! ## Entry files -/

/-- The site, name and items of an ambient module or namespace. -/
def ambientModule? : Item → Option (Site × String × List Item)
  | .exported site (.namespaceDecl name items) => some (site, name, items)
  | .declared site (.namespaceDecl name items) => some (site, name, items)
  | _ => none

/-- The module of an ambient module. -/
def entryModule (o : FormatOptions) (origin : Option String) (source : List Char) (site : Site)
    (name : String) (items : List Item) : Except DocError DocModule := do
  let e ← Extraction.ofItems o source items
  return {
    name
    comment := stripOrigin origin site.doc.description
    exports := e.exports
    types := e.types }

/-- The ambient modules of an entry file, in order. -/
def entryModules (readers : Readers) (o : FormatOptions) (origin : Option String) (path : String)
    (t : FileTree) : Except DocError (List DocModule) := do
  let source ← readDeclarationSource readers path t
  (source.items.filterMap ambientModule?).mapM fun (site, name, items) =>
    entryModule o origin source.text site name items

/-! ## All sources -/

/-- The modules of all sources of a package, in order of name. -/
def assembleModules (readers : Readers) (o : FormatOptions) (sources : DeclarationSources)
    (t : FileTree) : Except DocError (List DocModule) := do
  let privateModules ← sources.privateTypes.toList.mapM fun path => privateModule readers o path t
  let fragments ← sources.fragments.toList.mapM fun path => fragmentModules sources.origin path t
  let entries ← entryModules readers o sources.origin sources.entry t
  return sortModules (privateModules ++ fragments.flatten ++ entries)

end ReferencePages
