import ReferencePages.Readers.Standard
import ReferencePages.Request
import ReferencePages.Shell.Run

/-!
# Command line

The files that a configuration names are read into a file tree, the request is performed on the
tree, and what it changed in the tree is written back.
-/

namespace ReferencePages

/-- The paths of files and directories that a package reads. -/
def Package.paths (p : Package) : List String :=
  [p.referenceDir] ++
    p.generator.elim [] (fun g => g.directory :: g.listingPath?.toList) ++
    p.declarations.elim [] fun s => s.entry :: (s.privateTypes.toList ++ s.fragments.toList)

namespace Disk

/-- The path of a place. -/
def pathOf (p : Place) : String := "/" ++ "/".intercalate (p.map Subtype.val)

/-- Take a file, or a directory with all that is in it, into a tree. What cannot be read is left
out. -/
partial def takeBelow (p : Place) (t : FileTree) : IO FileTree := do
  try
    let path ← IO.FS.realPath (pathOf p)
    if ← path.isDir then
      (← path.readDir).foldlM (fun t entry =>
        match FileName.ofText? entry.fileName with
        | some name => takeBelow (p ++ [name]) t
        | none => return t) (t.addDirectories p)
    else
      return t.addFile p (.ofBytes (← IO.FS.readBinFile path).toList)
  catch _ => return t

/-- Take what a path leads to into a tree, and every directory that the path passes through. -/
def takePath (t : FileTree) (path : String) : IO FileTree := do
  let parts := Path.parts path
  let t ← (List.range parts.length).foldlM (fun t n => do
    try
      let path ← IO.FS.realPath ("/".intercalate (parts.take (n + 1) ++ ["."]))
      return t.addDirectories (path.components.filterMap FileName.ofText?)
    catch _ => return t) t
  match t.locate? path with
  | some p => takeBelow p t
  | none => return t

/-- A tree of the working directory that holds what a configuration file and its packages name. -/
def load (configPath : String) : IO FileTree := do
  let directory ← IO.currentDir
  let place := directory.components.filterMap FileName.ofText?
  let t ← takePath (({ directory := place } : FileTree).addDirectories place) configPath
  match readConfig Readers.standard configPath t with
  | .ok c => (c.packages.flatMap Package.paths).foldlM takePath t
  | .error _ => return t

/-- Write what differs between two trees. -/
def store (before after : FileTree) : IO Unit := do
  for p in after.directories do
    if !before.isDirectory p then IO.FS.createDirAll (pathOf p)
  for (p, content) in after.files.entries do
    if before.file? p ≠ some content then
      IO.FS.writeBinFile (pathOf p) ⟨content.bytes.toArray⟩
  for p in before.files.keys do
    if (after.file? p).isNone then IO.FS.removeFile (pathOf p)

end Disk

end ReferencePages

open ReferencePages in
/-- Perform the request of the command line; the status is two if it fails. -/
def main (args : List String) : IO UInt32 := do
  match Request.ofArguments? args with
  | none =>
    IO.eprintln Request.usage
    return 2
  | some request =>
    let before ← Disk.load request.configPath
    let (answer, after) := request.answer Readers.standard Shell.programs Storage.ample before
    Disk.store before after
    IO.print answer.output
    IO.eprint answer.errors
    return UInt32.ofNat answer.status
