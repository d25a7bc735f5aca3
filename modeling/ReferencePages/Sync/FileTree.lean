import ReferencePages.Keyed
import ReferencePages.Path

/-!
# File trees

The files and directories that documentation is made from. A place in the tree is the list of
names that lead to it from the root; a path is a text that leads to a place, from the root or
from the working directory. A path that passes through anything but directories leads nowhere.

A file is emptied before it is written. So a disk that fails in the middle of a file leaves only the
beginning of what was to be written, and nothing of what was in the file.
-/

namespace ReferencePages

/-- What a file holds: a text, or bytes that are no text. -/
inductive Content where
  | text (s : String)
  | binary (bytes : List UInt8)
deriving Repr, DecidableEq, Inhabited

namespace Content

/-- The text of a file. -/
def text? : Content → Option String
  | .text s => some s
  | .binary _ => none

/-- What bytes hold; they are a text if they are in UTF-8. -/
def ofBytes (bytes : List UInt8) : Content :=
  match String.fromUTF8? ⟨bytes.toArray⟩ with
  | some s => .text s
  | none => .binary bytes

/-- The bytes of a file. -/
def bytes : Content → List UInt8
  | .text s => s.toUTF8.toList
  | .binary bytes => bytes

end Content

/-- What a disk does with the bytes of a file that is written. -/
inductive Storing where
  /-- It takes all of them. -/
  | whole
  /-- It takes this many of them, then it fails. -/
  | cut (kept : Nat)
  /-- It does not open the file. -/
  | refused
deriving Repr, DecidableEq, Inhabited

/-- A place in a file tree. -/
abbrev Place := List FileName

/-- The place behind a step. Above the root is the root. -/
def Place.move (p : Place) : Step → Place
  | .stay => p
  | .up => p.dropLast
  | .down name => p ++ [name]

/-- A file tree with a working directory. -/
structure FileTree where
  /-- The working directory. -/
  directory : Place := []
  /-- The directories below the root. -/
  directories : List Place := []
  files : Keyed Place Content := {}
deriving Repr, Inhabited

namespace FileTree

/-! ## Places -/

/-- Whether a place is a directory. -/
def isDirectory (t : FileTree) (p : Place) : Bool := p.isEmpty || t.directories.contains p

/-- The file at a place. -/
def file? (t : FileTree) (p : Place) : Option Content := t.files.get? p

/-- The place that steps lead to from a place. -/
def walk (t : FileTree) (p : Place) : List Step → Option Place
  | [] => some p
  | step :: rest => if t.isDirectory p then t.walk (p.move step) rest else none

/-- The place that a path leads to from a directory. -/
def locateFrom? (t : FileTree) (directory : Place) (path : String) : Option Place :=
  if path.isEmpty then none
  else
    let start := if Path.isAbsolute path then [] else directory
    t.walk start (Path.steps path)

/-- The place that a path leads to from the working directory. -/
def locate? (t : FileTree) (path : String) : Option Place := t.locateFrom? t.directory path

/-! ## Reading -/

/-- Whether a path leads to a file or directory. -/
def has (t : FileTree) (path : String) : Bool :=
  (t.locate? path).any fun p => t.isDirectory p || (t.file? p).isSome

/-- The file that a path leads to. -/
def read? (t : FileTree) (path : String) : Option Content := (t.locate? path).bind t.file?

/-- The text of the file that a path leads to. -/
def readText? (t : FileTree) (path : String) : Option String :=
  (t.read? path).bind Content.text?

/-- The names of the files directly inside a place, in order. -/
def fileNames (t : FileTree) (p : Place) : List FileName :=
  let names := t.files.keys.filterMap fun q => if q.dropLast = p then q.getLast? else none
  names.mergeSort fun a b => decide (a.val ≤ b.val)

/-! ## Writing -/

/-- The tree with a file at a place, in the stead of a file that is there. -/
def put (t : FileTree) (p : Place) (c : Content) : FileTree :=
  { t with files := t.files.insert p c }

/-- The tree without the file at a place. -/
def erase (t : FileTree) (p : Place) : FileTree := { t with files := t.files.filter (· ≠ p) }

/-- The place of the file that a path can be written to; its directory must exist, and a directory
is no file. -/
def target? (t : FileTree) (path : String) : Option Place :=
  (t.locate? path).filter fun p => !t.isDirectory p

/-- Write the file that a path leads to: whether all of it is written, and the tree that is left. -/
def write (t : FileTree) (storing : Storing) (path : String) (c : Content) : Bool × FileTree :=
  match t.target? path, storing with
  | some p, .whole => (true, t.put p c)
  | some p, .cut kept => (false, t.put p (.ofBytes (c.bytes.take kept)))
  | some _, .refused => (false, t)
  | none, _ => (false, t)

/-- The tree with a directory at a place. -/
def addDirectory (t : FileTree) (p : Place) : FileTree :=
  if t.isDirectory p then t else { t with directories := t.directories ++ [p] }

/-- The tree with a directory at a place and at every place above it. -/
def addDirectories (t : FileTree) (p : Place) : FileTree :=
  (List.range (p.length + 1)).foldl (fun t n => t.addDirectory (p.take n)) t

/-- The tree with a file at a place and the directories above it. -/
def addFile (t : FileTree) (p : Place) (c : Content) : FileTree :=
  (t.addDirectories p.dropLast).put p c

end FileTree

end ReferencePages
