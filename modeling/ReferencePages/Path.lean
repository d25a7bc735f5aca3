import ReferencePages.Text.Search

/-!
# Paths of files

A path is a text in which `/` separates names. Each part between separators is a step: to a name,
up, or to nowhere.
-/

namespace ReferencePages

/-- A text that can name a file: it has no slash, and is not a step that leads nowhere or up. -/
structure IsFileName (s : String) : Prop where
  noSlash : '/' ∉ s.toList
  ne_empty : s ≠ ""
  ne_here : s ≠ "."
  ne_above : s ≠ ".."

instance (s : String) : Decidable (IsFileName s) :=
  decidable_of_iff ('/' ∉ s.toList ∧ s ≠ "" ∧ s ≠ "." ∧ s ≠ "..")
    ⟨fun ⟨noSlash, ne_empty, ne_here, ne_above⟩ => ⟨noSlash, ne_empty, ne_here, ne_above⟩,
      fun ⟨noSlash, ne_empty, ne_here, ne_above⟩ => ⟨noSlash, ne_empty, ne_here, ne_above⟩⟩

/-- The name of a file or directory. -/
abbrev FileName := { s : String // IsFileName s }

/-- The name that a text is. -/
def FileName.ofText? (s : String) : Option FileName :=
  if h : IsFileName s then some ⟨s, h⟩ else none

/-- A step of a path. -/
inductive Step where
  /-- To where the path has come already. -/
  | stay
  | up
  | down (name : FileName)
deriving Repr, DecidableEq

/-- The step that a part of a path stands for. -/
def Step.ofText (s : String) : Step :=
  if h : IsFileName s then .down ⟨s, h⟩ else if s = ".." then .up else .stay

namespace Path

/-- Whether a path begins at the root. -/
def isAbsolute (path : String) : Bool := path.toList.head? == some '/'

/-- A path inside a directory. An absolute path stays as it is; a separator is put between unless
there is one already, or nothing before it. -/
def join (base path : String) : String :=
  if isAbsolute path || base.isEmpty then path
  else if base.toList.getLast? == some '/' then base ++ path
  else base ++ "/" ++ path

/-- The parts of a path between its separators. -/
def parts (path : String) : List String := (path.toList.splitOn '/').map String.ofList

/-- Drop the parts at the end that lead nowhere, except the first part. -/
def dropIdle (ps : List String) : List String :=
  match ps with
  | [] => []
  | first :: rest => first :: (rest.reverse.dropWhile fun s => s = "" ∨ s = ".").reverse

/-- The directory of the file that a path names. -/
def parent (path : String) : String :=
  match dropIdle (parts path).dropLast with
  | [""] => "/"
  | ps => "/".intercalate ps

/-- The steps of a path. -/
def steps (path : String) : List Step := (parts path).map Step.ofText

/-- The last name of a path, unless the path goes up from it. -/
def fileName? (path : String) : Option FileName :=
  match ((steps path).filter (· ≠ .stay)).getLast? with
  | some (.down name) => some name
  | _ => none

/-- The parts of a name before and behind its last dot. A name that begins with its only dot has
no extension. -/
def splitExtension (name : String) : String × Option String :=
  let s := name.toList
  let behind := s.reverse.takeWhile (· != '.')
  if behind.length + 1 < s.length then
    (String.ofList (s.take (s.length - behind.length - 1)), some (String.ofList behind.reverse))
  else (name, none)

end Path

end ReferencePages
