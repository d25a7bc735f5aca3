import ReferencePages.Path
import ReferencePages.Text.Blank
import ReferencePages.Text.Search

/-!
# The language of a file
-/

namespace ReferencePages.TypeScript

/-- The language of a source. -/
structure Language where
  /-- Types are part of the language. -/
  isTyped : Bool := false
  /-- Elements of markup may stand for values. -/
  hasMarkup : Bool := false
  /-- All that is declared stands for something elsewhere. -/
  isAmbient : Bool := false
deriving Repr, DecidableEq, Inhabited

namespace Language

/-- Extensions of files whose language has types and no markup. -/
def plainExtensions : List String := ["ts", "mts", "cts"]

/-- The parts of a name before and behind its last dot. A name that begins with its only dot is
all extension. -/
def splitName (name : String) : String × Option String :=
  match Path.splitExtension name, name.toList with
  | (_, none), '.' :: extension => ("", some (String.ofList extension))
  | parts, _ => parts

/-- Whether the name of a file, without its extension, marks the file as ambient. -/
def marksAmbient (stem : String) : Bool :=
  stem.endsWith ".d" || contains ".d.".toList stem.toList

/-- The language that the name of a file tells. The case of the extension does not matter. -/
def ofPath (path : String) : Language :=
  match (Path.fileName? path).map fun name => splitName name with
  | some (stem, some extension) =>
    let kind := String.ofList (extension.toList.map toAsciiLower)
    if plainExtensions.contains kind then { isTyped := true, isAmbient := marksAmbient stem }
    else if kind == "tsx" then { isTyped := true, hasMarkup := true }
    else { hasMarkup := kind == "jsx" }
  | _ => {}

end Language

end ReferencePages.TypeScript
