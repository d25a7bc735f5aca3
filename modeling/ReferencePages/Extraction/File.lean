import ReferencePages.Extraction.Declaration
import ReferencePages.Readers

/-!
# Symbols of a file
-/

namespace ReferencePages

open TypeScript

/-- Read the text of a declaration file. -/
def readSource (readers : Readers) (path : String) (text : List Char) : Except DocError Source :=
  if path.isEmpty then .error .io
  else
    match readers.items? path text with
    | some items => .ok { text, items }
    | none => .error .declarationSyntax

/-- The symbols that a file exports. -/
def extractFile (readers : Readers) (o : FormatOptions) (path : String) (text : List Char) :
    Except DocError Extraction := do
  let source ← readSource readers path text
  Extraction.ofItems o source.text source.items

end ReferencePages
