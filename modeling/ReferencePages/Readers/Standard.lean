import ReferencePages.Config.Record
import ReferencePages.Listing
import ReferencePages.Readers
import ReferencePages.TypeScript.Language
import ReferencePages.TypeScript.Source

/-!
# The readers of this library

Declarations are read in the language that the name of their file tells, listings as JSON, and
configurations as TOML.
-/

namespace ReferencePages

open TypeScript

/-- The readers of this library. -/
def Readers.standard : Readers where
  items? path text := (Source.parse? (Language.ofPath path) text).map Source.items
  modules? := Listing.modules?
  config? := Config.ofText?

end ReferencePages
