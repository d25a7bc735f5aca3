import ReferencePages.Config.Basic
import ReferencePages.Symbol
import ReferencePages.TypeScript.Syntax

/-!
# Readers of other formats

What documentation is made from comes in formats that have rules of their own: declarations,
listings and configurations. How they are read is a parameter of the steps that read them.
-/

namespace ReferencePages

/-- How texts in other formats are read. -/
structure Readers where
  /-- The items of a declaration file with a path, if its text follows the grammar. -/
  items? : (path : String) → (text : List Char) → Option (List TypeScript.Item)
  /-- The modules of a listing, in the order of its text. -/
  modules? : (text : String) → Option (List DocModule)
  /-- The configuration of a text, with paths as they are written in it. -/
  config? : (text : String) → Option Config

end ReferencePages
