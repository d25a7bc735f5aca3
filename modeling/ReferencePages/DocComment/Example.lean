import ReferencePages.Text.Lines
import ReferencePages.Text.Search

/-!
# Example code in descriptions

Doc comments do not nest, so example code spells them as `/// type: X` and `/// errors: X`.
Normalizing a description turns these markers into comments of the example's own language, and
the indentation of every line from pairs of spaces into tabs.
-/

namespace ReferencePages

/-- The text `marker` and the rest of its line, which must not be empty. -/
def restOfLine (marker : List Char) : Pattern (List Char) := fun s => do
  let rest ← dropPrefix? marker s
  let value := rest.takeWhile (· != '\n')
  if value.isEmpty then none else some (value, marker.length + value.length - 1)

/-- The comment for a marked type: the type in braces, unless it has them already. -/
def typeComment (value : List Char) : List Char :=
  let type := trimEnd value
  let braced := if startsWith ['{'] type && endsWith ['}'] type then type else '{' :: type ++ ['}']
  "/** @type ".toList ++ braced ++ " */".toList

/-- The comment for a list of expected errors. -/
def errorsComment (value : List Char) : List Char := "// @errors: ".toList ++ value

/-- Turn each pair of spaces at the start into a tab. -/
def tabIndent : List Char → List Char
  | ' ' :: ' ' :: s => '\t' :: tabIndent s
  | s => s

/-- Replace the markers of example code, and indent by tabs. -/
def normalizeExample (s : List Char) : List Char :=
  let typed := replaceMatches (restOfLine "/// type: ".toList) typeComment s
  let marked := replaceMatches (restOfLine "/// errors: ".toList) errorsComment typed
  joinLines ((splitLines marked).map tabIndent)

end ReferencePages
