import ReferencePages.Text.Lines
import ReferencePages.Text.Search

/-!
# The gutter of a block comment

A doc comment is written between `/**` and `*/`, with a star at the start of each line. Cleaning
drops these, one blank behind each star, the blanks at the end of each line, and the empty lines
at both ends; indentation past the gutter stays. The comment may be given whole, or as the text
between `/*` and `*/`.
-/

namespace ReferencePages

/-- Drop one space at the start. -/
def dropSpace : List Char → List Char
  | ' ' :: s => s
  | s => s

/-- The first line without what opens the comment. -/
def openLine (line : List Char) : List Char :=
  match trimStart line with
  | '/' :: '*' :: '*' :: s => dropSpace s
  | '*' :: s => dropSpace s
  | s => dropSpace s

/-- A later line without its star. A star that begins `*/` is no gutter. -/
def gutterLine (line : List Char) : List Char :=
  match trimStart line with
  | '*' :: '/' :: s => '*' :: '/' :: s
  | '*' :: s => dropSpace s
  | s => s

/-- A line without what closes the comment and without blanks at its end. -/
def closeLine (line : List Char) : List Char :=
  let line := trimEnd line
  match dropSuffix? ['*', '/'] line with
  | some s => trimEnd s
  | none => line

/-- Drop the empty lines at both ends. -/
def dropEmptyEnds (ls : List (List Char)) : List (List Char) :=
  ((ls.dropWhile (·.isEmpty)).reverse.dropWhile (·.isEmpty)).reverse

/-- The lines of a comment without delimiters and gutter. -/
def cleanLines : List (List Char) → List (List Char)
  | [] => []
  | first :: rest =>
    dropEmptyEnds (closeLine (openLine first) :: rest.map fun line => closeLine (gutterLine line))

/-- The text of a comment without delimiters and gutter. -/
def cleanComment (comment : List Char) : List Char := joinLines (cleanLines (lines comment))

end ReferencePages
