import ReferencePages.Snippet.Breaking
import ReferencePages.Snippet.Layout

/-!
# Formatting a snippet

A snippet is the signature of one declaration. Formatting settles what differs between authors:
spacing, indentation, quotes, dangling commas, empty lines, the final semicolon, and long lines.
-/

namespace ReferencePages

/-- The lines of a snippet before long ones are broken. -/
def layoutLines (o : FormatOptions) (source : List Char) : List (List Char) :=
  let indented := indentLines o 0 (spaceLines o .code (lines source))
  let kept := if o.trailingComma then indented else dropDanglingCommas indented
  terminate (collapseBlanks false false (kept.map SnippetLine.text))

/-- The formatted lines of a snippet. -/
def formatLines (o : FormatOptions) (source : List Char) : List (List Char) :=
  (layoutLines o source).flatMap (breakLine o)

/-- A snippet, formatted. -/
def formatSnippet (o : FormatOptions) (source : String) : String :=
  String.ofList (joinLines (formatLines o source.toList))

end ReferencePages
