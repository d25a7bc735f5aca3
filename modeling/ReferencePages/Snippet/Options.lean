/-!
# How snippets are laid out
-/

namespace ReferencePages

/-- The settings of the formatter. -/
structure FormatOptions where
  /-- The width above which a line is broken. -/
  printWidth : Nat := 60
  /-- Indent by tabs, and by two spaces otherwise. -/
  useTabs : Bool := true
  /-- Prefer single quotes, and double quotes otherwise. -/
  singleQuote : Bool := true
  /-- Keep a comma before a closing bracket. -/
  trailingComma : Bool := false
deriving Repr, DecidableEq, Inhabited

namespace FormatOptions

/-- One level of indentation. -/
def unit (o : FormatOptions) : List Char := if o.useTabs then ['\t'] else [' ', ' ']

/-- The quote that string literals should have. -/
def quote (o : FormatOptions) : Char := if o.singleQuote then '\'' else '"'

/-- The quote that is replaced where that needs no escapes. -/
def otherQuote (o : FormatOptions) : Char := if o.singleQuote then '"' else '\''

end FormatOptions

/-- The width of a character; a tab takes two columns. -/
def columns (c : Char) : Nat := if c = '\t' then 2 else 1

/-- The width of a line. -/
def displayWidth (line : List Char) : Nat := line.foldr (fun c width => columns c + width) 0

end ReferencePages
