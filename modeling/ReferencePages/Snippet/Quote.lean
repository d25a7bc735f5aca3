import ReferencePages.Snippet.Options
import ReferencePages.Text.Search

/-!
# Quotes of string literals
-/

namespace ReferencePages

/-- Drop the backslash from each escaped `quote`. -/
def unescapeQuote (quote : Char) (s : List Char) : List Char := replaceAll ['\\', quote] [quote] s

/-- A string literal with the preferred quotes. A literal that holds the preferred quote, or
that is not closed, stays as it is. -/
def requote (o : FormatOptions) (literal : List Char) : List Char :=
  match literal with
  | q :: rest =>
    let inside := rest.dropLast
    if q = o.otherQuote ∧ rest.getLast? = some o.otherQuote ∧ o.quote ∉ inside then
      o.quote :: unescapeQuote o.otherQuote inside ++ [o.quote]
    else literal
  | [] => []

end ReferencePages
