import ReferencePages.Text.Search

/-!
# Inline links

`{@link Name more}` refers to a symbol or an address. It is replaced by the first word behind
the keyword, as inline code unless that word is an address.
-/

namespace ReferencePages

/-- What may stand behind the at sign of an inline link. -/
def linkKeywords : List String := ["link", "linkcode", "linkplain"]

/-- What follows a keyword and at least one blank, and further blanks. -/
def dropKeyword? (s : List Char) : Option (List Char) :=
  linkKeywords.firstM fun keyword =>
    match dropPrefix? keyword.toList s with
    | some (c :: rest) => if isBlank c then some (trimStart rest) else none
    | _ => none

/-- An inline link at the start of a text: the word it refers to. -/
def inlineLink : Pattern (List Char) := fun s => do
  let afterOpen ← dropPrefix? ['{', '@'] s
  let body ← dropKeyword? afterOpen
  let inWord c := !isBlank c && c != '|' && c != '}'
  let target := body.takeWhile inWord
  match (body.dropWhile inWord).dropWhile (· != '}') with
  | '}' :: rest => if target.isEmpty then none else some (target, s.length - rest.length - 1)
  | _ => none

/-- How a link target is shown. -/
def showTarget (target : List Char) : List Char :=
  if startsWith "http://".toList target || startsWith "https://".toList target then target
  else '`' :: target ++ ['`']

/-- Replace every inline link by its target. -/
def resolveInlineLinks (s : List Char) : List Char := replaceMatches inlineLink showTarget s

end ReferencePages
