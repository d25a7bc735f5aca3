import ReferencePages.Snippet.Spacing

/-!
# Lines of a snippet

Indentation follows the depth of brackets. A comma is dropped where the next line closes the
bracket, runs of empty lines shrink to one, and a statement ends with a semicolon.
-/

namespace ReferencePages

/-! ## Indentation -/

/-- A line behind its indentation at a depth of brackets. The lines of a comment are aligned
below its first star; those of a template stay. -/
def indentLine (o : FormatOptions) (depth : Int) (line : SnippetLine) : List Char :=
  match line.opensIn with
  | .template => line.text
  | .comment =>
    if line.text.isEmpty then []
    else
      repeated depth.toNat o.unit ++ (if line.text.head? = some '*' then [' '] else []) ++ line.text
  | .code =>
    if line.text.isEmpty then [] else repeated (depth - line.closers).toNat o.unit ++ line.text

/-- Indent each line, starting at a depth of brackets. -/
def indentLines (o : FormatOptions) (depth : Int) : List SnippetLine → List SnippetLine
  | [] => []
  | line :: rest =>
    { line with text := indentLine o depth line } :: indentLines o (depth + line.delta) rest

/-! ## Commas and empty lines -/

/-- Whether the first line that is not blank starts with a closing bracket. -/
def closesNext (ls : List SnippetLine) : Bool :=
  match ls.find? fun l => !(trim l.text).isEmpty with
  | some l => (trim l.text).head?.any isCloser
  | none => false

/-- Drop the comma at the end of each line whose bracket the next line closes. -/
def dropDanglingCommas : List SnippetLine → List SnippetLine
  | [] => []
  | line :: rest =>
    let dangling := line.opensIn = .code ∧ line.text.getLast? = some ',' ∧
      contains ['/', '/'] line.text = false ∧ closesNext rest = true
    (if dangling then { line with text := line.text.dropLast } else line) ::
      dropDanglingCommas rest

/-- Drop blank lines, but keep one empty line between two others. `seen` tells whether a line
has been kept, `gap` whether blank lines follow it. -/
def collapseBlanks (seen gap : Bool) : List (List Char) → List (List Char)
  | [] => []
  | line :: rest =>
    if (trim line).isEmpty then collapseBlanks seen seen rest
    else (if gap then [[]] else []) ++ line :: collapseBlanks true false rest

/-! ## The end of the statement -/

/-- Words that may stand before the keyword of a declaration. -/
def modifiers : List String := ["export", "declare", "abstract", "default", "async"]

/-- Declarations whose body is not followed by a semicolon. -/
def blockKeywords : List String := ["interface", "class", "namespace", "module", "enum", "global"]

/-- What follows a modifier at the start and the blanks behind it. -/
def dropModifier? (s : List Char) : Option (List Char) :=
  modifiers.firstM fun word =>
    match dropPrefix? word.toList s with
    | some (' ' :: rest) => some (trimStart rest)
    | _ => none

/-- What follows at most `n` modifiers at the start. -/
def dropModifiers : Nat → List Char → List Char
  | 0, s => s
  | n + 1, s =>
    match dropModifier? s with
    | some rest => dropModifiers n rest
    | none => s

/-- The keyword of a declaration, from its first line. -/
def keyword (line : List Char) : List Char :=
  let s := trimStart line
  (dropModifiers s.length s).takeWhile isAlphanumeric

/-- Whether a semicolon belongs behind the last line of a declaration with a keyword. -/
def needsSemicolon (word last : List Char) : Bool :=
  let last := trimEnd last
  !(endsWith [';'] last || contains ['/', '/'] last || endsWith ['*', '/'] last ||
    (endsWith ['}'] last && blockKeywords.contains (String.ofList word)))

/-- Put a semicolon behind the last line where one belongs. -/
def terminate (ls : List (List Char)) : List (List Char) :=
  match ls.head?, ls.getLast? with
  | some first, some last =>
    if needsSemicolon (keyword first) last then ls.dropLast ++ [last ++ [';']] else ls
  | _, _ => ls

end ReferencePages
