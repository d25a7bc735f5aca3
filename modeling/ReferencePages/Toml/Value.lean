import ReferencePages.Toml.Scalar
import ReferencePages.Toml.Table

/-!
# Keys and values of TOML

Arrays may run over several lines, and a comma may follow their last item; a table between braces
stands on one line, and has no such comma. Arrays and such tables nest at most `maxNesting` deep.
-/

namespace ReferencePages.Toml

/-! ## Keys -/

/-- A character of a key without quotes. -/
def isBare (c : Char) : Bool := isDigit c || isAsciiLetter c || c == '-' || c == '_'

/-- One part of a key, with the blanks around it. -/
def readKeyPart (s : List Char) : ReadText := do
  let s := skipGap s
  let (part, rest) ← match s with
    | '"' :: s => basicText s
    | '\'' :: s => literalText s
    | s =>
      let part := s.takeWhile isBare
      if part.isEmpty then none else some (part, s.dropWhile isBare)
  return (part, skipGap rest)

/-- The first parts of a key and its last part. -/
abbrev DottedKey := List String × String

/-- A key of at most `n` parts. -/
def readKey : Nat → List Char → Option (DottedKey × List Char)
  | 0, _ => none
  | n + 1, s => do
    let (part, rest) ← readKeyPart s
    match rest with
    | '.' :: rest =>
      let ((path, key), rest) ← readKey n rest
      return ((String.ofList part :: path, key), rest)
    | rest => return (([], String.ofList part), rest)

/-- The greatest number of parts of a key. -/
def maxParts : Nat := 79

/-- The greatest number of arrays and tables around a value. -/
def maxNesting : Nat := 79

/-! ## Values -/

/-- The items of an array up to its closing bracket, at most `n`. -/
def readItems (item : List Char → Option (Json × List Char)) :
    Nat → List Char → Option (List Json × List Char)
  | 0, _ => none
  | n + 1, s =>
    match skipLines s.length s with
    | ']' :: rest => some ([], rest)
    | s => do
      let (v, s) ← item s
      match skipLines s.length s with
      | ',' :: s => do
        let (items, rest) ← readItems item n s
        return (v :: items, rest)
      | ']' :: rest => return ([v], rest)
      | _ => none

/-- A key with its value. -/
def readEntry (value : List Char → Option (Json × List Char)) (s : List Char) :
    Option ((DottedKey × Json) × List Char) := do
  let (key, s) ← readKey maxParts s
  let (v, s) ← value (skipGap (← skipChar '=' s))
  return ((key, v), s)

/-- The entries of a table up to its closing brace, at least one and at most `n`. -/
def readEntries (value : List Char → Option (Json × List Char)) :
    Nat → List Char → Option (List (DottedKey × Json) × List Char)
  | 0, _ => none
  | n + 1, s => do
    let (entry, s) ← readEntry value s
    match skipGap s with
    | ',' :: s => do
      let (entries, rest) ← readEntries value n s
      return (entry :: entries, rest)
    | '\x7d' :: rest => return ([entry], rest)
    | _ => none

/-- The table of some entries. -/
def tableOf? (entries : List (DottedKey × Json)) : Option Json := do
  let t ← entries.foldlM (fun t entry => putValue entry.1.1 entry.1.2 entry.2 t) []
  return .object (entriesToMembers t)

/-- A value that is neither an array nor a table. -/
def readScalar : List Char → Option (Json × List Char)
  | 't' :: 'r' :: 'u' :: 'e' :: s => some (.bool true, s)
  | 'f' :: 'a' :: 'l' :: 's' :: 'e' :: s => some (.bool false, s)
  | s =>
    if s.head? == some '"' || s.head? == some '\'' then
      (readString s).map fun r => (.text (String.ofList r.1), r.2)
    else readQuantity s

/-- A value in which arrays and tables nest at most `n` deep. -/
def readValue : Nat → List Char → Option (Json × List Char)
  | n + 1, '[' :: s =>
    (readItems (readValue n) (s.length + 1) s).map fun r => (.array r.1, r.2)
  | n + 1, '\x7b' :: s =>
    match skipGap s with
    | '\x7d' :: rest => some (.object [], rest)
    | s => do
      let (entries, rest) ← readEntries (readValue n) (s.length + 1) s
      return (← tableOf? entries, rest)
  | _, s => readScalar s

end ReferencePages.Toml
