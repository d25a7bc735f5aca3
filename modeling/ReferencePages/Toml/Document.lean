import ReferencePages.Toml.Value

/-!
# TOML documents

A document is a row of lines: headers, and keys with their values. A key belongs to the table of
the last header before it.
-/

namespace ReferencePages.Toml

/-- A line of a document. -/
inductive Statement where
  /-- The header of a table. -/
  | table (key : DottedKey)
  /-- The header of a table in an array. -/
  | element (key : DottedKey)
  | entry (key : DottedKey) (value : Json)

/-- A header between brackets. -/
def readHeader : List Char → Option (Statement × List Char)
  | '[' :: '[' :: s => do
    let (key, s) ← readKey maxParts s
    return (.element key, ← skipChar ']' (← skipChar ']' s))
  | '[' :: s => do
    let (key, s) ← readKey maxParts s
    return (.table key, ← skipChar ']' s)
  | _ => none

/-- A line that is neither empty nor a comment. -/
def readStatement (s : List Char) : Option (Statement × List Char) :=
  if s.head? == some '[' then readHeader s
  else (readEntry (readValue maxNesting) s).map fun r => (.entry r.1.1 r.1.2, r.2)

/-- The lines of a document, at most `n`. -/
def readStatements : Nat → List Char → Option (List Statement)
  | 0, _ => none
  | n + 1, s =>
    match skipGap s with
    | [] => some []
    | s =>
      if s.head? == some '#' || (lineBreak? s).isSome then do readStatements n (← lineEnd? s)
      else do
        let (statement, s) ← readStatement s
        return statement :: (← readStatements n (← lineEnd? s))

/-- What the lines of a document have built, and the table that keys belong to. -/
structure Document where
  entries : Entries := []
  current : List String := []

namespace Document

/-- Take one more line. -/
def add (d : Document) : Statement → Option Document
  | .table (path, key) => do return ⟨← openTable path key d.entries, path ++ [key]⟩
  | .element (path, key) => do return ⟨← openElement path key d.entries, path ++ [key]⟩
  | .entry (path, key) v => do
    let entries ← changeAt false (fun _ t => putValue path key v t) d.current .header d.entries
    return { d with entries }

end Document

/-- The value of a text; a mark of the order of its bytes may stand before it. -/
def ofText? (s : String) : Option Json := do
  let s := match s.toList with
    | '\ufeff' :: s => s
    | s => s
  let d ← (← readStatements (s.length + 1) s).foldlM Document.add {}
  return .object (entriesToMembers d.entries)

end ReferencePages.Toml
