import ReferencePages.Snippet.Lexeme
import ReferencePages.Snippet.Quote
import ReferencePages.Text.Alphanumeric
import ReferencePages.Text.Lines

/-!
# Spacing inside a line

The lexemes of a line are set one after the other: blanks become one space, separators are
followed by a space, `=` and `=>` stand between spaces, braces are padded, and a comma before a
closing bracket is dropped. A row also counts the brackets, from which indentation is derived.
-/

namespace ReferencePages

/-- A line that is being set. -/
structure Row where
  /-- The text so far, its last character first. -/
  reversed : List Char := []
  /-- Closing brackets before any other code. -/
  closers : Nat := 0
  /-- Opening brackets less closing ones. -/
  delta : Int := 0
  /-- Something other than closing brackets has been set. -/
  hasCode : Bool := false
deriving Repr, DecidableEq

/-- A closing bracket. -/
def isCloser (c : Char) : Bool := c == '}' || c == ')' || c == ']'

namespace Row

/-- The text so far. -/
def text (r : Row) : List Char := r.reversed.reverse

/-- Set one more character. -/
def push (r : Row) (c : Char) : Row := { r with reversed := c :: r.reversed }

/-- Set some characters. -/
def append (r : Row) (s : List Char) : Row := { r with reversed := s.reverse ++ r.reversed }

/-- Note that code has been set. -/
def withCode (r : Row) : Row := { r with hasCode := true }

/-- Set a space behind the text, unless there is one or nothing to separate. -/
def pad (r : Row) : Row :=
  match r.reversed with
  | [] => r
  | c :: _ => if c = ' ' then r else r.push ' '

/-- Set a space before the next character, if there is one that does not close, separate or
blank by itself. -/
def spaceAfter (r : Row) (next : Option Char) : Row :=
  match next with
  | some n => if isBlank n || isCloser n || n == ',' || n == ';' then r else r.push ' '
  | none => r

/-- Drop a comma at the end with the blanks around it. -/
def dropComma (r : Row) : Row :=
  match r.reversed.dropWhile isBlank with
  | ',' :: rest => { r with reversed := rest.dropWhile isBlank }
  | _ => r

/-- Set an opening brace, padded from the word or bracket before it and from what it holds. -/
def openBrace (r : Row) (next : Option Char) : Row :=
  let r :=
    match r.reversed with
    | p :: _ => if isAlphanumeric p || p == '>' || p == ')' || p == ']' then r.push ' ' else r
    | [] => r
  let r := r.push '\x7b'
  match next with
  | some n => if isBlank n || n == '\x7d' || n == '/' then r else r.push ' '
  | none => r

/-- Set a closing bracket. A brace is padded from what it holds. -/
def close (o : FormatOptions) (r : Row) (c : Char) : Row :=
  let r := if o.trailingComma then r else r.dropComma
  let r :=
    if !r.hasCode then { r with closers := r.closers + 1 }
    else if c = '}' then
      match r.reversed with
      | '/' :: '*' :: _ => r
      | p :: _ => if p == ' ' || p == '\x7b' then r else r.push ' '
      | [] => r.push ' '
    else r
  { r.push c with delta := r.delta - 1 }

/-- Set an equals sign, between spaces unless it is part of a longer operator. -/
def equals (r : Row) (next : Option Char) : Row :=
  let afterOperator := r.reversed.head?.any fun p => p == '=' || p == '!' || p == '<'
  if next = some '=' || afterOperator then r.push '='
  else (r.pad.push '=').spaceAfter next

/-- Set a character of code. -/
def code (o : FormatOptions) (r : Row) (c : Char) (next : Option Char) : Row :=
  if c = ' ' ∨ c = '\t' then r.pad
  else if c = '\x7b' then { (r.openBrace next).withCode with delta := r.delta + 1 }
  else if c = '(' ∨ c = '[' then { (r.push c).withCode with delta := r.delta + 1 }
  else if isCloser c then r.close o c
  else if c = '=' then (r.equals next).withCode
  else if c = ':' ∨ c = ',' ∨ c = ';' then ((r.push c).spaceAfter next).withCode
  else (r.push c).withCode

/-- Set a lexeme before a character of the next one. -/
def place (o : FormatOptions) (r : Row) (l : Lexeme) (next : Option Char) : Row :=
  match l with
  | .code c => r.code o c next
  | .arrow => ((r.pad.append ['=', '>']).spaceAfter next).withCode
  | .literal s => (r.append (requote o s)).withCode
  | .openComment => (r.append l.text).withCode
  | .openTemplate => (r.append l.text).withCode
  | l => r.append l.text

/-- Set the lexemes of a line. -/
def placeAll (o : FormatOptions) (r : Row) : List Lexeme → Row
  | [] => r
  | l :: rest => (r.place o l (rest.head?.bind (·.text.head?))).placeAll o rest

end Row

/-- A line with its spacing set. -/
structure SnippetLine where
  text : List Char
  /-- The mode at the start of the line. -/
  opensIn : Mode
  /-- Closing brackets before any other code. -/
  closers : Nat := 0
  /-- Opening brackets less closing ones. -/
  delta : Int := 0
deriving Repr, DecidableEq

/-- A line as it is scanned: trimmed, unless it continues a template. -/
def scannedText (m : Mode) (line : List Char) : List Char :=
  if m = .template then line else trim line

/-- Set the spacing of a line. -/
def spaceLine (o : FormatOptions) (m : Mode) (line : List Char) : SnippetLine :=
  let row := ({} : Row).placeAll o (scan m (scannedText m line))
  { text := if m = .template then row.text else trimEnd row.text
    opensIn := m
    closers := row.closers
    delta := row.delta }

/-- Set the spacing of each line, in the mode in which the one before it ended. -/
def spaceLines (o : FormatOptions) (m : Mode) : List (List Char) → List SnippetLine
  | [] => []
  | line :: rest =>
    spaceLine o m line :: spaceLines o (modeAfterAll m (scan m (scannedText m line))) rest

end ReferencePages
