import ReferencePages.Json.Reader

/-!
# Text in TOML

Blanks, comments and the four kinds of strings. Every reader returns what it read and the text
that follows. Strings over several lines end at three quotes, before which up to two more quotes
belong to the string.
-/

namespace ReferencePages.Toml

/-! ## Blanks and comments -/

/-- A blank inside a line. -/
def isGap (c : Char) : Bool := c == ' ' || c == '\t'

/-- Drop the blanks at the start. -/
def skipGap (s : List Char) : List Char := s.dropWhile isGap

/-- A character that may stand for itself; control characters other than the tab may not. -/
def isPlain (c : Char) : Bool := c == '\t' || (0x20 ≤ c.toNat && c.toNat != 0x7f)

/-- What follows a line break. -/
def lineBreak? : List Char → Option (List Char)
  | '\n' :: s => some s
  | '\r' :: '\n' :: s => some s
  | _ => none

/-- Drop a comment at the start. -/
def skipComment : List Char → List Char
  | '#' :: s => s.dropWhile isPlain
  | s => s

/-- What follows the end of a line: blanks, perhaps a comment, and a line break or the end of the
text. -/
def lineEnd? (s : List Char) : Option (List Char) :=
  let rest := skipComment (skipGap s)
  if rest.isEmpty then some [] else lineBreak? rest

/-- Drop the blanks, comments and line breaks at the start, at most `n` lines. -/
def skipLines : Nat → List Char → List Char
  | 0, s => skipGap s
  | n + 1, s =>
    match lineBreak? (skipComment (skipGap s)) with
    | some rest => skipLines n rest
    | none => skipGap s

/-! ## Escapes -/

/-- The character that hexadecimal digits number. Halves of surrogate pairs are no characters. -/
def numbered? (digits : List Char) : Option Char := do
  let n ← digits.foldlM (fun n c => (Json.hexDigit? c).map (n * 16 + ·)) 0
  if n < 0xd800 ∨ (0xdfff < n ∧ n < 0x110000) then some (Char.ofNat n) else none

/-- The character of a short escape. -/
def shortEscape? : Char → Option Char
  | '"' => some '"'
  | '\\' => some '\\'
  | 'b' => some '\x08'
  | 'f' => some '\x0c'
  | 'n' => some '\n'
  | 'r' => some '\r'
  | 't' => some '\t'
  | _ => none

/-! ## Strings -/

/-- What a string reader returns: the characters of the string, and the text that follows. -/
abbrev ReadText := Option (List Char × List Char)

/-- Put a character before the text that was read. -/
def ReadText.push (c : Char) (read : ReadText) : ReadText := read.map fun r => (c :: r.1, r.2)

/-- A string on one line, behind its opening quote. -/
def basicText : List Char → ReadText
  | [] => none
  | '"' :: s => some ([], s)
  | '\\' :: 'u' :: a :: b :: c :: d :: s => do
    (basicText s).push (← numbered? [a, b, c, d])
  | '\\' :: 'U' :: a :: b :: c :: d :: e :: f :: g :: h :: s => do
    (basicText s).push (← numbered? [a, b, c, d, e, f, g, h])
  | '\\' :: c :: s => do (basicText s).push (← shortEscape? c)
  | c :: s => if isPlain c && c != '\\' then (basicText s).push c else none

/-- A string without escapes on one line, behind its opening quote. -/
def literalText : List Char → ReadText
  | [] => none
  | '\'' :: s => some ([], s)
  | c :: s => if isPlain c then (literalText s).push c else none

/-- The quotes before the end of a string over several lines, behind the three that could end it:
up to two more belong to the string. -/
def closingQuotes (quote : Char) (s : List Char) : List Char × List Char :=
  let extra := (s.takeWhile (· == quote)).take 2
  (extra, s.drop extra.length)

/-- A string over several lines, behind its opening quotes. `joining` tells whether an escaped
line break stands before: then the blanks and line breaks that follow are dropped. -/
def basicLines (joining : Bool) : List Char → ReadText
  | [] => none
  | '"' :: '"' :: '"' :: s => some (closingQuotes '"' s)
  | '\\' :: 'u' :: a :: b :: c :: d :: s => do
    (basicLines false s).push (← numbered? [a, b, c, d])
  | '\\' :: 'U' :: a :: b :: c :: d :: e :: f :: g :: h :: s => do
    (basicLines false s).push (← numbered? [a, b, c, d, e, f, g, h])
  | '\\' :: c :: s =>
    if (lineBreak? (skipGap (c :: s))).isSome then basicLines true (c :: s)
    else do (basicLines false s).push (← shortEscape? c)
  | '\r' :: '\n' :: s => if joining then basicLines true s else (basicLines false s).push '\n'
  | c :: s =>
    if joining && (isGap c || c == '\n') then basicLines true s
    else if (isPlain c && c != '\\') || c == '\n' then (basicLines false s).push c
    else none

/-- A string without escapes over several lines, behind its opening quotes. -/
def literalLines : List Char → ReadText
  | [] => none
  | '\'' :: '\'' :: '\'' :: s => some (closingQuotes '\'' s)
  | '\r' :: '\n' :: s => (literalLines s).push '\n'
  | c :: s => if isPlain c || c == '\n' then (literalLines s).push c else none

/-- A text without the line break at its start. -/
def dropLineBreak (s : List Char) : List Char := (lineBreak? s).getD s

/-- A string of any kind. -/
def readString : List Char → ReadText
  | '"' :: '"' :: '"' :: s => basicLines false (dropLineBreak s)
  | '"' :: s => basicText s
  | '\'' :: '\'' :: '\'' :: s => literalLines (dropLineBreak s)
  | '\'' :: s => literalText s
  | _ => none

end ReferencePages.Toml
