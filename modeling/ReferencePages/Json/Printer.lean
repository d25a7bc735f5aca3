import ReferencePages.Json.Basic
import ReferencePages.Text.Lines

/-!
# Writing JSON

Values are written over several lines, indented by two spaces. An empty array or object stays
on its line. In strings the quote, the backslash and the control characters are escaped.
-/

namespace ReferencePages.Json

/-- A digit of a hexadecimal number below sixteen. -/
def hexDigit (n : Nat) : Char :=
  if n < 10 then Char.ofNat ('0'.toNat + n) else Char.ofNat ('a'.toNat + (n - 10))

/-- A character inside a string. -/
def escapeChar (c : Char) : List Char :=
  if c = '"' then ['\\', '"']
  else if c = '\\' then ['\\', '\\']
  else if c = '\n' then ['\\', 'n']
  else if c = '\r' then ['\\', 'r']
  else if c = '\t' then ['\\', 't']
  else if c = '\x08' then ['\\', 'b']
  else if c = '\x0c' then ['\\', 'f']
  else if c.toNat < 0x20 then
    ['\\', 'u', '0', '0', hexDigit (c.toNat / 16), hexDigit (c.toNat % 16)]
  else [c]

/-- A string in quotes. -/
def quote (s : String) : List Char := '"' :: s.toList.flatMap escapeChar ++ ['"']

/-- A number. -/
def printNumber : JsonNumber → List Char
  | .integer n => (toString n).toList
  | .decimal digits => digits.toList

/-- A line break followed by the indentation of a level. -/
def newLine (level : Nat) : List Char := '\n' :: repeated level [' ', ' ']

mutual

/-- A value whose first line is already indented to a level. -/
def print (level : Nat) : Json → List Char
  | .null => ['n', 'u', 'l', 'l']
  | .bool true => ['t', 'r', 'u', 'e']
  | .bool false => ['f', 'a', 'l', 's', 'e']
  | .number n => printNumber n
  | .string s => quote (s.getD "")
  | .array [] => ['[', ']']
  | .array (item :: items) =>
    '[' :: newLine (level + 1) ++ print (level + 1) item ++ printItems (level + 1) items ++
      newLine level ++ [']']
  | .object [] => ['\x7b', '\x7d']
  | .object ((key, value) :: members) =>
    '\x7b' :: newLine (level + 1) ++ quote (key.getD "") ++ [':', ' '] ++
      print (level + 1) value ++ printMembers (level + 1) members ++ newLine level ++ ['\x7d']

/-- The further items of an array. -/
def printItems (level : Nat) : List Json → List Char
  | [] => []
  | item :: items => ',' :: newLine level ++ print level item ++ printItems level items

/-- The further members of an object. -/
def printMembers (level : Nat) : List (Option String × Json) → List Char
  | [] => []
  | (key, value) :: members =>
    ',' :: newLine level ++ quote (key.getD "") ++ [':', ' '] ++ print level value ++
      printMembers level members

end

/-- The text of a value. -/
def toText (value : Json) : String := String.ofList (print 0 value)

end ReferencePages.Json
