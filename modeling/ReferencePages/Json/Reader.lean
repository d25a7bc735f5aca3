import ReferencePages.Json.Basic
import ReferencePages.Text.Search

/-!
# Reading JSON

A text is one value with blanks around it, and nothing else. Every part of the reader returns
what it read and the text that follows.
-/

namespace ReferencePages.Json

/-- A blank between the parts of a JSON text. -/
def isGap (c : Char) : Bool := c == ' ' || c == '\n' || c == '\t' || c == '\r'

/-- Drop the blanks at the start. -/
def skipGap (s : List Char) : List Char := s.dropWhile isGap

/-! ## Strings -/

/-- The value of a hexadecimal digit. -/
def hexDigit? (c : Char) : Option Nat :=
  if '0' ≤ c && c ≤ '9' then some (c.toNat - '0'.toNat)
  else if 'a' ≤ c && c ≤ 'f' then some (c.toNat - 'a'.toNat + 10)
  else if 'A' ≤ c && c ≤ 'F' then some (c.toNat - 'A'.toNat + 10)
  else none

/-- The value of four hexadecimal digits. -/
def hexUnit? (a b c d : Char) : Option Nat := do
  return ((← hexDigit? a) * 16 + (← hexDigit? b)) * 256 + (← hexDigit? c) * 16 + (← hexDigit? d)

/-- A part of a string: a character, or the number of an escape such as `\u00e9`. -/
inductive StringUnit where
  | char (c : Char)
  | escape (n : Nat)
deriving Repr, DecidableEq

/-- The character of a short escape. -/
def shortEscape? : Char → Option Char
  | '"' => some '"'
  | '\\' => some '\\'
  | '/' => some '/'
  | 'b' => some '\x08'
  | 'f' => some '\x0c'
  | 'n' => some '\n'
  | 'r' => some '\r'
  | 't' => some '\t'
  | _ => none

/-- The parts of a string up to its closing quote. -/
def readUnits : List Char → Option (List StringUnit × List Char)
  | [] => none
  | '"' :: s => some ([], s)
  | '\\' :: 'u' :: a :: b :: c :: d :: s => do
    let n ← hexUnit? a b c d
    let (units, rest) ← readUnits s
    return (.escape n :: units, rest)
  | '\\' :: c :: s => do
    let c ← shortEscape? c
    let (units, rest) ← readUnits s
    return (.char c :: units, rest)
  | c :: s =>
    if c.toNat < 0x20 || c == '\\' then none
    else do
      let (units, rest) ← readUnits s
      return (.char c :: units, rest)

/-- Whether a number is the first half of a surrogate pair. -/
def isHighHalf (n : Nat) : Bool := 0xd800 ≤ n && n < 0xdc00

/-- Whether a number is the second half of a surrogate pair. -/
def isLowHalf (n : Nat) : Bool := 0xdc00 ≤ n && n < 0xe000

/-- The characters of a string; surrogate pairs are joined, and a half alone has no character. -/
def joinUnits : List StringUnit → Option (List Char)
  | [] => some []
  | .char c :: rest => (joinUnits rest).map (c :: ·)
  | .escape n :: .escape m :: rest =>
    if isHighHalf n then
      if isLowHalf m then
        (joinUnits rest).map (Char.ofNat (0x10000 + (n - 0xd800) * 0x400 + (m - 0xdc00)) :: ·)
      else none
    else if isLowHalf n then none
    else (joinUnits (.escape m :: rest)).map (Char.ofNat n :: ·)
  | .escape n :: rest =>
    if isHighHalf n || isLowHalf n then none else (joinUnits rest).map (Char.ofNat n :: ·)

/-- A string behind its opening quote. -/
def readString (s : List Char) : Option (Option String × List Char) := do
  let (units, rest) ← readUnits s
  return ((joinUnits units).map String.ofList, rest)

/-! ## Numbers -/

/-- The digits at the start, at least one. -/
def readDigits (s : List Char) : Option (List Char × List Char) :=
  let digits := s.takeWhile isDigit
  if digits.isEmpty then none else some (digits, s.dropWhile isDigit)

/-- The integer part of a number: no digit follows a leading zero. -/
def readWhole : List Char → Option (List Char × List Char)
  | '0' :: c :: s => if isDigit c then none else some (['0'], c :: s)
  | s => readDigits s

/-- The fraction of a number, where there is one. -/
def readFraction : List Char → Option (List Char × List Char)
  | '.' :: s => do
    let (digits, rest) ← readDigits s
    return ('.' :: digits, rest)
  | s => some ([], s)

/-- The exponent of a number, where there is one. -/
def readExponent : List Char → Option (List Char × List Char)
  | [] => some ([], [])
  | c :: s =>
    if c == 'e' || c == 'E' then
      match s with
      | '-' :: s => (readDigits s).map fun r => ('e' :: '-' :: r.1, r.2)
      | '+' :: s => (readDigits s).map fun r => ('e' :: r.1, r.2)
      | s => (readDigits s).map fun r => ('e' :: r.1, r.2)
    else some ([], c :: s)

/-- The value of a row of decimal digits. -/
def digitsValue (digits : List Char) : Nat :=
  digits.foldl (fun n c => n * 10 + (c.toNat - '0'.toNat)) 0

/-- A number. Zero with a minus sign is no integer. -/
def readNumber (s : List Char) : Option (JsonNumber × List Char) := do
  let (negative, s) := match s with
    | '-' :: s => (true, s)
    | s => (false, s)
  let (whole, s) ← readWhole s
  let (fraction, s) ← readFraction s
  let (exponent, s) ← readExponent s
  let n := digitsValue whole
  if fraction.isEmpty && exponent.isEmpty && !(negative && n == 0) then
    return (.integer (if negative then -(n : Int) else n), s)
  else
    let sign := if negative then ['-'] else []
    return (.decimal (String.ofList (sign ++ whole ++ fraction ++ exponent)), s)

/-! ## Values -/

mutual

/-- A value at the start of a text without blanks before it. -/
def readValue : Nat → List Char → Option (Json × List Char)
  | 0, _ => none
  | fuel + 1, s =>
    match s with
    | 'n' :: 'u' :: 'l' :: 'l' :: s => some (.null, s)
    | 't' :: 'r' :: 'u' :: 'e' :: s => some (.bool true, s)
    | 'f' :: 'a' :: 'l' :: 's' :: 'e' :: s => some (.bool false, s)
    | '"' :: s => (readString s).map fun r => (.string r.1, r.2)
    | '[' :: s =>
      match skipGap s with
      | ']' :: s => some (.array [], s)
      | s => (readItems fuel s).map fun r => (.array r.1, r.2)
    | '\x7b' :: s =>
      match skipGap s with
      | '\x7d' :: s => some (.object [], s)
      | s => (readMembers fuel s).map fun r => (.object r.1, r.2)
    | s => (readNumber s).map fun r => (.number r.1, r.2)

/-- The items of an array up to its closing bracket, at least one. -/
def readItems : Nat → List Char → Option (List Json × List Char)
  | 0, _ => none
  | fuel + 1, s => do
    let (item, s) ← readValue fuel s
    match skipGap s with
    | ',' :: s => do
      let (items, s) ← readItems fuel (skipGap s)
      return (item :: items, s)
    | ']' :: s => return ([item], s)
    | _ => none

/-- The members of an object up to its closing brace, at least one. -/
def readMembers : Nat → List Char → Option (List (Option String × Json) × List Char)
  | 0, _ => none
  | fuel + 1, s =>
    match s with
    | '"' :: s => do
      let (key, s) ← readString s
      match skipGap s with
      | ':' :: s => do
        let (value, s) ← readValue fuel (skipGap s)
        match skipGap s with
        | ',' :: s => do
          let (members, s) ← readMembers fuel (skipGap s)
          return ((key, value) :: members, s)
        | '\x7d' :: s => return ([(key, value)], s)
        | _ => none
      | _ => none
    | _ => none

end

/-- The value of a JSON text. -/
def ofChars? (s : List Char) : Option Json := do
  let (value, rest) ← readValue (2 * s.length + 2) (skipGap s)
  if (skipGap rest).isEmpty then some value else none

/-- The value of a JSON text. -/
def ofText? (s : String) : Option Json := ofChars? s.toList

end ReferencePages.Json
