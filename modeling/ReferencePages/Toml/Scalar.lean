import ReferencePages.Number.Binary64
import ReferencePages.Toml.Quoted

/-!
# Numbers, dates and times in TOML

Integers have 64 bits. A date or time is a value without any fields that a configuration could
name.
-/

namespace ReferencePages.Toml

open Json (hexDigit? digitsValue)

/-! ## Numbers -/

/-- A row of digits without separators, and what follows; separators stand between digits. -/
def readRun (isDigit : Char → Bool) (s : List Char) : ReadText :=
  let run := s.takeWhile fun c => isDigit c || c == '_'
  if (run.splitOn '_').all (!·.isEmpty) then some (run.filter (· != '_'), s.drop run.length)
  else none

/-- A sign, and what follows it; whether it is a minus sign. -/
def readSign : List Char → Bool × List Char
  | '-' :: s => (true, s)
  | '+' :: s => (false, s)
  | s => (false, s)

/-- An integer of 64 bits. -/
def integer? (n : Int) : Option Json :=
  if -Int.pow 2 63 ≤ n ∧ n < Int.pow 2 63 then some (.number (.integer n)) else none

/-- An integer of a base behind its prefix. -/
def readBased (base : Nat) (s : List Char) : Option (Json × List Char) := do
  let (digits, rest) ← readRun (fun c => (hexDigit? c).any (· < base)) s
  let n := digits.foldl (fun n c => n * base + (hexDigit? c).getD 0) 0
  return (← integer? n, rest)

/-- The digits behind the point of a number, where there is one. -/
def readPlaces : List Char → ReadText
  | '.' :: s => readRun isDigit s
  | s => some ([], s)

/-- The power of ten of a number, where there is one. -/
def readPower : List Char → Option (Option Int × List Char)
  | [] => some (none, [])
  | c :: s =>
    if c == 'e' || c == 'E' then do
      let (negative, s) := readSign s
      let (digits, s) ← readRun isDigit s
      return (some (if negative then -digitsValue digits else digitsValue digits), s)
    else some (none, c :: s)

/-- A decimal number behind its sign. A leading zero stands alone, and no number is too great for
double precision, unless it is negative. -/
def readDecimal (negative : Bool) (s : List Char) : Option (Json × List Char) := do
  let (whole, s) ← readRun isDigit s
  if 1 < whole.length && whole.head? == some '0' then none
  let (places, s) ← readPlaces s
  let (power?, s) ← readPower s
  let n := digitsValue (whole ++ places)
  if places.isEmpty && power?.isNone then
    return (← integer? (if negative then -n else n), s)
  else
    let (num, den) := Binary64.decimalRatio n (power?.getD 0 - places.length)
    if negative || (Binary64.ofRatio? num den).isSome then
      return (.number (.decimal (String.ofList (whole ++ '.' :: places))), s)
    else none

/-- A number. -/
def readNumber : List Char → Option (Json × List Char)
  | '0' :: 'x' :: s => readBased 16 s
  | '0' :: 'o' :: s => readBased 8 s
  | '0' :: 'b' :: s => readBased 2 s
  | s =>
    let (negative, s) := readSign s
    match s with
    | 'i' :: 'n' :: 'f' :: s => some (.number (.decimal "inf"), s)
    | 'n' :: 'a' :: 'n' :: s => some (.number (.decimal "nan"), s)
    | s => readDecimal negative s

/-! ## Dates and times -/

/-- A number of `n` digits between two bounds, and what follows. -/
def readTwo (n lo hi : Nat) (s : List Char) : Option (Nat × List Char) :=
  let digits := s.take n
  let value := digitsValue digits
  if digits.length = n ∧ digits.all isDigit ∧ lo ≤ value ∧ value ≤ hi then
    some (value, s.drop n)
  else none

/-- What follows a character. -/
def skipChar (c : Char) : List Char → Option (List Char)
  | [] => none
  | d :: s => if c = d then some s else none

/-- The number of days of a month. -/
def daysIn (year month : Nat) : Nat :=
  if month = 2 then
    if year % 4 = 0 ∧ (year % 100 ≠ 0 ∨ year % 400 = 0) then 29 else 28
  else if [4, 6, 9, 11].contains month then 30
  else 31

/-- What follows a date. -/
def skipDate (s : List Char) : Option (List Char) := do
  let (year, s) ← readTwo 4 0 9999 s
  let (month, s) ← readTwo 2 1 12 (← skipChar '-' s)
  let (_, s) ← readTwo 2 1 (daysIn year month) (← skipChar '-' s)
  return s

/-- What follows a time; a fraction of a second has at least one digit. -/
def skipTime (s : List Char) : Option (List Char) := do
  let (_, s) ← readTwo 2 0 23 s
  let (_, s) ← readTwo 2 0 59 (← skipChar ':' s)
  let (_, s) ← readTwo 2 0 60 (← skipChar ':' s)
  match s with
  | '.' :: s => if s.head?.any isDigit then some (s.dropWhile isDigit) else none
  | s => some s

/-- What follows the distance of a time zone, where there is one. -/
def skipZone : List Char → Option (List Char)
  | 'Z' :: s => some s
  | 'z' :: s => some s
  | '+' :: s => zoneTime s
  | '-' :: s => zoneTime s
  | s => some s
where
  zoneTime (s : List Char) : Option (List Char) := do
    let (_, s) ← readTwo 2 0 23 s
    let (_, s) ← readTwo 2 0 59 (← skipChar ':' s)
    return s

/-- What follows the time of a date, where there is one. -/
def skipTimeOfDay : List Char → Option (List Char)
  | c :: s =>
    if c == 'T' || c == 't' then do skipZone (← skipTime s)
    else if c == ' ' && s.head?.any isDigit then do skipZone (← skipTime s)
    else some (c :: s)
  | [] => some []

/-- What follows a date with or without a time, or a time alone. -/
def skipDateTime (s : List Char) : Option (List Char) :=
  (do skipTimeOfDay (← skipDate s)) <|> skipTime s

/-- A number, or a date or time. -/
def readQuantity (s : List Char) : Option (Json × List Char) :=
  match skipDateTime s with
  | some rest => some (.object [], rest)
  | none => readNumber s

end ReferencePages.Toml
