import ReferencePages.Json.Reader
import ReferencePages.Number.Binary64
import ReferencePages.Text.Identifier

/-!
# Literals of TypeScript

Numbers with their prefixes, separators and exponents, and the escapes of strings and names.
-/

namespace ReferencePages.TypeScript

open Json (hexDigit? digitsValue isHighHalf isLowHalf)

/-- A character that ends a line. -/
def isLineBreak (c : Char) : Bool := c == '\n' || c == '\r' || c == '\u2028' || c == '\u2029'

/-! ## Escapes -/

/-- The value of hexadecimal digits. -/
def hexValue? (digits : List Char) : Option Nat :=
  if digits.isEmpty then none
  else digits.foldlM (fun n c => (hexDigit? c).map (n * 16 + ·)) 0

/-- The number of an escape behind `\u`, and how many characters tell it: four digits, or digits in
braces. -/
def unicodeEscape? : List Char → Option (Nat × Nat)
  | '\x7b' :: s => do
    let digits := s.takeWhile (· != '\x7d')
    let n ← hexValue? digits
    if digits.length < s.length && n ≤ 0x10ffff then some (n, digits.length + 2) else none
  | a :: b :: c :: d :: _ => do return (← hexValue? [a, b, c, d], 4)
  | _ => none

/-- The number that an escape behind its backslash stands for, and what follows. Nothing stands
for an escaped line break. -/
def escape? : List Char → Option (Option Nat × List Char)
  | [] => none
  | '\r' :: '\n' :: s => some (none, s)
  | 'n' :: s => some (some 0x0a, s)
  | 'r' :: s => some (some 0x0d, s)
  | 't' :: s => some (some 0x09, s)
  | 'b' :: s => some (some 0x08, s)
  | 'v' :: s => some (some 0x0b, s)
  | 'f' :: s => some (some 0x0c, s)
  | 'x' :: a :: b :: s => do return (some (← hexValue? [a, b]), s)
  | 'x' :: _ => none
  | 'u' :: s => (unicodeEscape? s).map fun escape => (some escape.1, s.drop escape.2)
  | c :: s =>
    if isLineBreak c then some (none, s)
    else if '0' ≤ c && c ≤ '7' then
      let more := s.takeWhile fun d => '0' ≤ d && d ≤ '7'
      let digits := (c :: more).take (if c ≤ '3' then 3 else 2)
      let n := digits.foldl (fun n d => n * 8 + (d.toNat - '0'.toNat)) 0
      some (some n, s.drop (digits.length - 1))
    else some (some c.toNat, s)

/-- The numbers of the characters of a string. -/
def stringUnits : Nat → List Char → Option (List Nat)
  | 0, _ => none
  | _ + 1, [] => some []
  | fuel + 1, '\\' :: s => do
    let (n, rest) ← escape? s
    return n.toList ++ (← stringUnits fuel rest)
  | fuel + 1, c :: s => do return c.toNat :: (← stringUnits fuel s)

/-- The characters of a string. The two halves of a surrogate pair are joined; a half alone has
no character, and three replacement characters stand for it. -/
def joinHalves : List Nat → List Char
  | [] => []
  | n :: m :: rest =>
    if isHighHalf n && isLowHalf m then
      Char.ofNat (0x10000 + (n - 0xd800) * 0x400 + (m - 0xdc00)) :: joinHalves rest
    else if isHighHalf n || isLowHalf n then
      '\ufffd' :: '\ufffd' :: '\ufffd' :: joinHalves (m :: rest)
    else Char.ofNat n :: joinHalves (m :: rest)
  | [n] =>
    if isHighHalf n || isLowHalf n then ['\ufffd', '\ufffd', '\ufffd'] else [Char.ofNat n]

/-- The value of a string, from the text between its quotes. -/
def stringValue? (s : List Char) : Option (List Char) :=
  (stringUnits (s.length + 1) s).map joinHalves

/-- Cut a text behind the quote that ends a string. No line ends inside a string, unless its end
is escaped. -/
def cutString (quote : Char) : List Char → Option (List Char × List Char)
  | [] => none
  | '\\' :: '\r' :: '\n' :: s =>
    (cutString quote s).map fun cut => ('\\' :: '\r' :: '\n' :: cut.1, cut.2)
  | '\\' :: c :: s => (cutString quote s).map fun cut => ('\\' :: c :: cut.1, cut.2)
  | c :: s =>
    if c = quote then some ([], s)
    else if c = '\n' ∨ c = '\r' then none
    else (cutString quote s).map fun cut => (c :: cut.1, cut.2)

/-! ## Templates -/

/-- A part of a template, up to its end or to the next insertion. -/
structure TemplatePart where
  text : List Char
  /-- The template ends behind the part. -/
  closes : Bool
  rest : List Char

/-- The part of a template at the start of a text. -/
def cutTemplate : List Char → Option TemplatePart
  | [] => none
  | '\\' :: c :: s =>
    (cutTemplate s).map fun part => { part with text := '\\' :: c :: part.text }
  | '`' :: s => some ⟨[], true, s⟩
  | '$' :: '\x7b' :: s => some ⟨[], false, s⟩
  | c :: s => (cutTemplate s).map fun part => { part with text := c :: part.text }

/-- How many characters a part takes, with what ends it. -/
def TemplatePart.length (part : TemplatePart) : Nat :=
  part.text.length + if part.closes then 1 else 2

/-- Whether an escape behind its backslash tells a character by octal digits. -/
def isOctalEscape : List Char → Bool
  | '0' :: c :: _ => '0' ≤ c && c ≤ '7'
  | c :: _ => '1' ≤ c && c ≤ '7'
  | [] => false

/-- Whether the escapes of a text may stand in a template. -/
def validEscapes : Nat → List Char → Bool
  | 0, _ => false
  | _ + 1, [] => true
  | fuel + 1, '\\' :: s =>
    !isOctalEscape s && (escape? s).any fun escape => validEscapes fuel escape.2
  | fuel + 1, _ :: s => validEscapes fuel s

/-- Whether the escapes of a part are valid. -/
def TemplatePart.isValid (part : TemplatePart) : Bool :=
  validEscapes (part.text.length + 1) part.text

/-! ## Regular expressions -/

/-- How many characters a regular expression takes behind its first slash, its flags included.
`inClass` tells whether a bracket is open. -/
def regexLength (inClass : Bool) : List Char → Option Nat
  | [] => none
  | '\\' :: c :: s => if isLineBreak c then none else (regexLength inClass s).map (· + 2)
  | c :: s =>
    if isLineBreak c then none
    else if c = '/' ∧ inClass = false then
      let hasFlags := s.head?.any isIdentifierStart
      some (1 + if hasFlags then (s.takeWhile isIdentifierPart).length else 0)
    else (regexLength (if c = '[' then true else if c = ']' then false else inClass) s).map (· + 1)

/-! ## Names -/

/-- A name at the start of a text. -/
structure NameReading where
  text : List Char := []
  /-- A character of the name is escaped. -/
  escaped : Bool := false
  /-- How many characters the name takes. -/
  length : Nat := 0
  rest : List Char

/-- Read a name. `isFirst` tells whether the name begins here. -/
def readName (isFirst : Bool) : Nat → List Char → Option NameReading
  | 0, _ => none
  | fuel + 1, s =>
    let fits c := if isFirst then isIdentifierStart c else isIdentifierPart c
    match s with
    | '\\' :: 'u' :: s => do
      let (n, count) ← unicodeEscape? s
      let c := Char.ofNat n
      if fits c then
        let name ← readName false fuel (s.drop count)
        return ⟨c :: name.text, true, name.length + count + 2, name.rest⟩
      else none
    | '\\' :: _ => none
    | c :: rest =>
      if fits c then do
        let name ← readName false fuel rest
        return { name with text := c :: name.text, length := name.length + 1 }
      else if isFirst then none else some { rest := c :: rest }
    | [] => if isFirst then none else some { rest := [] }

/-! ## Numbers -/

/-- A number: a fraction, or an integer of any size. -/
inductive NumberValue where
  | fraction (num den : Nat)
  | bigint (value : Nat)
deriving Repr, DecidableEq

/-- The digits at the start of a text that `p` admits, without separators, and what follows. -/
def readSeparated (p : Char → Bool) (s : List Char) : List Char × List Char :=
  let run := s.takeWhile fun c => p c || c == '_'
  (run.filter (· != '_'), s.drop run.length)

/-- The nearest number of 53 significant bits, and of two equally near ones the even one. -/
def roundTo53 (n : Nat) : Nat :=
  let excess := n.log2 + 1 - 53
  Binary64.roundHalfEven n (Nat.pow 2 excess) * Nat.pow 2 excess

/-- The value of the digits of a base. It is rounded behind every digit. -/
def roundedValue (base : Nat) (digits : List Char) : Nat :=
  digits.foldl (fun n c => roundTo53 (n * base + (hexDigit? c).getD 0)) 0

/-- The value of the digits of a base. -/
def exactValue (base : Nat) (digits : List Char) : Nat :=
  digits.foldl (fun n c => n * base + (hexDigit? c).getD 0) 0

/-- A number of a base that is a power of two, behind its prefix. -/
def readBased (base : Nat) (s : List Char) : Option (NumberValue × List Char) :=
  let (digits, rest) := readSeparated (fun c => (hexDigit? c).any (· < base)) s
  if digits.isEmpty then none
  else
    match rest with
    | 'n' :: rest => some (.bigint (exactValue base digits), rest)
    | rest => some (.fraction (roundedValue base digits) 1, rest)

/-- The exponent of a number, where there is one. -/
def readPower (s : List Char) : Option (Int × List Char) :=
  match s with
  | c :: s' =>
    if c == 'e' || c == 'E' then
      let (sign, digits) : Int × List Char :=
        match s' with
        | '-' :: t => (-1, t)
        | '+' :: t => (1, t)
        | t => (1, t)
      let (run, rest) := readSeparated isDigit digits
      if run.isEmpty then none else some (sign * digitsValue run, rest)
    else some (0, s)
  | [] => some (0, [])

/-- A decimal number. One that begins with a further digit behind a zero is no integer of any
size. -/
def readDecimal (s : List Char) : Option (NumberValue × List Char) := do
  let (whole, rest) := readSeparated isDigit s
  let isPlain := s.head? != some '0' || whole.length == 1
  match whole, rest with
  | _ :: _, 'n' :: rest =>
    if isPlain then some (.bigint (digitsValue whole), rest) else none
  | _, _ =>
    let (places, rest) :=
      match rest with
      | '.' :: rest => readSeparated isDigit rest
      | rest => ([], rest)
    if whole.isEmpty && places.isEmpty then none
    let (power, rest) ← readPower rest
    let (num, den) := Binary64.decimalRatio (digitsValue (whole ++ places)) (power - places.length)
    return (.fraction num den, rest)

/-- Whether digits behind a zero are octal: there are some, and all are less than eight. -/
def isOctal (s : List Char) : Bool :=
  let (digits, _) := readSeparated isDigit s
  digits.length ≥ 2 && digits.all fun c => c ≤ '7'

/-- A character that a number may hold. -/
def isNumberPart (c : Char) : Bool :=
  isAsciiLetter c || isDigit c || c == '_' || c == '.' || c == '+' || c == '-'

/-- A number at the start of a text, and how many characters it takes; no name follows
directly. -/
def readNumber (s : List Char) : Option (NumberValue × Nat) := do
  let run := s.takeWhile isNumberPart
  let (value, rest) ←
    match run with
    | '0' :: c :: behind =>
      if c == 'x' || c == 'X' then readBased 16 behind
      else if c == 'o' || c == 'O' then readBased 8 behind
      else if c == 'b' || c == 'B' then readBased 2 behind
      else if isOctal run then readOctal run
      else readDecimal run
    | run => readDecimal run
  let length := run.length - rest.length
  if (s.drop length).head?.any isIdentifierStart then none else some (value, length)
where
  readOctal (run : List Char) : Option (NumberValue × List Char) :=
    let (digits, rest) := readSeparated isDigit run
    some (.fraction (roundedValue 8 digits) 1, rest)

end ReferencePages.TypeScript
