import ReferencePages.Text.Search

/-!
# Scripts of a shell

A script is cut into words and operators, which are then read as commands. Quotes and variables
are kept in the words, since what a variable stands for is known only when the script runs.
-/

namespace ReferencePages.Shell

/-- A part of a word. -/
inductive WordPart where
  | text (s : List Char)
  /-- Quotes, which make a word even where they hold nothing. -/
  | quotes
  | variable (name : String)
deriving Repr, DecidableEq

/-- A word. -/
abbrev Word := List WordPart

/-- A word or operator. -/
inductive Token where
  | word (w : Word)
  | mark (s : String)
  /-- A sign of redirection, with the number of what it redirects. -/
  | redirect (descriptor : Option Nat) (sign : String)
deriving Repr, DecidableEq

/-! ## Words -/

/-- A character of the name of a variable. -/
def isNameChar (c : Char) : Bool := isAsciiLetter c || isDigit c || c == '_'

/-- What a dollar sign begins, and what follows. -/
def readVariable : List Char → WordPart × List Char
  | '\x7b' :: s =>
    let name := s.takeWhile (· != '\x7d')
    (.variable (String.ofList name), (s.drop name.length).tail)
  | c :: s =>
    if isDigit c || c == '?' || c == '#' || c == '$' then (.variable c.toString, s)
    else if isNameChar c then
      let name := c :: s.takeWhile isNameChar
      (.variable (String.ofList name), (c :: s).drop name.length)
    else (.text ['$'], c :: s)
  | [] => (.text ['$'], [])

/-- The parts between double quotes, and what follows the closing quote. -/
def readDouble : Nat → List Char → Option (Word × List Char)
  | 0, _ => none
  | _ + 1, [] => none
  | _ + 1, '"' :: s => some ([], s)
  | n + 1, '\\' :: c :: s => do
    let (parts, rest) ← readDouble n s
    if c = '\n' then return (parts, rest)
    else if ['"', '\\', '$', '`'].contains c then return (.text [c] :: parts, rest)
    else return (.text ['\\', c] :: parts, rest)
  | n + 1, '$' :: s => do
    let (part, s) := readVariable s
    let (parts, rest) ← readDouble n s
    return (part :: parts, rest)
  | n + 1, c :: s => do
    let (parts, rest) ← readDouble n s
    return (.text [c] :: parts, rest)

/-- Characters that end a word. -/
def endsWord (c : Char) : Bool :=
  [' ', '\t', '\n', ';', '&', '|', '(', ')', '<', '>'].contains c

/-- A word, and what follows it. -/
def readWord : Nat → List Char → Option (Word × List Char)
  | 0, _ => none
  | _ + 1, [] => some ([], [])
  | n + 1, '\'' :: s => do
    let inside := s.takeWhile (· != '\'')
    let (parts, rest) ← readWord n (← (s.drop inside.length).tail?)
    return (.quotes :: .text inside :: parts, rest)
  | n + 1, '"' :: s => do
    let (inside, s) ← readDouble (s.length + 1) s
    let (parts, rest) ← readWord n s
    return (.quotes :: inside ++ parts, rest)
  | n + 1, '\\' :: c :: s => do
    let (parts, rest) ← readWord n s
    return (if c = '\n' then parts else .quotes :: .text [c] :: parts, rest)
  | n + 1, '$' :: s => do
    let (part, s) := readVariable s
    let (parts, rest) ← readWord n s
    return (part :: parts, rest)
  | n + 1, c :: s =>
    if endsWord c then some ([], c :: s)
    else do
      let (parts, rest) ← readWord n s
      return (.text [c] :: parts, rest)

/-- Operators, no operator before one that it begins. -/
def marks : List String := ["&&", "||", ";", "&", "|", "(", ")", "\n"]

/-- Signs of redirection, no sign before one that it begins. -/
def redirectSigns : List String := ["<<", ">>", ">&", ">|", "<&", ">", "<"]

/-! ## Texts inside a script -/

/-- The plain characters of a word. -/
def plainText (w : Word) : List Char :=
  w.flatMap fun
    | .text s => s
    | _ => []

/-- The text between double quotes that are left out. -/
def readUnquoted (s : List Char) : Option Word :=
  let escaped := s.flatMap fun c => if c = '"' then ['\\', '"'] else [c]
  (readDouble (escaped.length + 2) (escaped ++ ['"'])).map Prod.fst

/-- The lines up to one that is `close`, and what follows that line. -/
def takeLines (close : List Char) : Nat → List Char → List Char × List Char
  | 0, s => (s, [])
  | n + 1, s =>
    let line := s.takeWhile (· != '\n')
    let rest := s.drop (line.length + 1)
    if line = close || s.isEmpty then ([], rest)
    else
      let (text, rest) := takeLines close n rest
      (line ++ '\n' :: text, rest)

/-- The text of a redirection from the script itself, and the script without it. The text stands
on the lines behind this one, up to a line that is the given word; it is taken as it is if the
word has quotes. -/
def readInside (s : List Char) : Option (Word × List Char) := do
  let (close, s) ← readWord (s.length + 1) (s.dropWhile fun c => c == ' ' || c == '\t')
  let line := s.takeWhile (· != '\n')
  let (text, rest) := takeLines (plainText close) s.length (s.drop (line.length + 1))
  let body ← if close.contains .quotes then some [.text text] else readUnquoted text
  return (body, line ++ '\n' :: rest)

/-- The first of some texts that a text begins with, and what follows it. -/
def findMark (texts : List String) (s : List Char) : Option (String × List Char) :=
  texts.findSome? fun text => (dropPrefix? text.toList s).map fun rest => (text, rest)

/-- The words and operators of a script. -/
def tokens? : Nat → List Char → Option (List Token)
  | 0, _ => none
  | n + 1, s =>
    let s := s.dropWhile fun c => c == ' ' || c == '\t'
    let digits := s.takeWhile isDigit
    match s, findMark redirectSigns (s.drop digits.length), findMark marks s with
    | [], _, _ => some []
    | '#' :: _, _, _ => tokens? n (s.dropWhile (· != '\n'))
    | _, some ("<<", rest), _ => do
      let (body, rest) ← readInside rest
      return .redirect none "<<" :: .word body :: (← tokens? n rest)
    | _, some (sign, rest), _ => do
      let descriptor := (String.ofList digits).toNat?
      return .redirect descriptor sign :: (← tokens? n rest)
    | _, _, some (mark, rest) => do return .mark mark :: (← tokens? n rest)
    | s, none, none => do
      let (w, rest) ← readWord (s.length + 1) s
      return .word w :: (← tokens? n rest)

/-! ## Commands -/

/-- Where a redirection leads. -/
structure Redirect where
  /-- The number of what is redirected. -/
  descriptor : Nat
  sign : String
  target : Word
deriving Repr, DecidableEq

/-- A script. -/
inductive Script where
  | empty
  /-- Words, the program first, with redirections. -/
  | simple (words : List Word) (redirects : List Redirect)
  /-- A script in parentheses or, sharing its directory and variables, in braces. -/
  | group (shared : Bool) (body : Script) (redirects : List Redirect)
  /-- The output of the first is the input of the second. -/
  | pipe (first second : Script)
  /-- The second runs if the first succeeds. -/
  | both (first second : Script)
  /-- The second runs if the first fails. -/
  | either (first second : Script)
  | sequence (first second : Script)
  /-- Succeeds if the script fails. -/
  | negate (body : Script)
deriving Repr

/-- A word without quotes and variables. -/
def plainWord (s : String) : Word := s.toList.map fun c => .text [c]

/-- The redirections at the start. -/
def readRedirects : List Token → Option (List Redirect × List Token)
  | .redirect descriptor sign :: .word target :: rest => do
    let (redirects, rest) ← readRedirects rest
    let standard := if sign.startsWith "<" then 0 else 1
    return (⟨descriptor.getD standard, sign, target⟩ :: redirects, rest)
  | .redirect _ _ :: _ => none
  | rest => some ([], rest)

/-- The words and redirections of a command. -/
def readSimple : List Token → Option ((List Word × List Redirect) × List Token)
  | .word w :: rest => do
    let ((words, redirects), rest) ← readSimple rest
    return ((w :: words, redirects), rest)
  | .redirect descriptor sign :: .word target :: rest => do
    let ((words, redirects), rest) ← readSimple rest
    let standard := if sign.startsWith "<" then 0 else 1
    return ((words, ⟨descriptor.getD standard, sign, target⟩ :: redirects), rest)
  | .redirect _ _ :: _ => none
  | rest => some (([], []), rest)

/-- Drop the line breaks at the start. -/
def skipBreaks (ts : List Token) : List Token := ts.dropWhile (· == .mark "\n")

mutual

/-- A single command. -/
def readCommand : Nat → List Token → Option (Script × List Token)
  | 0, _ => none
  | n + 1, ts =>
    match ts with
    | .mark "(" :: rest => do
      let (body, rest) ← readList n rest
      match rest with
      | .mark ")" :: rest => do
        let (redirects, rest) ← readRedirects rest
        return (.group false body redirects, rest)
      | _ => none
    | .word w :: rest =>
      if w = plainWord "\x7b" then do
        let (body, rest) ← readList n rest
        match rest with
        | .word w :: rest =>
          if w = plainWord "\x7d" then do
            let (redirects, rest) ← readRedirects rest
            return (.group true body redirects, rest)
          else none
        | _ => none
      else if w = plainWord "!" then do
        let (body, rest) ← readPipe n rest
        return (.negate body, rest)
      else do
        let ((words, redirects), rest) ← readSimple (.word w :: rest)
        return (.simple words redirects, rest)
    | .redirect descriptor sign :: rest => do
      let ((words, redirects), rest) ← readSimple (.redirect descriptor sign :: rest)
      return (.simple words redirects, rest)
    | _ => none

/-- Commands with pipes between. -/
def readPipe : Nat → List Token → Option (Script × List Token)
  | 0, _ => none
  | n + 1, ts => do
    let (first, rest) ← readCommand n ts
    match rest with
    | .mark "|" :: rest =>
      let (second, rest) ← readPipe n (skipBreaks rest)
      return (.pipe first second, rest)
    | rest => return (first, rest)

/-- Commands behind one whose success or failure they depend on. -/
def readChain : Nat → Script → List Token → Option (Script × List Token)
  | 0, _, _ => none
  | n + 1, first, ts =>
    match ts with
    | .mark "&&" :: rest => do
      let (second, rest) ← readPipe n (skipBreaks rest)
      readChain n (.both first second) rest
    | .mark "||" :: rest => do
      let (second, rest) ← readPipe n (skipBreaks rest)
      readChain n (.either first second) rest
    | rest => some (first, rest)

/-- Commands one behind the other, up to a closing mark or the end. -/
def readList : Nat → List Token → Option (Script × List Token)
  | 0, _ => none
  | n + 1, ts =>
    match skipBreaks ts with
    | [] => some (.empty, [])
    | .mark ")" :: rest => some (.empty, .mark ")" :: rest)
    | ts =>
      if ts.head? == some (.word (plainWord "\x7d")) then some (.empty, ts)
      else do
        let (first, rest) ← readPipe n ts
        let (first, rest) ← readChain n first rest
        match rest with
        | .mark ";" :: rest => do
          let (second, rest) ← readList n rest
          return (.sequence first second, rest)
        | .mark "\n" :: rest => do
          let (second, rest) ← readList n rest
          return (.sequence first second, rest)
        | rest => return (first, rest)

end

/-- A text as a script. -/
def Script.ofText? (s : String) : Option Script := do
  let ts ← tokens? (s.length + 1) s.toList
  let (script, rest) ← readList (4 * ts.length + 4) ts
  if rest.isEmpty then some script else none

end ReferencePages.Shell
