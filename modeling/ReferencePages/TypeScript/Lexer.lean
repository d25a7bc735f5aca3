import ReferencePages.Text.Search
import ReferencePages.TypeScript.Literal
import ReferencePages.TypeScript.Token

/-!
# Cutting TypeScript into tokens

Tokens are cut off one by one, since the grammar decides whether a slash begins a regular
expression and whether a brace goes on with a template. A comment belongs to the token behind it
if a line break stands before the comment, or if the token before cannot own it. Only the
comments that belong to a token are kept with it.
-/

namespace ReferencePages.TypeScript

/-- A place in the source, with the text from there. -/
structure Place where
  position : Nat
  text : List Char
deriving Inhabited

/-- The place `n` characters on. -/
def Place.skip (place : Place) (n : Nat) : Place := ⟨place.position + n, place.text.drop n⟩

/-! ## Blanks and comments -/

/-- A blank that ends no line. -/
def isGap (c : Char) : Bool := (isBlank c || c == '\ufeff') && !isLineBreak c

/-- What stands between two tokens. -/
structure Gap where
  /-- A line break. -/
  newline : Bool := false
  /-- The comments that belong to the token behind, the last one first. -/
  comments : List Comment := []
  /-- Where the token behind begins. -/
  place : Place

/-- What the token before a gap tells of the comments in it. -/
structure Owner where
  /-- The token can own a comment behind it. -/
  owns : Bool := false
  /-- The token is a mark between two values. -/
  isOperator : Bool := false

/-- Whether a block comment belongs to the token behind it. -/
def blockLeads (newline owner : Bool) (behind : List Char) : Bool :=
  newline || (behind.head? != some ';' && !owner)

/-- Read what stands before the next token; none where a comment has no end. -/
def readGap (owner : Owner) : Nat → Gap → Option Gap
  | 0, _ => none
  | fuel + 1, gap =>
    let start := gap.place.position
    let lineComment (n : Nat) (behind : List Char) : Option Gap :=
      let text := behind.takeWhile (!isLineBreak ·)
      let comment : Comment := ⟨start, false, text⟩
      readGap owner fuel
        { gap with
          comments := if gap.newline || owner.isOperator then comment :: gap.comments
            else gap.comments
          place := ⟨start + n + text.length, behind.drop text.length⟩ }
    match gap.place.text with
    | [] => some gap
    | '/' :: '/' :: s => lineComment 2 s
    | '<' :: '!' :: '-' :: '-' :: s => lineComment 4 s
    | '/' :: '*' :: s =>
      match splitAtFirst? ['*', '/'] s with
      | none => none
      | some (text, behind) =>
        let comment : Comment := ⟨start, true, text⟩
        readGap owner fuel
          { newline := gap.newline || text.any isLineBreak
            comments :=
              if blockLeads gap.newline owner.owns behind then comment :: gap.comments
              else gap.comments
            place := ⟨start + 4 + text.length, behind⟩ }
    | '-' :: '-' :: '>' :: s => if gap.newline then lineComment 3 s else some gap
    | c :: s =>
      if isLineBreak c then
        readGap owner fuel { gap with newline := true, place := ⟨start + 1, s⟩ }
      else if isGap c then readGap owner fuel { gap with place := ⟨start + 1, s⟩ }
      else some gap

/-! ## Tokens -/

/-- The marks of more than one character, no mark before one that it begins. Angle brackets are
always marks of their own. -/
def longMarks : List String :=
  ["...", "===", "!==", "**=", "&&=", "||=", "??=", "=>", "==", "!=", "++", "--", "+=", "-=",
    "*=", "/=", "%=", "&=", "|=", "^=", "**", "&&", "||", "??", "?."]

/-- The marks of one character. -/
def shortMarks : List Char :=
  ['\x7b', '\x7d', '(', ')', '[', ']', ';', ',', '<', '>', '.', '?', ':', '=', '+', '-', '*', '/',
    '%', '&', '|', '^', '!', '~', '@']

/-- The mark at the start of a text. A question mark before a decimal fraction is a mark of its
own. -/
def readMark (s : List Char) : Option String :=
  let long := longMarks.find? fun mark =>
    match dropPrefix? mark.toList s with
    | some rest => !(mark == "?." && rest.head?.any isDigit)
    | none => false
  long <|> (s.head?.filter shortMarks.contains).map Char.toString

/-- What stands at the start of a text: what kind of token it is, how many characters it takes,
and what follows. -/
structure Lexeme where
  kind : TokenKind
  length : Nat
  rest : List Char

/-- A lexeme of the first `n` characters of a text. -/
def Lexeme.first (kind : TokenKind) (n : Nat) (s : List Char) : Lexeme := ⟨kind, n, s.drop n⟩

/-- The lexeme at the start of a text that begins with a token. A name takes at most `n`
characters. No reserved word holds an escape, unless it begins with one. -/
def readLexeme? (n : Nat) (s : List Char) : Option Lexeme :=
  match s with
  | [] => none
  | '`' :: s => do
    let part ← cutTemplate s
    return ⟨.template part.closes part.isValid, part.length + 1, part.rest⟩
  | '#' :: s => do
    let name ← readName true n s
    return ⟨.privateName (String.ofList name.text), name.length + 1, name.rest⟩
  | c :: rest =>
    if c == '"' || c == '\'' then do
      let (inside, rest) ← cutString c rest
      let value ← stringValue? inside
      return ⟨.string (String.ofList value), inside.length + 2, rest⟩
    else if isDigit c || (c == '.' && rest.head?.any isDigit) then do
      let (value, length) ← readNumber s
      return match value with
        | .fraction num den => .first (.number num den) length s
        | .bigint value => .first (.bigint value) length s
    else if c == '\\' || isIdentifierStart c then do
      let name ← readName true n s
      let text := String.ofList name.text
      let isPlain := c != '\\'
      if isPlain && name.escaped && isReserved text then none
      else some ⟨.word text !isPlain, name.length, name.rest⟩
    else (readMark s).map fun mark => .first (.punct mark) mark.length s

/-- A token that has been cut off. -/
structure Reading where
  token : Token
  /-- The source from the token on. -/
  here : List Char
  /-- The source behind the token. -/
  rest : List Char

/-- The token behind the start of a gap; none at the end of the source. `owner` is the token
before, `size` how long the source is. -/
def readToken (owner : Owner) (size : Nat) (start : Gap) : Option Reading :=
  let fuel := size - start.place.position + 1
  match readGap owner fuel start with
  | none =>
    let ⟨lo, text⟩ := start.place
    some ⟨⟨.invalid, ⟨lo, lo + text.length⟩, start.newline, []⟩, text, []⟩
  | some ⟨newline, comments, ⟨lo, text⟩⟩ =>
    match text with
    | [] => none
    | _ :: behind =>
      let lexeme := (readLexeme? fuel text).getD ⟨.invalid, 1, behind⟩
      let token := ⟨lexeme.kind, ⟨lo, lo + lexeme.length⟩, newline, comments.reverse⟩
      some ⟨token, text, lexeme.rest⟩

/-- How many characters a line before the source takes that begins with `#!`. -/
def interpreterLine (source : List Char) : Nat :=
  match source with
  | '#' :: '!' :: _ => (source.takeWhile (!isLineBreak ·)).length
  | _ => 0

end ReferencePages.TypeScript
