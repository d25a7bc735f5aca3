import ReferencePages.TypeScript.Language
import ReferencePages.TypeScript.Lexer
import ReferencePages.TypeScript.Syntax

/-!
# Parsers

A parser reads tokens from the front of what is left of a source, or refuses it. A refusal tells
where it happened: `attempt` starts over from where the refused part began, `salvage` goes on
from where it was refused.

Every outcome tells that where the parser stops is reached from where it began (`Cursor.Leads`): by
reading tokens, and by going on at a place further on.
-/

namespace ReferencePages.TypeScript

/-- What surrounds the part that is read. -/
structure Scope where
  language : Language
  /-- Statements may import and export. -/
  isModule : Bool := true
  /-- The part belongs to a function that awaits. -/
  isAsync : Bool := false
  /-- The part belongs to a function that yields. -/
  isGenerator : Bool := false
  /-- The word `in` stands between two values. -/
  allowsIn : Bool := true
  /-- A type may depend on a condition. -/
  allowsCondition : Bool := true
  /-- A colon stands behind the part, which is the first branch of a condition. -/
  endsAtColon : Bool := false
  /-- Where an arrow function may begin. -/
  arrowAt : Option Nat := none

/-- What is left of a source. -/
structure Cursor where
  /-- How long the source is. -/
  size : Nat
  /-- Where the token before ended. -/
  last : Nat
  /-- The next token, unless the source ends. -/
  token : Option Token
  /-- The source from the next token on. -/
  here : List Char
  /-- The source behind the next token. -/
  rest : List Char

namespace Cursor

/-- The cursor at the start of a gap. -/
def ofGap (size : Nat) (owner : Owner) (start : Gap) : Cursor :=
  match readToken owner size start with
  | some reading => ⟨size, start.place.position, reading.token, reading.here, reading.rest⟩
  | none => ⟨size, start.place.position, none, [], []⟩

/-- The cursor at the start of a source. -/
def ofSource (source : List Char) : Cursor :=
  let place := Place.skip ⟨0, source⟩ (interpreterLine source)
  ofGap source.length {} { newline := true, place }

/-- The cursor behind a token that is the next one. -/
def behind (c : Cursor) (token : Token) : Cursor :=
  let owner := ⟨token.kind.ownsComments, token.kind.isBinaryOperator⟩
  ofGap c.size owner { place := ⟨token.span.hi, c.rest⟩ }

/-- Where the next token begins, or the source ends. -/
def lo (c : Cursor) : Nat := (c.token.map (·.span.lo)).getD c.size

/-- Where the next token ends, or the source. -/
def hi (c : Cursor) : Nat := (c.token.map (·.span.hi)).getD c.size

/-- The cursor at a place from the next token on. `owns` tells whether what stands before it can
own a comment. -/
def goOn (c : Cursor) (owns : Bool) (place : Place) : Cursor :=
  let position := max c.lo (min place.position c.size)
  ofGap c.size { owns } { place := ⟨position, c.here.drop (position - c.lo)⟩ }

/-- The cursor whose next token is none that could stand anywhere. -/
def spoil (c : Cursor) : Cursor :=
  { c with token := c.token.map fun token => { token with kind := .invalid } }

/-- The cursors that are reached from a cursor. None is behind it. -/
inductive Leads : Cursor → Cursor → Prop where
  | refl (c : Cursor) : Leads c c
  /-- The next token is read. -/
  | read {c : Cursor} {token : Token} (h : c.token = some token) : Leads c (c.behind token)
  | goOn (c : Cursor) (owns : Bool) (place : Place) : Leads c (c.goOn owns place)
  | spoil (c : Cursor) : Leads c c.spoil
  | trans {c d e : Cursor} (first : Leads c d) (second : Leads d e) : Leads c e

end Cursor

/-! ## Outcomes -/

/-- What a parser does from a cursor on. The cursor where it stops is never behind. -/
inductive Outcome (c : Cursor) (α : Type) where
  /-- Something has been read. -/
  | found (x : α) (rest : Cursor) (leads : c.Leads rest)
  | refused (rest : Cursor) (leads : c.Leads rest)

/-- An outcome, from a cursor before. -/
def Outcome.after {c d : Cursor} {α : Type} (leads : c.Leads d) : Outcome d α → Outcome c α
  | found x rest leads' => found x rest (leads.trans leads')
  | refused rest leads' => refused rest (leads.trans leads')

/-- A parser. -/
def Parser (α : Type) := Scope → (c : Cursor) → Outcome c α

instance : Monad Parser where
  pure x := fun _ c => .found x c (.refl c)
  bind p f := fun scope c =>
    match p scope c with
    | .found x rest leads => (f x scope rest).after leads
    | .refused rest leads => .refused rest leads

instance : MonadReaderOf Scope Parser := ⟨fun scope c => .found scope c (.refl c)⟩

instance : MonadWithReaderOf Scope Parser := ⟨fun f p scope c => p (f scope) c⟩

namespace Parser

variable {α : Type}

/-- What is left of the source. -/
def cursor : Parser Cursor := fun _ c => .found c c (.refl c)

/-! ## Refusing -/

/-- Refuse what is ahead. -/
def refuse : Parser α := fun _ c => .refused c (.refl c)

/-- Refuse what is ahead, unless a condition holds. -/
def ensure (condition : Bool) : Parser Unit := if condition then pure () else refuse

/-- What a parser reads, or nothing where it refuses; then nothing is read. -/
def attempt (p : Parser α) : Parser (Option α) := fun scope c =>
  match p scope c with
  | .found x rest leads => .found (some x) rest leads
  | .refused _ _ => .found none c (.refl c)

/-- What a parser reads, or nothing where it refuses; then what it had read stays read. -/
def salvage (p : Parser α) : Parser (Option α) := fun scope c =>
  match p scope c with
  | .found x rest leads => .found (some x) rest leads
  | .refused rest leads => .found none rest leads

/-- Read by the first of two parsers, or by the second where the first refuses. -/
def firstOf (p q : Parser α) : Parser α := do
  match ← attempt p with
  | some x => return x
  | none => q

/-- Read by the first of two parsers, or by the second where the first refuses. Where both refuse,
the first tells where. -/
def elseTry (p q : Parser α) : Parser α := fun scope c =>
  match p scope c with
  | .found x rest leads => .found x rest leads
  | .refused rest leads =>
    match q scope c with
    | .found x rest leads => .found x rest leads
    | .refused _ _ => .refused rest leads

/-- Whether a parser finds its condition ahead; nothing is read. -/
def ahead (p : Parser Bool) : Parser Bool := fun scope c =>
  match p scope c with
  | .found holds _ _ => .found holds c (.refl c)
  | .refused _ _ => .found false c (.refl c)

/-! ## Tokens -/

/-- The next token. -/
def peek? : Parser (Option Token) := do return (← cursor).token

/-- The token behind the next one. -/
def second? : Parser (Option Token) := do
  let c ← cursor
  return c.token.bind fun token => (c.behind token).token

/-- Read a token. -/
def next : Parser Token := fun _ c =>
  match h : c.token with
  | some token => .found token (c.behind token) (.read h)
  | none => .refused c (.refl c)

/-- Whether the source ends here. -/
def atEnd : Parser Bool := do return (← peek?).isNone

/-- Whether the next token is of a kind. -/
def nextIs (p : TokenKind → Bool) : Parser Bool := do return (← peek?).any fun t => p t.kind

/-- Whether the token behind the next one is of a kind. -/
def secondIs (p : TokenKind → Bool) : Parser Bool := do return (← second?).any fun t => p t.kind

/-- Whether the next token is a mark. -/
def isMark (mark : String) : Parser Bool := nextIs (· == .punct mark)

/-- Whether the next token is a word, written without escapes. -/
def isWord (word : String) : Parser Bool := nextIs (· == .word word false)

/-- Whether a token is one of some marks. -/
def isAmong (marks : List String) : TokenKind → Bool
  | .punct mark => marks.contains mark
  | _ => false

/-- Whether the next token is one of some marks. -/
def isOneOf (marks : List String) : Parser Bool := nextIs (isAmong marks)

/-- Whether the next token is one of some words, written without escapes. -/
def isOneOfWords (words : List String) : Parser Bool := nextIs fun
  | .word word false => words.contains word
  | _ => false

/-- Whether a word is the next token, and a kind of token stands behind it. -/
def isWordBefore (word : String) (follows : TokenKind → Bool) : Parser Bool := do
  if ← isWord word then secondIs follows else return false

/-- Whether a line break stands before the next token. -/
def afterBreak : Parser Bool := do return (← peek?).any (·.newline)

/-- Whether a line break stands before the token behind the next one. -/
def breakBehind : Parser Bool := do return (← second?).any (·.newline)

/-- Read a mark. -/
def mark (text : String) : Parser Unit := do
  ensure (← isMark text)
  discard next

/-- Read a word that is written without escapes. -/
def word (text : String) : Parser Unit := do
  ensure (← isWord text)
  discard next

/-- Read a mark, if it is the next token. -/
def eat (text : String) : Parser Bool := do
  if ← isMark text then
    discard next
    return true
  else return false

/-- Read a word, if it is the next token. -/
def eatWord (text : String) : Parser Bool := do
  if ← isWord text then
    discard next
    return true
  else return false

/-! ## Places -/

/-- Where the next token begins, or the source ends. -/
def placeHere : Parser Place := do
  let c ← cursor
  return ⟨c.lo, c.here⟩

/-- The place behind the next token. -/
def placeBehind : Parser Place := do
  let c ← cursor
  return ⟨c.hi, c.rest⟩

/-- Go on from a place. `owns` tells whether what stands before it can own a comment. -/
def goOn (owns : Bool) (place : Place) : Parser Unit := fun _ c =>
  .found () (c.goOn owns place) (.goOn c owns place)

/-- Refuse the next token, which is none that could stand anywhere. -/
def refuseToken : Parser α := fun _ c => .refused c.spoil (.spoil c)

/-! ## Repetition -/

/-- Repeat a step at most `n` times, until it finds nothing. -/
def repeatUpTo (step : Parser (Option α)) : Nat → Parser (List α)
  | 0 => refuse
  | n + 1 => do
    match ← step with
    | some x => return x :: (← repeatUpTo step n)
    | none => return []

/-- Repeat a step until it finds nothing. Every step reads a part of the source. -/
def many (step : Parser (Option α)) : Parser (List α) := do
  let c ← cursor
  repeatUpTo step (c.size - c.last + 2)

/-- Repeat a step on a value until it finds nothing, at most `n` times. -/
def growUpTo (step : α → Parser (Option α)) : Nat → α → Parser α
  | 0, _ => refuse
  | n + 1, x => do
    match ← step x with
    | some y => growUpTo step n y
    | none => return x

/-- Repeat a step on a value until it finds nothing. Every step reads a part of the source. -/
def grow (step : α → Parser (Option α)) (x : α) : Parser α := do
  let c ← cursor
  growUpTo step (c.size - c.last + 2) x

/-- Repeat a parser up to a closing mark, which is read. -/
def manyUntil (close : String) (p : Parser α) : Parser (List α) :=
  many do if ← eat close then return none else return some (← p)

/-- Repeat a parser up to a closing brace, which is read, or to the end of the source: the last
blocks of a source may be left open. -/
def blockOf (p : Parser α) : Parser (List α) :=
  many do
    if ← atEnd then return none
    else if ← eat "\x7d" then return none
    else return some (← p)

/-- Repeat a parser with commas between, and perhaps one behind, up to a closing mark, which is
read. -/
def commaUntil (close : String) (p : Parser α) : Parser (List α) :=
  manyUntil close do
    let x ← p
    if !(← isMark close) then mark ","
    return x

/-- Repeat a parser with a mark between each two. -/
def separatedBy (sep : String) (p : Parser α) : Parser (List α) := do
  let x ← p
  return x :: (← many do if ← eat sep then return some (← p) else return none)

/-! ## Statements -/

/-- Whether a statement may end before the next token. -/
def endsStatement : Parser Bool := do
  if (← isOneOf [";", "\x7d"]) || (← atEnd) then return true else afterBreak

/-- Whether a statement ends here. A semicolon is read. -/
def eatEnd : Parser Bool := do if ← eat ";" then return true else endsStatement

/-- The end of a statement: a semicolon, or a place where one may be left out. -/
def semicolon : Parser Unit := do ensure (← eatEnd)

/-- A parser's result with the place it was read from. A part takes its first token at least. -/
def located (p : Parser α) : Parser (Site × α) := do
  match ← peek? with
  | some first =>
    let x ← p
    let hi := (← cursor).last
    ensure (first.span.lo ≤ hi)
    return (⟨⟨first.span.lo, hi⟩, first.comments⟩, x)
  | none => refuse

/-! ## Names -/

/-- Read a word, keywords included. -/
def name : Parser String := do
  match ← peek? with
  | some ⟨.word name _, _, _, _⟩ =>
    discard next
    return name
  | _ => refuse

/-- Read a word that may stand for the value it names. -/
def identifier : Parser String := do
  ensure (← nextIs TokenKind.isIdentifier)
  name

/-- Read a string. -/
def string : Parser String := do
  match ← peek? with
  | some ⟨.string value, _, _, _⟩ =>
    discard next
    return value
  | _ => refuse

/-! ## Scopes -/

/-- Whether types are part of the language. -/
def isTyped : Parser Bool := do return (← read).language.isTyped

/-- Whether all that is declared stands for something elsewhere. -/
def isAmbient : Parser Bool := do return (← read).language.isAmbient

/-- Read a part between marks that close it off from what surrounds it. -/
def enclosed (p : Parser α) : Parser α :=
  withReader (fun scope => { scope with allowsIn := true, endsAtColon := false }) p

end Parser

end ReferencePages.TypeScript
