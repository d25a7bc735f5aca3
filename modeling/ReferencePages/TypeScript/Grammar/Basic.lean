import ReferencePages.TypeScript.Parser

/-!
# Parts of the grammar

The grammar refers to itself: types hold types, functions hold statements, and so on. Each rule
is therefore a parser over `Nested`, the parsers for what stands one level deeper.
-/

namespace ReferencePages.TypeScript

/-! ## What is read -/

/-- What is kept of a type: for an object type, where it stands and its members. -/
abbrev TypeShape := Option (Span × List TypeMember)

/-- What is kept of an expression: what may be done to it. -/
inductive Form where
  /-- The name of a value. -/
  | name (text : String)
  /-- An array or object; whether it may be read as a pattern. -/
  | literal (isPattern : Bool)
  /-- A member of a value, which may be missing. -/
  | part (isOptional : Bool)
  /-- Another form of a place that takes a value, of a value that may be missing. -/
  | place (isOptional : Bool)
  | assignment
  /-- A function whose body is a block or an expression. -/
  | arrow (hasBlock : Bool)
  /-- An operator with the value behind it. -/
  | sign
  | awaited
  /-- Values with operators between them. -/
  | operation
  /-- Any other value. -/
  | value
deriving Repr, DecidableEq, Inhabited

namespace Form

/-- Whether an operator that assigns may take what stands before it. -/
def isAssignable : Form → Bool
  | .name _ => true
  | .part _ => true
  | .place _ => true
  | _ => false

/-- Whether a value may be assigned to the form. -/
def isTarget : Form → Bool
  | .literal isPattern => isPattern
  | form => form.isAssignable

/-- Whether the form may be read as a pattern, unless it holds what no pattern holds. -/
def isReadable : Form → Bool
  | .literal isPattern => isPattern
  | _ => true

/-- Whether the value may be missing. -/
def isOptional : Form → Bool
  | .part isOptional => isOptional
  | .place isOptional => isOptional
  | _ => false

/-- Whether the form is an arrow function. -/
def isArrow : Form → Bool
  | .arrow _ => true
  | _ => false

end Form

/-- Which parts may stand behind a value. -/
structure Reach where
  /-- Arguments between parentheses. -/
  calls : Bool := true
  /-- Members between brackets. -/
  brackets : Bool := true

/-- The parsers for the parts inside another part. -/
structure Nested where
  type : Parser TypeShape
  /-- A type that depends on no condition of its own. -/
  operandType : Parser TypeShape
  /-- An expression without commas. -/
  expression : Parser Form
  /-- Values with operators between them. -/
  operation : Parser Form
  /-- A value with the operators before it. -/
  unary : Parser Form
  /-- A value with its members and calls. -/
  base : Parser Form
  /-- A value with its members. -/
  member : Parser Form
  /-- The members and calls behind a value. -/
  suffixes : Reach → Form → Parser Form
  /-- A name or pattern that is bound; the name, where it is plain. -/
  pattern : Parser (Option String)
  /-- An element of markup from a place on; the place behind it. -/
  element : Place → Parser Place
  /-- A statement that is part of another. -/
  statement : Parser Unit
  /-- A statement or declaration. -/
  item : Parser Item

namespace Grammar

open TypeScript.Parser

/-! ## Expressions and types -/

/-- Expressions with commas between. -/
def expressions (g : Nested) : Parser Form := do
  match ← separatedBy "," g.expression with
  | [form] => return form
  | _ => return .value

/-- Expressions that are closed off from what surrounds them. -/
def closedExpressions (g : Nested) : Parser Unit := discard (enclosed (expressions g))

/-- The arguments of a call, behind the opening parenthesis. -/
def arguments (g : Nested) : Parser Unit :=
  discard (commaUntil ")" do
    discard (eat "...")
    enclosed g.expression)

/-- A value behind an equals sign, where there is one. -/
def initializer (g : Nested) : Parser Unit := do
  if ← eat "=" then discard (enclosed g.expression)

/-- A type behind a colon, where there is one. -/
def typeBehindColon (g : Nested) : Parser TypeShape := do
  if (← isTyped) && (← isMark ":") then
    mark ":"
    g.type
  else return none

/-- The types between angle brackets. -/
def typeArguments (g : Nested) : Parser Unit := do
  ensure (← isTyped)
  mark "<"
  discard (commaUntil ">" g.type)

/-! ## Templates -/

/-- The parts of a template behind its first. `p` reads what is inserted, and `isFree` tells
whether any escape may stand in it. -/
def templateRest (p : Parser Unit) (isFree : Bool) : Parser Unit :=
  discard (many do
    p
    ensure (← isMark "\x7d")
    let place ← placeBehind
    match cutTemplate place.text with
    | some part =>
      ensure (isFree || part.isValid)
      goOn (!part.closes) (place.skip part.length)
      return if part.closes then none else some ()
    | none => refuse)

/-- A template. `p` reads what is inserted, and `isFree` tells whether any escape may stand in
it. -/
def template (p : Parser Unit) (isFree : Bool) : Parser Unit := do
  match (← next).kind with
  | .template closes isValid =>
    ensure (isFree || isValid)
    if !closes then templateRest p isFree
  | _ => refuse

/-! ## Names and keys -/

/-- Whether a word can name what is bound. More words can than can stand for a value. -/
def namesBinding (language : Language) : TokenKind → Bool
  | .word name escaped =>
    escaped || !keywords.contains name || name == "let" || name == "this" && language.isTyped ||
      name == "await" && language.isAmbient
  | _ => false

/-- The name of a binding, or of a value that is bound elsewhere. -/
def boundName : Parser String := do
  let language := (← read).language
  ensure (← nextIs (namesBinding language))
  name

/-- The name of what is bound. -/
def bindingName : Parser String := do if ← isWord "yield" then name else boundName

/-- The name of a function or class that need not have one. -/
def optionalName : Parser Unit := do
  if ← nextIs TokenKind.isIdentifier then discard name

/-- Whether a token can begin the key of a member. -/
def startsKey : TokenKind → Bool
  | .word _ _ => true
  | .privateName _ => true
  | .number _ _ => true
  | .bigint _ => true
  | .string _ => true
  | .punct text => text == "["
  | _ => false

/-- The expression of a key, behind its opening bracket. -/
def computedKey (g : Nested) : Parser Unit := do
  if ← isTyped then closedExpressions g else discard (enclosed g.expression)
  mark "]"

/-- The key of a part of an object; the word, where it is one. -/
def propertyKey (g : Nested) : Parser (Option String) := do
  match (← next).kind with
  | .word text _ => return some text
  | .number _ _ => return none
  | .bigint _ => return none
  | .string _ => return none
  | .punct "[" =>
    computedKey g
    return none
  | _ => refuse

/-! ## Words before a part -/

/-- Whether what follows a word makes it a modifier. -/
def followsModifier (kind : TokenKind) : Bool :=
  startsKey kind || isAmong ["\x7b", "*", "..."] kind

/-- Read a word that modifies what stands behind it, if it is one of some words. -/
def eatModifier (words : List String) : Parser (Option String) := do
  if (← isTyped) && (← isOneOfWords words) && (← secondIs followsModifier) then
    return some (← name)
  else return none

/-- Words that may stand before a parameter, one of them at most. -/
def parameterModifiers : List String := ["public", "private", "protected", "readonly"]

/-- Read a word before a parameter, where there is one. -/
def eatParameterModifier : Parser Bool := do
  let follows (kind : TokenKind) : Bool := kind.isName || isAmong ["[", "\x7b"] kind
  if (← isTyped) && (← isOneOfWords parameterModifiers) && (← secondIs follows) then
    discard next
    return true
  else return false

/-! ## Patterns -/

/-- A question mark behind a pattern that only describes. -/
def ambientMark : Parser Unit := do if ← isAmbient then discard (eat "?")

/-- A part of an object pattern. All that is left over has a plain name, where it comes last: the
result tells whether the part may come last. -/
def patternProperty (g : Nested) : Parser Bool := do
  if ← eat "..." then return (← g.pattern).isSome
  else
    let key ← propertyKey g
    if ← eat ":" then
      discard g.pattern
    else ensure key.isSome
    initializer g
    return true

/-- The elements of an array pattern, behind its opening bracket. -/
def patternElements (g : Nested) : Parser Unit :=
  discard (manyUntil "]" do
    if ← eat "," then return
    if ← eat "..." then discard g.pattern
    else
      discard g.pattern
      initializer g
    if !(← isMark "]") then mark ",")

/-- A name or pattern that is bound; the name, where it is plain. -/
def pattern (g : Nested) : Parser (Option String) := do
  if ← eat "\x7b" then
    let parts ← commaUntil "\x7d" (patternProperty g)
    ensure (parts.getLast?.getD true)
    ambientMark
    return none
  else if ← eat "[" then
    patternElements g
    ambientMark
    return none
  else return some (← bindingName)

/-! ## Decorators -/

/-- A decorator: any expression between parentheses, or a name with its members and calls. -/
def decorator (g : Nested) : Parser Unit := do
  mark "@"
  if ← eat "(" then
    closedExpressions g
    mark ")"
  else
    let name ← boundName
    discard (g.suffixes { brackets := false } (.name name))
    if ← isMark "<" then
      typeArguments g
      ensure (← isMark "(")
    if ← eat "(" then arguments g

/-- The decorators before a part; whether there are any. -/
def decorators (g : Nested) : Parser Bool := do
  if !(← isTyped) then return false
  let list ← many do if ← isMark "@" then return some (← decorator g) else return none
  return !list.isEmpty

end Grammar

end ReferencePages.TypeScript
