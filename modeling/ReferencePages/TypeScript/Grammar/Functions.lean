import ReferencePages.TypeScript.Grammar.Basic

/-!
# Functions

The parameters, results and bodies that functions, methods and their types have in common.
-/

namespace ReferencePages.TypeScript.Grammar

open TypeScript.Parser

/-! ## Parameters of types -/

/-- Words that may stand before a parameter of a type. -/
def typeParameterModifiers : List String :=
  ["public", "private", "protected", "readonly", "abstract", "const", "override", "in", "out"]

/-- A parameter of a type. -/
def typeParameter (g : Nested) : Parser Unit := do
  discard (many (eatModifier typeParameterModifiers))
  discard name
  if ← eatWord "extends" then discard g.type
  if ← eat "=" then discard g.type

/-- The parameters of a type between angle brackets. -/
def typeParameters (g : Nested) : Parser Unit := do
  mark "<"
  discard (commaUntil ">" (typeParameter g))

/-- The parameters of a type, where there are some. -/
def optionalTypeParameters (g : Nested) : Parser Unit := do
  if (← isTyped) && (← isMark "<") then typeParameters g

/-! ## Parameters -/

/-- The name or pattern of a parameter with its type and value; whether it has no value, and its
name, where it is plain. -/
def plainParameter (g : Nested) : Parser (Bool × Option String) := do
  discard eatParameterModifier
  let name ← g.pattern
  if ← isTyped then discard (eat "?")
  discard (typeBehindColon g)
  let lacksValue := !(← isMark "=")
  initializer g
  return (lacksValue, name)

/-- A parameter, or all that are left over; whether it has no value. -/
def parameter (g : Nested) : Parser Bool := do
  discard (decorators g)
  if ← eat "..." then
    discard g.pattern
    initializer g
    discard (typeBehindColon g)
    if ← isTyped then discard (eat "?")
    return true
  else return (← plainParameter g).1

/-- Parameters between parentheses; for each of them, whether it has no value. -/
def parameters (g : Nested) : Parser (List Bool) := do
  mark "("
  commaUntil ")" (parameter g)

/-! ## Results -/

/-- Whether the word `is` stands behind the next token, on its line. -/
def secondIsTest : Parser Bool := do
  return (← second?).any fun token => !token.newline && token.kind == .word "is" false

/-- The result of a function, behind a mark. It may tell what type a parameter has, or assert
something of it. -/
def resultType (g : Nested) (before : String) : Parser Unit := do
  mark before
  let asserts ← isWordBefore "asserts" TokenKind.isIdentifier
  if asserts then discard next
  if (← nextIs TokenKind.isIdentifier) && (← secondIsTest) then
    discard next
    discard next
    discard g.type
  else if asserts then discard next
  else discard g.type

/-- The result of a function behind a colon, where it is told. -/
def optionalResult (g : Nested) : Parser Unit := do
  if (← isTyped) && (← isMark ":") then resultType g ":"

/-- Parameters and result of a function that is only described. No parameter may have a value. -/
def signature (g : Nested) : Parser (List Bool) := do
  optionalTypeParameters g
  let list ← parameters g
  ensure (list.all id)
  if ← isMark ":" then resultType g ":"
  return list

/-! ## Bodies -/

/-- Statements between braces. -/
def block (g : Nested) : Parser Unit := do
  mark "\x7b"
  discard (withReader (fun scope => { scope with isModule := false }) (blockOf g.item))

/-- What kind of function a part belongs to. -/
structure FunctionKind where
  isAsync : Bool := false
  isGenerator : Bool := false

/-- Read a part of a function. -/
def within {α : Type} (kind : FunctionKind) (p : Parser α) : Parser α :=
  withReader
    (fun scope => { scope with isAsync := kind.isAsync, isGenerator := kind.isGenerator }) p

/-- The body of a function; whether there is one. A declaration of types has none. -/
def optionalBody (g : Nested) : Parser Bool := do
  if (← isTyped) && !(← isMark "\x7b") then
    semicolon
    return false
  else
    block g
    return true

/-- The parameters, result and body of a function; whether it has a body. -/
def functionRest (g : Nested) (kind : FunctionKind) : Parser Bool :=
  within kind do
    optionalTypeParameters g
    discard (enclosed (parameters g))
    optionalResult g
    optionalBody g

/-- The body of an arrow function; whether it is a block. -/
def arrowBody (g : Nested) (isAsync : Bool) : Parser Bool :=
  within { isAsync } do
    if ← isMark "\x7b" then
      block g
      return true
    else
      discard g.expression
      return false

/-- A function expression behind its keyword. -/
def functionExpression (g : Nested) (isAsync : Bool) : Parser Unit := do
  let isGenerator ← eat "*"
  optionalName
  ensure (← functionRest g { isAsync, isGenerator })

end ReferencePages.TypeScript.Grammar
