import ReferencePages.TypeScript.Grammar.Expressions

/-!
# Declarations

Many words that begin a declaration may also name values. They declare something only with what
stands behind them, unless nothing but a declaration can stand in their place.
-/

namespace ReferencePages.TypeScript.Grammar

open TypeScript.Parser

/-! ## Variables -/

/-- Whether what follows the word `let` makes it a keyword. -/
def followsLet : TokenKind → Bool
  | .word name escaped =>
    escaped || !keywords.contains name || ["let", "yield", "await"].contains name
  | kind => isAmong ["\x7b", "["] kind

/-- Whether variables are declared here. -/
def startsVariables : Parser Bool := do
  if ← isOneOfWords ["var", "const"] then return true else isWordBefore "let" followsLet

/-- A variable with its type and value; its name, where it is plain. A pattern takes its value
apart: there is one, unless the variable is ambient or a constant, or belongs to a loop, which gives
it one. -/
def variableName (g : Nested) (keyword : String) (isLoop : Bool) : Parser (Option String) := do
  ensure !(keyword != "var" && (← isWord "let"))
  let name ← g.pattern
  if (← isTyped) && name.isSome then discard (eat "!")
  discard (typeBehindColon g)
  let isGiven := isLoop && (← isOneOfWords ["in", "of"])
  if !isGiven then
    if ← eat "=" then discard g.expression
    else ensure (name.isSome || (← isAmbient) || (keyword == "const" && !isLoop))
  return name

/-- Variables behind their keyword; the name of the first, where it is plain. There may be none. -/
def variableList (g : Nested) (keyword : String) (isLoop : Bool) : Parser (Option String) := do
  let further : Parser (Option (Option String)) := do
    if (← isMark ";") || (← atEnd) then return none
    else return some (← variableName g keyword isLoop)
  match ← further with
  | none => return none
  | some first =>
    discard (many do if ← eat "," then further else return none)
    return first

/-- The end of variables. What else stands on their line is let pass, up to a semicolon; a slash
behind a variable divides. -/
def variablesEnd (g : Nested) : Parser Unit := do
  if !(← eatEnd) then
    discard (salvage (do if ← isMark "/" then operators g .value else expressions g))
    discard (many do
      if ← eatEnd then return none
      else
        ensure !(← nextIs (· == .invalid))
        return some (← next))

/-- Variables; the name of the first, where it is plain. -/
def variableStatement (g : Nested) : Parser Declaration := do
  let keyword ← name
  let first ← variableList g keyword false
  variablesEnd g
  return .variableDecl first

/-- Variables whose values are closed at the end of their block, behind the word before them. -/
def usedVariables (g : Nested) : Parser Declaration := do
  word "using"
  discard (variableList g "var" false)
  return .other

/-- Whether the next word declares variables whose values are closed at the end of their block. -/
def startsUse : Parser Bool := do
  return (← isWordBefore "using" TokenKind.isIdentifier) && !(← breakBehind)

/-! ## Enumerations and namespaces -/

/-- The key of a member of an enumeration. -/
def enumKey (g : Nested) : Parser Unit := do
  match (← next).kind with
  | .word _ _ => return
  | .number _ _ => return
  | .string _ => return
  | .punct "[" =>
    closedExpressions g
    mark "]"
  | _ => refuse

/-- A member of an enumeration. A comma may lack behind a value; behind a key without one, two
tokens in place of the comma are let pass. -/
def enumMember (g : Nested) : Parser Unit := do
  enumKey g
  if ← isMark "=" then
    initializer g
    discard (eat ",")
  else if !(← isOneOf [",", "\x7d"]) then
    discard next
    discard next
  else discard (eat ",")

/-- An enumeration behind its keyword. -/
def enumDeclaration (g : Nested) : Parser Declaration := do
  discard name
  mark "\x7b"
  discard (manyUntil "\x7d" (enumMember g))
  return .other

/-- What is declared in a namespace. -/
def namespaceBody (g : Nested) : Parser (List Item) := do
  mark "\x7b"
  withReader (fun scope => { scope with isModule := true }) (blockOf g.item)

/-- A namespace behind its keyword; names with dots between nest. -/
def namespaceDeclaration (g : Nested) : Parser Declaration := do
  let name ← name
  discard (many do if ← eat "." then return some (← Parser.name) else return none)
  return .namespaceDecl name (← namespaceBody g)

/-- A module that is told of under a name; what it declares may lack. -/
def ambientModule (g : Nested) (name : String) : Parser Declaration := do
  if ← isMark "\x7b" then return .namespaceDecl name (← namespaceBody g)
  else
    semicolon
    return .namespaceDecl name []

/-! ## Classes, functions and types -/

/-- A class behind its keyword. -/
def classDeclaration (g : Nested) : Parser Declaration := do
  ensure !(← isWord "let")
  let name ← bindingName
  return .classDecl name (← classRest g)

/-- A function behind its keyword. -/
def functionDeclaration (g : Nested) (isAsync : Bool) : Parser Declaration := do
  let isGenerator ← eat "*"
  let name ← bindingName
  discard (functionRest g { isAsync, isGenerator })
  return .functionDecl name

/-- What stands between the name of an interface and its members. Whatever it extends a second time
is let pass. -/
def interfaceHead (g : Nested) : Parser Unit := do
  optionalTypeParameters g
  if ← eatWord "extends" then heritage g
  if ← isWord "extends" then
    discard (many do
      if (← isMark "\x7b") || (← atEnd) then return none else return some (← next))

/-- An interface behind its keyword. -/
def interfaceDeclaration (g : Nested) : Parser Declaration := do
  let name ← name
  interfaceHead g
  return .interfaceDecl name (← typeMembers g)

/-- A type alias behind its keyword. -/
def aliasDeclaration (g : Nested) : Parser Declaration := do
  let name ← name
  optionalTypeParameters g
  mark "="
  discard g.type
  semicolon
  return .typeAlias name

/-! ## Words that begin declarations -/

/-- A declaration behind a word that has been read, where the word begins one. `isSure` tells that
nothing but a declaration can stand here. -/
def declarationBehind (g : Nested) (text : String) (isSure : Bool) :
    Parser (Option Declaration) := do
  let isNamed := isSure || (← nextIs TokenKind.isIdentifier)
  let isNear := isSure || !(← afterBreak)
  match text with
  | "abstract" =>
    if isNear && (isSure || (← isWord "class")) then
      word "class"
      return some (← classDeclaration g)
    else return none
  | "enum" => if isNamed then return some (← enumDeclaration g) else return none
  | "interface" => if isNamed then return some (← interfaceDeclaration g) else return none
  | "module" =>
    if isNear && (← nextIs TokenKind.isString) then return some (← ambientModule g (← string))
    else if isNear && isNamed then return some (← namespaceDeclaration g)
    else return none
  | "namespace" => if isNamed then return some (← namespaceDeclaration g) else return none
  | "type" => if isNear && isNamed then return some (← aliasDeclaration g) else return none
  | _ => return none

/-- Words that begin a declaration, where nothing else can stand. -/
def declarationWords : List String :=
  ["abstract", "enum", "interface", "module", "namespace", "type"]

/-- A declaration, where nothing else can stand. The word `module` stands on the line of the word
before it. -/
def sureDeclaration (g : Nested) : Parser (Option Declaration) := do
  let text := (← wordAhead?).getD ""
  if !declarationWords.contains text || (text == "module" && (← afterBreak)) then return none
  else
    discard next
    declarationBehind g text true

/-- A declaration behind the word `declare`, where there is one. -/
def ambientDeclaration (g : Nested) : Parser (Option Declaration) :=
  withReader (fun scope => { scope with language.isAmbient := true }) do
    if ← eatWord "function" then return some (← functionDeclaration g false)
    else if ← eatWord "class" then return some (← classDeclaration g)
    else if ← isWordBefore "const" (· == .word "enum" false) then
      discard next
      discard next
      return some (← enumDeclaration g)
    else if ← isOneOfWords ["const", "var", "let"] then return some (← variableStatement g)
    else if ← eatWord "global" then return some (← ambientModule g "global")
    else sureDeclaration g

/-- A declaration behind a word that has been read as an expression, where the word begins one. -/
def typedDeclaration (g : Nested) (text : String) : Parser (Option Declaration) := do
  if !(← isTyped) then return none
  else
    match text with
    | "declare" => ambientDeclaration g
    | "global" =>
      if ← isMark "\x7b" then return some (.namespaceDecl "global" (← namespaceBody g))
      else return none
    | _ =>
      match ← declarationBehind g text false with
      | some declaration => return some declaration
      | none =>
        if text == "abstract" && (← eatWord "interface") then
          return some (← interfaceDeclaration g)
        else return none

end ReferencePages.TypeScript.Grammar
