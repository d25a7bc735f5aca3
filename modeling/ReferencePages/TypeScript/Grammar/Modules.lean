import ReferencePages.TypeScript.Grammar.Statements

/-!
# Imports and exports

Imports and exports stand only at the top of a source or of a namespace. Of an export, the
declaration is kept behind it; of an import, nothing.
-/

namespace ReferencePages.TypeScript.Grammar

open TypeScript.Parser

/-! ## Modules that names come from -/

/-- What is told of an imported module. -/
def importAttributes (g : Nested) : Parser Unit := do
  if !(← afterBreak) && (← isOneOfWords ["with", "assert"]) then
    discard next
    discard (objectLiteral g)

/-- The module that names come from. -/
def moduleSource (g : Nested) : Parser Unit := do
  discard string
  importAttributes g
  semicolon

/-- The word `from` and the module that names come from. -/
def fromModule (g : Nested) : Parser Unit := do
  word "from"
  moduleSource g

/-- A name under which a module exports something; whether it is a string. -/
def exportedName : Parser Bool := do
  if ← nextIs TokenKind.isString then
    discard string
    return true
  else
    discard name
    return false

/-- Names between braces. -/
def specifiers (p : Parser Unit) : Parser Unit := do
  mark "\x7b"
  discard (commaUntil "\x7d" p)

/-! ## Imports -/

/-- A name behind the word `type`, which may itself be imported. It is bound under its own name,
or under one behind the word `as`. -/
def typeSpecifier (bind : Parser Unit) : Parser Bool := do
  if ← eatWord "as" then
    if ← nextIs TokenKind.isName then
      let isAs ← isWord "as"
      bind
      if isAs && (← nextIs TokenKind.isName) then bind
    return false
  else
    discard name
    return true

/-- A name that is imported. One that is reserved, or a string, is bound under another name. -/
def importSpecifier : Parser Unit := do
  let bind : Parser Unit := discard bindingName
  let isType := (← isTyped) && (← isWordBefore "type" TokenKind.isName)
  if isType then
    discard name
    let first := (← wordAhead?).getD ""
    let goesOn ← typeSpecifier bind
    if goesOn then
      if ← eatWord "as" then bind else ensure !(isReserved first)
  else
    let first := (← wordAhead?).getD ""
    let isString ← exportedName
    if ← eatWord "as" then bind else ensure !(isString || isReserved first)

/-- What is imported under names of its own, where there is something. -/
def importedNames : Parser Unit := do
  if ← eat "*" then
    word "as"
    discard bindingName
  else if ← isMark "\x7b" then specifiers importSpecifier

/-- The module or entity that an imported name stands for, behind the equals sign. -/
def importEquals : Parser Unit := do
  mark "="
  if ← isWordBefore "require" (· == .punct "(") then
    discard next
    mark "("
    discard string
    mark ")"
  else entityName boundName
  semicolon

/-- Whether a name follows that is bound, and not the word `from` before the module. -/
def startsBinding : Parser Bool := do
  if !(← nextIs TokenKind.isIdentifier) then return false
  else return !(← isWord "from") || (← secondIs (· == .word "from" false))

/-- What is imported behind a name, up to the module it comes from. -/
def importedRest : Parser Unit := do if ← eat "," then importedNames

/-- What is imported, behind a name that it begins with. -/
def importBehind (g : Nested) (text : String) : Parser Unit := do
  let isTyped ← isTyped
  let isType := isTyped && text == "type"
  if isType && (← isOneOf ["*", "\x7b"]) then
    importedNames
    fromModule g
  else
    let isPhase := text == "source" || text == "defer"
    if (isType || isPhase) && (← startsBinding) then discard bindingName
    else if isType && (← isWordBefore "from" (· == .punct "=")) then discard name
    if isTyped && (← isMark "=") then importEquals
    else
      if text == "defer" && (← isMark "*") then importedNames else importedRest
      fromModule g

/-- An import behind its keyword. -/
def importRest (g : Nested) : Parser Unit := do
  if ← nextIs TokenKind.isString then moduleSource g
  else if ← nextIs TokenKind.isIdentifier then importBehind g (← bindingName)
  else
    importedNames
    fromModule g

/-! ## Exports of names -/

/-- A name that is exported. -/
def exportSpecifier : Parser Unit := do
  let isType := (← isTyped) && (← isWordBefore "type" TokenKind.isName)
  let goesOn ← if isType then
      discard name
      typeSpecifier (discard name)
    else
      discard exportedName
      pure true
  if goesOn then
    if ← eatWord "as" then discard exportedName

/-- Names that are exported. `hasFirst` tells that the first of them has been read. Without types,
one may be named outside of the braces. -/
def exportedNames (g : Nested) (hasFirst : Bool) : Parser Unit := do
  let isTyped ← isTyped
  let isNamed := !hasFirst && !isTyped && (← nextIs TokenKind.isIdentifier)
  if isNamed then discard name
  let hasFirst := hasFirst || isNamed
  if !hasFirst && (← isMark "*") && !(← secondIs (· == .word "as" false)) then
    mark "*"
    fromModule g
  else
    if hasFirst && (← isMark ",") && (← secondIs (· == .punct "*")) then mark ","
    let hasAll ← eat "*"
    if hasAll then
      word "as"
      discard exportedName
    if (hasFirst || hasAll) && (← isWord "from") then fromModule g
    else
      if hasFirst || hasAll then
        ensure !isTyped
        mark ","
      specifiers exportSpecifier
      if ← isWord "from" then fromModule g else discard eatEnd

/-! ## Exports of declarations -/

/-- A default export behind its keywords; whether it takes the default of another module. -/
def defaultExport (g : Nested) : Parser Bool := do
  discard (decorators g)
  let isTyped ← isTyped
  let isNear := !(← breakBehind)
  if isTyped && isNear && (← isWordBefore "abstract" (· == .word "class" false)) then
    discard next
    discard next
    classExpression g
    return false
  if isTyped && (← isWordBefore "abstract" (· == .word "interface" false)) then discard next
  if isTyped && (← eatWord "interface") then
    discard (interfaceDeclaration g)
    return false
  else if ← eatWord "class" then
    classExpression g
    return false
  else if (isNear && (← isWordBefore "async" (· == .word "function" false))) ||
      (← isWord "function") then
    let isAsync ← eatWord "async"
    word "function"
    let isGenerator ← eat "*"
    optionalName
    discard (functionRest g { isAsync, isGenerator })
    return false
  else if !isTyped && ((← isWordBefore "from" TokenKind.isString) ||
      ((← isMark ",") && (← secondIs (isAmong ["\x7b", "*"])))) then
    return true
  else
    discard (enclosed g.expression)
    semicolon
    return false

/-- A declaration behind the word `export` that needs no types, where there is one. -/
def exportedDeclaration (g : Nested) : Parser (Option Declaration) := do
  if ← eatWord "class" then return some (← classDeclaration g)
  else if (← isWordBefore "async" (· == .word "function" false)) && !(← breakBehind) then
    discard next
    discard next
    return some (← functionDeclaration g true)
  else if ← eatWord "function" then return some (← functionDeclaration g false)
  else if (← isTyped) && (← isWordBefore "const" (· == .word "enum" false)) then
    discard next
    discard next
    return some (← enumDeclaration g)
  else if ← startsVariables then return some (← variableStatement g)
  else return none

/-- An export that declares nothing, of languages with types; whether there is one. -/
def entityExport (g : Nested) : Parser Bool := do
  if ← eatWord "import" then
    if ← isWordBefore "type" TokenKind.isIdentifier then discard next
    discard name
    importEquals
    return true
  else if ← eat "=" then
    closedExpressions g
    semicolon
    return true
  else if ← eatWord "as" then
    word "namespace"
    discard boundName
    semicolon
    return true
  else return false

/-- A declaration behind the words `export` and `declare`, where there is one. -/
def declaredExport (g : Nested) : Parser (Option Declaration) := do
  if ← eatWord "declare" then ambientDeclaration g else return none

/-- An export of languages with types, where there is one. Nothing is declared by it, unless the
result tells a declaration. -/
def typedExport (g : Nested) : Parser (Option (Option Declaration)) := do
  match ← declaredExport g with
  | some declaration => return some declaration
  | none =>
    match ← attempt (sureDeclaration g) with
    | some (some declaration) => return some declaration
    | _ => if ← entityExport g then return some none else return none

/-- What is exported, as the words before it tell. -/
structure ExportKind where
  /-- Only types are. -/
  isType : Bool
  /-- A default is, which has been read, unless it is that of another module. -/
  isDefault : Bool
  /-- The default of another module is. -/
  takesDefault : Bool

/-- The words `type` and `default` behind the word `export`, and a default export. -/
def exportKind (g : Nested) : Parser ExportKind := do
  let isType ← if ← isTyped then eatWord "type" else pure false
  let isDefault ← if isType then pure false else eatWord "default"
  let takesDefault ← if isDefault then defaultExport g else pure false
  return { isType, isDefault, takesDefault }

/-- An export of any language, where none stands that only languages with types have. `isDecorated`
tells whether decorators stand before the word `export`. -/
def plainExport (g : Nested) (isDecorated : Bool) : Parser (Option Declaration) := do
  let kind ← exportKind g
  if kind.isDefault && !kind.takesDefault then return none
  else
    ensure !((← decorators g) && isDecorated)
    match ← (if kind.isType || kind.isDefault then pure none else exportedDeclaration g) with
    | some declaration => return some declaration
    | none =>
      exportedNames g kind.takesDefault
      return none

/-- An export behind its keyword; the declaration, where there is one. `isDecorated` tells whether
decorators stand before the keyword; then none stand behind it. -/
def exportRest (g : Nested) (isDecorated : Bool) : Parser (Option Declaration) := do
  match ← (if ← isTyped then typedExport g else pure none) with
  | some declaration => return declaration
  | none => plainExport g isDecorated

/-- An export. -/
def exportItem (g : Nested) (isDecorated : Bool) : Parser Item := do
  let (site, declaration?) ← located do
    word "export"
    enclosed (exportRest g isDecorated)
  match declaration? with
  | some declaration => return .exported site declaration
  | none => return .other

/-- A statement or declaration. -/
def item (g : Nested) : Parser Item := do
  let isDecorated ← decorators g
  if ← isWord "export" then
    ensure (← read).isModule
    exportItem g isDecorated
  else if (← isWord "import") && !(← secondIs (isAmong ["(", "."])) then
    ensure (← read).isModule
    discard next
    enclosed (importRest g)
    return .other
  else statementItem g

end ReferencePages.TypeScript.Grammar
