import ReferencePages.TypeScript.Grammar.Declarations

/-!
# Statements

Of a statement, only the declaration is kept that it may be.
-/

namespace ReferencePages.TypeScript.Grammar

open TypeScript.Parser

/-! ## Loops -/

/-- An expression between parentheses. -/
def condition (g : Nested) : Parser Unit := do
  mark "("
  closedExpressions g
  mark ")"

/-- Whether the values of a loop stand here, though no variable is declared for them. -/
def lacksVariable (g : Nested) : Parser Bool := ahead do
  ensure ((← isTyped) && (← isOneOfWords ["of", "in"]))
  discard next
  discard g.expression
  isMark ")"

/-- The values that a loop runs over, behind its variable; whether it takes the elements. -/
def loopValues (g : Nested) : Parser Bool := do
  if ← eatWord "of" then
    discard (enclosed g.expression)
    return true
  else
    word "in"
    closedExpressions g
    return false

/-- The condition and the step of a loop, behind its start. -/
def loopRest (g : Nested) : Parser Bool := do
  if !(← eat ";") then
    closedExpressions g
    discard (eat ";")
  if !(← isMark ")") then closedExpressions g
  return false

/-- The variables or the start of a loop are followed by values to run over, or by a condition and
a step; whether the loop takes the elements of a value. -/
def loopSteps (g : Nested) : Parser Bool := do
  if ← isOneOfWords ["of", "in"] then loopValues g
  else
    mark ";"
    loopRest g

/-- The start of a loop that declares no variables. A name behind the word `using` is declared. -/
def loopStart (g : Nested) : Parser Unit := do
  let isAwaited ← isWordBefore "await" (· == .word "using" false)
  let form ← withReader (fun scope => { scope with allowsIn := false }) (expressions g)
  let isUse := form == .name "using" || (isAwaited && form == .awaited)
  let endsName (kind : TokenKind) : Bool := kind == .word "of" false || kind == .word "in" false
  if isUse && !(← isWord "of") && (← secondIs endsName) then discard bindingName
  else if ← isOneOfWords ["of", "in"] then ensure form.isReadable

/-- What stands between the parentheses of a loop; whether it takes the elements of a value. -/
def loopHead (g : Nested) : Parser Bool := do
  if ← startsVariables then
    let keyword ← name
    if !(← lacksVariable g) then
      let allowsIn := keyword != "var"
      discard (withReader (fun scope => { scope with allowsIn }) (variableList g keyword true))
    loopSteps g
  else if ← eat ";" then loopRest g
  else
    loopStart g
    loopSteps g

/-- A loop behind its keyword. One that awaits takes the elements of a value. -/
def forStatement (g : Nested) : Parser Unit := do
  let isAwaited ← eatWord "await"
  mark "("
  let isOverElements ← loopHead g
  ensure (!isAwaited || isOverElements)
  mark ")"
  g.statement

/-! ## Statements with keywords -/

/-- A case of a `switch` statement; whether it is the one for all other values. -/
def switchCase (g : Nested) : Parser Bool := do
  let isDefault ← eatWord "default"
  if !isDefault then
    word "case"
    closedExpressions g
  mark ":"
  discard (many do
    if (← isOneOfWords ["case", "default"]) || (← isMark "\x7d") || (← atEnd) then return none
    else return some (← g.item))
  return isDefault

/-- The cases of a `switch` statement. At most one is for all other values. -/
def switchCases (g : Nested) : Parser Unit := do
  mark "\x7b"
  let kinds ← many do
    if ← isOneOfWords ["case", "default"] then return some (← switchCase g) else return none
  ensure (kinds.count true ≤ 1)
  mark "\x7d"

/-- What is done where an error is caught. -/
def catchClause (g : Nested) : Parser Unit := do
  if ← eatWord "catch" then
    if ← eat "(" then
      discard g.pattern
      discard (typeBehindColon g)
      mark ")"
    block g

/-- What is done at last. -/
def finallyClause (g : Nested) : Parser Unit := do if ← eatWord "finally" then block g

/-- The rest of a statement behind its keyword. -/
def keywordRest (g : Nested) (keyword : String) : Parser Unit := do
  match keyword with
  | "if" =>
    condition g
    g.statement
    if ← eatWord "else" then g.statement
  | "for" => forStatement g
  | "do" =>
    g.statement
    word "while"
    condition g
    discard eatEnd
  | "return" =>
    if !(← endsStatement) then closedExpressions g
    semicolon
  | "throw" =>
    ensure !(← afterBreak)
    closedExpressions g
    semicolon
  | "try" =>
    block g
    catchClause g
    finallyClause g
  | "switch" =>
    condition g
    switchCases g
  | "break" | "continue" =>
    if !(← endsStatement) then discard bindingName
    semicolon
  | "debugger" => semicolon
  | _ =>
    condition g
    g.statement

/-- Keywords that begin a statement and nothing else. -/
def statementWords : List String :=
  ["if", "for", "do", "return", "throw", "try", "switch", "break", "continue", "debugger", "while",
    "with"]

/-! ## Expressions as statements -/

/-- The end of an expression. Operators may follow in place of a semicolon. -/
def expressionEnd (g : Nested) : Parser Unit := do
  if !(← eatEnd) then
    ensure (← nextIs TokenKind.isBinaryOperator)
    discard (operators g .value)

/-- A statement that begins as an expression: a label, a declaration, or the expression alone. -/
def expressionStatement (g : Nested) : Parser (Option Declaration) := do
  let form ← expressions g
  match form with
  | .name text =>
    if ← eat ":" then
      g.statement
      return none
    else
      match ← typedDeclaration g text with
      | some declaration => return some declaration
      | none =>
        expressionEnd g
        return none
  | _ =>
    expressionEnd g
    return none

/-- A statement that begins by awaiting a value under the name `using`, or by declaring one that is
awaited at the end of its block. -/
def awaitedUse (g : Nested) : Parser (Option Declaration) := do
  word "await"
  if ← startsUse then return some (← usedVariables g)
  else
    discard (operators g (← awaitedForm g))
    discard eatEnd
    return none

/-! ## Statements -/

/-- Words that begin a declaration and never name a value. -/
def guardedDeclarations : List String := ["interface", "enum"]

/-- A declaration that begins with a word that never names a value, where there is one. `isPart`
tells whether it would be a part of another statement, where less can be declared. -/
def plainDeclaration (g : Nested) (isPart : Bool) : Parser (Option Declaration) := do
  let isTyped ← isTyped
  if isTyped && (← isWordBefore "const" (· == .word "enum" false)) then
    discard next
    discard next
    return some (← enumDeclaration g)
  else if ← eatWord "function" then return some (← functionDeclaration g false)
  else if (← isWordBefore "async" (· == .word "function" false)) && !(← breakBehind) then
    discard next
    discard next
    return some (← functionDeclaration g true)
  else if ← eatWord "class" then return some (← classDeclaration g)
  else if (← isWord "var") || (!isPart && (← startsVariables)) then
    return some (← variableStatement g)
  else if !isPart && (← startsUse) then return some (← usedVariables g)
  else if isTyped && (← isOneOfWords guardedDeclarations) then
    ensure !(← breakBehind)
    let text ← name
    ensure (← nextIs TokenKind.isIdentifier)
    declarationBehind g text false
  else return none

/-- A statement or declaration; the declaration, where it is one. -/
def statementShape (g : Nested) (isPart : Bool) : Parser (Option Declaration) := do
  match ← plainDeclaration g isPart with
  | some declaration => return some declaration
  | none =>
    if ← isMark "\x7b" then
      block g
      return none
    else if ← eat ";" then return none
    else if ← isOneOfWords statementWords then
      keywordRest g (← name)
      return none
    else if ← isOneOfWords ["catch", "finally"] then
      discard (salvage (catchClause g))
      discard (salvage (finallyClause g))
      return none
    else if ← isWord "import" then
      ensure (← secondIs (isAmong ["(", "."]))
      discard (expressions g)
      discard eatEnd
      return none
    else if !isPart && (← isWordBefore "await" (· == .word "using" false)) then awaitedUse g
    else expressionStatement g

/-- A statement that is part of another. -/
def statement (g : Nested) : Parser Unit := do
  discard (decorators g)
  discard (enclosed (statementShape g true))

/-- A statement or declaration that is no part of another. -/
def statementItem (g : Nested) : Parser Item := do
  match ← located (enclosed (statementShape g false)) with
  | (site, some declaration) => return .declared site declaration
  | (_, none) => return .other

end ReferencePages.TypeScript.Grammar
