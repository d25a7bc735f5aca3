import ReferencePages.TypeScript.Grammar.Primary

/-!
# Expressions

Operators need no order of precedence here: only where an expression ends matters, and whether a
value may be assigned to it.
-/

namespace ReferencePages.TypeScript.Grammar

open TypeScript.Parser

/-! ## What stands behind a value -/

/-- Whether a token begins a value without operators. -/
def startsBase : TokenKind → Bool
  | .word text escaped =>
    escaped || !isReserved text ||
      ["this", "super", "null", "true", "false", "function", "class", "new"].contains text
  | .punct text => ["(", "[", "\x7b", "/", "/="].contains text
  | .invalid => false
  | _ => true

/-- Whether what follows types in angle brackets leaves them with the value before them. Otherwise
the brackets compare values, or belong to a call. -/
def leavesTypes : Parser Bool := do
  if ← atEnd then return true
  else if (← isOneOf ["<", ">", "+", "-", "("]) || (← nextIs TokenKind.isTemplate) then
    return false
  else if (← afterBreak) || (← nextIs TokenKind.isBinaryOperator) then return true
  else if ← isWord "import" then return !(← secondIs (isAmong ["(", "<", "."]))
  else return !(← nextIs startsBase)

/-- Types that a value is given without a call, where there are some. -/
def givenTypes (g : Nested) (form : Form) : Parser Form := do
  if (← isTyped) && (← isMark "<") then
    let types ← attempt do
      typeArguments g
      ensure (← leavesTypes)
    return if types.isSome then .place form.isOptional else form
  else return form

/-- What a call of a form, or a template behind it, is. -/
def called : Form → Form
  | .part true => .part true
  | _ => .value

/-- A template behind a value. -/
def taggedTemplate (g : Nested) : Parser Form := do
  template (closedExpressions g) true
  return .value

/-- Types in angle brackets with the arguments or the template behind them, or without where the
value is assigned to or cast. -/
def typedSuffix (g : Nested) (reach : Reach) (form : Form) : Parser Form := do
  typeArguments g
  if reach.calls && (← isMark "(") then
    mark "("
    arguments g
    return called form
  else if ← nextIs TokenKind.isTemplate then taggedTemplate g
  else
    ensure ((← isMark "=") || (← isOneOfWords ["as", "satisfies"]))
    return .place form.isOptional

/-- A member between brackets, behind the opening one. -/
def bracketMember (g : Nested) : Parser Unit := do
  closedExpressions g
  mark "]"

/-- The name of a member. -/
def memberName : Parser Unit := do
  ensure (← nextIs fun kind => kind.isName || kind.isPrivate)
  discard next

/-- A part of a value that may be missing, behind its mark. -/
def optionalSuffix (g : Nested) (reach : Reach) : Parser Form := do
  if reach.brackets && (← isMark "[") then
    mark "["
    bracketMember g
  else if (← isMark "(") || ((← isTyped) && (← isMark "<")) then
    if ← isMark "<" then typeArguments g
    mark "("
    arguments g
  else memberName
  return .part true

/-- A part behind a value that begins with its mark, where there is one. -/
def plainSuffix (g : Nested) (reach : Reach) (form : Form) : Parser (Option Form) := do
  if ← eat "?." then return some (← optionalSuffix g reach)
  else if reach.brackets && (← isMark "[") then
    mark "["
    bracketMember g
    return some (.part form.isOptional)
  else if reach.calls && (← isMark "(") then
    mark "("
    arguments g
    return some (called form)
  else if ← eat "." then
    memberName
    return some (← givenTypes g (.part form.isOptional))
  else if ← nextIs TokenKind.isTemplate then return some (← taggedTemplate g)
  else return none

/-- A part behind a value, where there is one. -/
def suffix (g : Nested) (reach : Reach) (form : Form) : Parser (Option Form) := do
  let isTyped ← isTyped
  if isTyped && (← isMark "!") && !(← afterBreak) then
    mark "!"
    return some (.place form.isOptional)
  else
    let typed ← if isTyped && (← isMark "<") then attempt (typedSuffix g reach form) else pure none
    match typed with
    | some form => return some form
    | none => plainSuffix g reach form

/-- The members and calls behind a value. -/
def suffixes (g : Nested) (reach : Reach) (form : Form) : Parser Form := grow (suffix g reach) form

/-! ## Values with their members -/

/-- A member or call of the class that a class extends. -/
def superForm (g : Nested) (reach : Reach) : Parser Form := do
  word "super"
  ensure ((← isOneOf [".", "["]) || (reach.calls && (← isMark "(")))
  suffixes g reach .value

/-- A module that is imported where it is needed, or what is told of this one. -/
def importForm (g : Nested) (reach : Reach) : Parser Form := do
  word "import"
  if ← eat "." then
    let part ← name
    if part == "meta" then return (← suffixes g reach .value)
    else ensure (["defer", "source"].contains part)
  ensure reach.calls
  if ← isMark "<" then typeArguments g
  ensure (← isMark "(")
  suffixes g reach .value

/-- A new object. Its class is no member of a value that may be missing. -/
def newForm (g : Nested) : Parser Form := do
  let reach : Reach := { calls := false }
  word "new"
  if ← eat "." then
    word "target"
    suffixes g reach .value
  else
    let form ← g.member
    if form.isArrow then return form
    ensure (form != .part true)
    if ← isMark "<" then
      discard (attempt do
        typeArguments g
        ensure (← isMark "("))
    if ← eat "(" then
      arguments g
      suffixes g reach .value
    else return .value

/-- A value with its members, without calls. -/
def memberForm (g : Nested) : Parser Form := do
  let reach : Reach := { calls := false }
  if ← isWord "new" then newForm g
  else if ← isWord "super" then superForm g reach
  else if ← isWord "import" then importForm g reach
  else
    let form ← primary g
    if form.isArrow then return form
    else suffixes g reach (← givenTypes g form)

/-- A value with its members and calls. -/
def baseForm (g : Nested) : Parser Form := do
  if (← read).language.hasMarkup && (← isMark "<") then elementForm g
  else if ← isWord "super" then superForm g {}
  else if ← isWord "import" then importForm g {}
  else
    let form ← memberForm g
    if form.isArrow then return form else suffixes g {} form

/-! ## Operators -/

/-- Operators before a value that need no value behind them to be let pass. -/
def prefixes : List String := ["delete", "void", "typeof", "+", "-", "~", "!"]

/-- Whether an operator before a value is the next token. -/
def startsPrefix : Parser Bool := do
  if ← isOneOf prefixes then return true else isOneOfWords prefixes

/-- A value that is awaited, behind the word before it, or that word itself as a name. -/
def awaitedForm (g : Nested) : Parser Form := do
  ensure !(← isMark "*")
  let isName ← if (← read).isAsync then pure false
    else if ← endsStatement then pure true
    else isOneOf [")", "]", ","]
  if isName then return .name "await"
  else
    discard g.unary
    return .awaited

/-- A value behind a type in angle brackets. -/
def typeAssertion (g : Nested) : Parser Form := do
  mark "<"
  let isConstant ← eatWord "const"
  if !isConstant then discard g.type
  mark ">"
  discard g.unary
  return if isConstant then .value else .place false

/-- A value with the operators before it, and those that count up or down. -/
def unary (g : Nested) : Parser Form := do
  let language := (← read).language
  if language.isTyped && !language.hasMarkup && (← isMark "<") then typeAssertion g
  else if ← isOneOf ["++", "--"] then
    discard next
    discard g.unary
    return .operation
  else if ← startsPrefix then
    discard next
    discard (salvage g.unary)
    return .sign
  else if ← eatWord "await" then awaitedForm g
  else
    let form ← baseForm g
    if form.isArrow || (← afterBreak) || !(← isOneOf ["++", "--"]) then return form
    else
      discard next
      return .operation

/-- Values with operators between them. The first value may lack. -/
def operation (g : Nested) : Parser Form := do
  match ← salvage (unary g) with
  | some form => if form.isArrow then return form else operators g form
  | none =>
    ensure (← startsOperator)
    operators g .value

/-! ## Expressions -/

/-- Whether a token begins an expression. -/
def startsExpression : TokenKind → Bool
  | .word text escaped =>
    startsBase (.word text escaped) || guardedWords.contains text ||
      ["await", "delete", "import", "typeof", "void", "yield"].contains text
  | .punct text =>
    ["(", "[", "\x7b", "/", "/=", "!", "~", "+", "-", "++", "--", "@", "..."].contains text
  | .invalid => false
  | _ => true

/-- A value that a function yields, where it yields one. -/
def yieldForm (g : Nested) : Parser Form := do
  word "yield"
  let isAll ← isMark "*"
  if isAll then mark "*"
  let isAlone ← if isAll then pure false
    else if ← endsStatement then pure true
    else pure !(← nextIs startsExpression)
  if !isAlone then discard g.expression
  return .value

/-- An expression that is no function with types in angle brackets before its parameters. -/
def plainExpression (g : Nested) : Parser Form := do
  if (← read).isGenerator && (← isWord "yield") then yieldForm g
  else
    let mayBeArrow := (← isMark "(") || (← nextIs TokenKind.isIdentifier)
    let start := (← placeHere).position
    let arrowAt := if mayBeArrow then some start else none
    withReader (fun scope => { scope with arrowAt }) do
      let form ← operation g
      if form.isArrow then return form
      else if ← isMark "?" then
        branches g
        return .operation
      else assignment g form

/-- An arrow function with types in angle brackets before its parameters. -/
def genericArrow (g : Nested) : Parser Form :=
  withReader (fun scope => { scope with endsAtColon := false }) do
    ensure (← secondIs TokenKind.isName)
    typeParameters g
    let form ← plainExpression g
    ensure form.isArrow
    return form

/-- An expression without commas. -/
def expression (g : Nested) : Parser Form := do
  let language := (← read).language
  if !language.isTyped || !(← isMark "<") then plainExpression g
  else if language.hasMarkup then elseTry (plainExpression g) (genericArrow g)
  else firstOf (genericArrow g) (plainExpression g)

end ReferencePages.TypeScript.Grammar
