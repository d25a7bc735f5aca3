import ReferencePages.TypeScript.Grammar.Classes
import ReferencePages.TypeScript.Grammar.Markup

/-!
# Values without operators

What stands between parentheses may be a value, or the parameters of an arrow function; both are
read the same way, and only what follows tells which it is.
-/

namespace ReferencePages.TypeScript.Grammar

open TypeScript.Parser

/-! ## Operators and assignments -/

/-- Marks of more than one character that begin with an angle bracket, no mark before one that it
begins. -/
def angleMarks : List String := [">>>=", ">>>", ">>=", ">>", ">=", "<<=", "<<", "<="]

/-- The mark that is the next token, or that begins with it. -/
def operatorAhead : Parser String := do
  let c ← cursor
  let kind : Option TokenKind := c.token.map (·.kind)
  match kind with
  | some (.punct text) =>
    let long := angleMarks.find? fun mark => (dropPrefix? mark.toList c.here).isSome
    return long.getD text
  | _ => return ""

/-- Read a mark that begins with the next token. -/
def skipOperator (text : String) : Parser Unit := do
  goOn false ((← placeHere).skip text.length)

/-- Marks that assign. -/
def assignments : List String :=
  ["=", "+=", "-=", "*=", "/=", "%=", "**=", "&=", "|=", "^=", "&&=", "||=", "??=", ">>>=", ">>=",
    "<<="]

/-- Marks between two values that begin with an angle bracket. -/
def angleOperators : List String := ["<", "<=", "<<", ">", ">=", ">>", ">>>"]

/-- An operator between two values, with what stands before it: whether other operators do, and
the value next to it. -/
structure Chain where
  isJoined : Bool
  last : Form

/-- Whether an operator between two values is the next token. -/
def startsOperator : Parser Bool := do
  if (← isWord "instanceof") || ((← read).allowsIn && (← isWord "in")) then return true
  else
    let text ← operatorAhead
    return binaryOperators.contains text || angleOperators.contains text

/-- A further operator and the value behind it, where there is one. No value with a sign is raised
to a power. -/
def operator? (g : Nested) (chain : Chain) : Parser (Option Chain) := do
  if (← isTyped) && (← isOneOfWords ["as", "satisfies"]) && !(← afterBreak) then
    let isCast ← eatWord "as"
    if !isCast then word "satisfies"
    if !(isCast && (← eatWord "const")) then discard g.type
    return some { chain with last := .place false }
  else if ← startsOperator then
    let text ← operatorAhead
    ensure !(text == "**" && (chain.last == .sign || chain.last == .awaited))
    if text.isEmpty then discard next else skipOperator text
    return some { isJoined := true, last := ← g.unary }
  else return none

/-- The operators behind a value, with the values behind them. -/
def operators (g : Nested) (form : Form) : Parser Form := do
  let chain ← grow (operator? g) { isJoined := false, last := form }
  return if chain.isJoined then .operation else chain.last

/-- The branches of a condition. -/
def branches (g : Nested) : Parser Unit := do
  mark "?"
  discard (withReader (fun scope => { scope with allowsIn := true, endsAtColon := true })
    g.expression)
  mark ":"
  discard (withReader (fun scope => { scope with endsAtColon := false }) g.expression)

/-- The value that is assigned to a form, where one is. -/
def assignment (g : Nested) (form : Form) : Parser Form := do
  let text ← operatorAhead
  if form == .operation || form == .sign || !assignments.contains text then return form
  else
    ensure (if text == "=" then form.isTarget else form.isAssignable)
    skipOperator text
    discard g.expression
    return .assignment

/-! ## Parentheses and arrow functions -/

/-- An item between parentheses. -/
inductive ParenItem where
  /-- Only a parameter can stand so. -/
  | parameter
  | value (form : Form)
  /-- A value that stands for several. -/
  | spread (form : Form)

namespace ParenItem

/-- Whether an item may be read as a parameter. -/
def isReadable : ParenItem → Bool
  | parameter => true
  | value form => form.isReadable
  | spread form => form.isReadable

/-- Whether an item can only be a parameter. -/
def isParameter : ParenItem → Bool
  | parameter => true
  | _ => false

/-- Whether an item is a value of its own. -/
def isValue : ParenItem → Bool
  | value _ => true
  | _ => false

end ParenItem

/-- Whether a form takes a type as a parameter does. -/
def takesType : Form → Bool
  | .name _ => true
  | .literal _ => true
  | .assignment => true
  | _ => false

/-- A value between parentheses and whether three dots stand before it. Where types are part of
the language, a name may be followed by a question mark that tells that a parameter may lack. A
function without parentheses around its parameter may begin with the item. -/
def parenValue (g : Nested) : Parser (Bool × Form) := do
  let start := (← placeHere).position
  discard eatParameterModifier
  let isName ← nextIs TokenKind.isIdentifier
  let spreadsName := (← isMark "...") && (← secondIs TokenKind.isIdentifier)
  let spreads ← eat "..."
  if (← isTyped) && (isName || spreadsName) then
    let form ← withReader (fun scope => { scope with arrowAt := some start }) g.operation
    if spreads || form.isArrow then return (spreads, form)
    else return (false, ← assignment g form)
  else return (spreads, ← g.expression)

/-- An item between parentheses. -/
def parenItem (g : Nested) : Parser ParenItem := do
  let (spreads, form) ← parenValue g
  let item : ParenItem := if spreads then .spread form else .value form
  if !(← isTyped) then return item
  else
    let isOptional := (← isMark "?") && (← secondIs (isAmong [",", "=", ":", ")"]))
    if isOptional then
      ensure (form matches .name _)
      mark "?"
    if isOptional || (← isMark ":") then
      ensure form.isReadable
      if spreads || takesType form then discard (typeBehindColon g)
      if ← eat "=" then discard g.expression
      return .parameter
    else if !spreads && (← isMark "?") then
      branches g
      return .value .operation
    else return item

/-- The result of an arrow function behind a colon, where one stands between parentheses and an
arrow. -/
def arrowResult (g : Nested) : Parser Bool := do
  if (← isTyped) && !(← read).endsAtColon && (← isMark ":") then
    let result ← attempt do
      resultType g ":"
      ensure (← isMark "=>")
    return result.isSome
  else return false

/-- An arrow function with a result, as the first branch of a condition. Its colon is told from
that of the condition by the one behind the function. -/
def arrowBranch (g : Nested) (isAsync : Bool) : Parser (Option Form) := do
  if (← isTyped) && (← read).endsAtColon && (← isMark ":") then
    attempt do
      resultType g ":"
      mark "=>"
      let hasBlock ← arrowBody g isAsync
      ensure (← isMark ":")
      return .arrow hasBlock
  else return none

/-- An arrow function behind its parameters and result. Operators may follow a block. -/
def arrowRest (g : Nested) (isAsync : Bool) : Parser Form := do
  ensure !(← afterBreak)
  mark "=>"
  let hasBlock ← arrowBody g isAsync
  let goesOn ← nextIs fun kind => kind.isBinaryOperator && kind != .punct "/"
  if hasBlock && goesOn then operators g .operation else return .arrow hasBlock

/-- Values between parentheses, or an arrow function that begins with them. -/
def parenthesized (g : Nested) (mayBeArrow isAsync : Bool) : Parser Form := do
  mark "("
  let items ← enclosed (commaUntil ")" (parenItem g))
  let isReadable := items.all ParenItem.isReadable
  match ← (if isReadable then arrowBranch g isAsync else pure none) with
  | some form => return form
  | none =>
    let hasResult ← arrowResult g
    if hasResult || items.any ParenItem.isParameter || (← isMark "=>") then
      ensure (mayBeArrow && isReadable)
      arrowRest g isAsync
    else if isAsync then return .value
    else
      ensure (!items.isEmpty && items.all ParenItem.isValue)
      return .place false

/-- A name, or an arrow function that begins with one. -/
def nameForm (g : Nested) (mayBeArrow : Bool) : Parser Form := do
  let text ← name
  if !mayBeArrow || (← afterBreak) then return .name text
  else if ← eat "=>" then return .arrow (← arrowBody g false)
  else if text == "async" && (← nextIs TokenKind.isIdentifier) then
    let isLoop := !(← read).allowsIn && (← isWord "of") && !(← secondIs (· == .punct "=>"))
    if isLoop then return .name text
    let parameter ← bindingName
    if (← isTyped) && parameter == "as" && !(← isMark "=>") then
      discard g.type
      return .place false
    else
      mark "=>"
      return .arrow (← arrowBody g true)
  else return .name text

/-- An arrow function that awaits, behind its first word, with parameters of types. -/
def genericAsyncArrow (g : Nested) : Parser Form := do
  typeParameters g
  discard (enclosed (parameters g))
  optionalResult g
  mark "=>"
  return .arrow (← arrowBody g true)

/-- A value that begins with the word `async`. -/
def asyncForm (g : Nested) (mayBeArrow : Bool) : Parser Form := do
  let sameLine := !(← breakBehind)
  if sameLine && (← secondIs (· == .word "function" false)) then
    discard next
    discard next
    functionExpression g true
    return .value
  else
    let isGeneric := mayBeArrow && (← isTyped) && (← secondIs (· == .punct "<"))
    let generic ← if isGeneric then attempt (do discard next; genericAsyncArrow g) else pure none
    match generic with
    | some form => return form
    | none =>
      if mayBeArrow && sameLine && (← secondIs (· == .punct "(")) then
        discard next
        parenthesized g true true
      else nameForm g mayBeArrow

/-! ## Primary values -/

/-- A regular expression, which begins with the slash that is the next token. -/
def regex : Parser Form := do
  let place ← placeHere
  match regexLength false (place.text.drop 1) with
  | some length =>
    goOn true (place.skip (length + 1))
    return .value
  | none => refuseToken

/-- A value that begins with a word. -/
def wordForm (g : Nested) (mayBeArrow : Bool) (text : String) : Parser Form := do
  match text with
  | "this" | "null" | "true" | "false" =>
    discard next
    return .value
  | "function" =>
    discard next
    functionExpression g false
    return .value
  | "class" =>
    discard next
    classExpression g
    return .value
  | "async" => asyncForm g mayBeArrow
  | _ =>
    ensure (text == "let" || !isReserved text)
    nameForm g mayBeArrow

/-- A value that stands alone. -/
def literalForm : Parser Form := do
  discard next
  return .value

/-- A class behind its decorators, or a name that they are let pass before. -/
def decoratedForm (g : Nested) : Parser Form := do
  ensure (← decorators g)
  match ← peek? with
  | some ⟨.word text false, _, _, _⟩ =>
    ensure (text == "class" || text == "let" || !isReserved text)
    wordForm g false text
  | _ => refuse

/-- A value without operators, members and calls. -/
def primary (g : Nested) : Parser Form := do
  let mayBeArrow := (← read).arrowAt == some (← placeHere).position
  let kind : Option TokenKind := (← peek?).map (·.kind)
  match kind with
  | some (.word text false) => wordForm g mayBeArrow text
  | some (.word _ true) => nameForm g mayBeArrow
  | some (.privateName _) => literalForm
  | some (.number _ _) => literalForm
  | some (.bigint _) => literalForm
  | some (.string _) => literalForm
  | some (.template _ _) =>
    template (closedExpressions g) false
    return .value
  | some (.punct "(") => parenthesized g mayBeArrow false
  | some (.punct "[") => arrayLiteral g
  | some (.punct "\x7b") => objectLiteral g
  | some (.punct "/") => regex
  | some (.punct "/=") => regex
  | some (.punct "@") => decoratedForm g
  | _ => refuse

end ReferencePages.TypeScript.Grammar
