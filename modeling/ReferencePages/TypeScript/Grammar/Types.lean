import ReferencePages.TypeScript.Grammar.Literals

/-!
# Types

Of a type, only the members of object types are kept. A type may depend on a condition, except
where another condition tells what the type extends.
-/

namespace ReferencePages.TypeScript.Grammar

open TypeScript.Parser

/-! ## Members of object types -/

/-- The end of a member. -/
def memberEnd : Parser Unit := do if !(← eat ",") then semicolon

/-- The text of the source that a parser reads. -/
def spanOf (p : Parser Form) : Parser (Span × Form) := do
  let (site, form) ← located p
  return (site.span, form)

/-- The key of a member: a name, or the text of any other key. -/
def typeKey (g : Nested) : Parser Key := do
  if ← eat "[" then
    let (span, form) ← spanOf (enclosed g.expression)
    mark "]"
    match form with
    | .name text => return .named text
    | _ => return .source span
  else
    let isLiteral ← nextIs fun
      | .string _ => true
      | .number _ _ => true
      | _ => false
    if isLiteral then return .source (← spanOf g.member).1
    else
      let token ← next
      match token.kind with
      | .word name _ => return .named name
      | .privateName _ => return .source token.span
      | _ => refuse

/-- Whether an index signature begins here. A comma in place of the colon is let pass. -/
def startsIndex : Parser Bool := ahead do
  mark "["
  discard identifier
  isOneOf [":", ","]

/-- An index signature: a name with its type, in brackets, and the type of what it leads to. -/
def indexSignature (g : Nested) : Parser Unit := do
  mark "["
  discard identifier
  discard next
  discard g.type
  mark "]"
  discard (typeBehindColon g)
  memberEnd

/-- What a member is: its key, where it has one, and what is kept of its type. -/
abbrev MemberShape := Option Key × TypeShape

/-- A member that reads or writes a property; what writes it takes a value. -/
def accessorMember (g : Nested) : Parser MemberShape := do
  let reads ← eatWord "get"
  if !reads then word "set"
  let key ← typeKey g
  if reads then
    mark "("
    mark ")"
    discard (typeBehindColon g)
  else
    let list ← parameters g
    ensure (!list.isEmpty && list.all id)
  memberEnd
  return (some key, none)

/-- A property or method. A method is not read-only. -/
def namedMember (g : Nested) (isReadonly : Bool) : Parser MemberShape := do
  let key ← typeKey g
  discard (eat "?")
  if ← startsMethod then
    ensure !isReadonly
    discard (signature g)
    memberEnd
    return (some key, none)
  else
    let shape ← typeBehindColon g
    memberEnd
    return (some key, shape)

/-- A member of an interface or object type. -/
def memberShape (g : Nested) : Parser MemberShape := do
  if (← startsMethod) || (← isWordBefore "new" (isAmong ["(", "<"])) then
    discard (eatWord "new")
    discard (signature g)
    memberEnd
    return (none, none)
  else
    let isReadonly := (← eatModifier ["readonly"]).isSome
    if ← startsIndex then
      indexSignature g
      return (none, none)
    else if isReadonly then namedMember g true
    else firstOf (accessorMember g) (namedMember g false)

/-- A member of an interface or object type. -/
def typeMember (g : Nested) : Parser TypeMember := do
  match ← located (memberShape g) with
  | (site, some key, some (body, members)) => return .nested site key body members
  | (site, key, _) => return .plain site key

/-- The members of an interface or object type. -/
def typeMembers (g : Nested) : Parser (List TypeMember) := do
  mark "\x7b"
  manyUntil "\x7d" (typeMember g)

/-- An object type. -/
def objectType (g : Nested) : Parser TypeShape := do
  let (site, members) ← located (typeMembers g)
  return some (site.span, members)

/-! ## Names of types -/

/-- A name, or several with dots between. The last dot may be left without a name. `part` reads
a name behind a dot. -/
def entityName (part : Parser String) : Parser Unit := do
  discard name
  discard (many do
    if ← eat "." then
      if ← nextIs fun kind => kind.isName || kind.isPrivate then return some (← part)
      else return none
    else return none)

/-- Type arguments on the line of what they belong to, where there are some. -/
def optionalTypeArguments (g : Nested) : Parser Unit := do
  if (← isMark "<") && !(← afterBreak) then typeArguments g

/-- What is told of the module of an imported type. -/
def importTypeAttributes (g : Nested) : Parser Unit := do
  mark "\x7b"
  word "with"
  mark ":"
  discard (objectLiteral g)
  discard (eat ",")
  mark "\x7d"

/-- The type of another module, which a string should name. -/
def importType (g : Nested) : Parser Unit := do
  word "import"
  mark "("
  ensure !(← nextIs TokenKind.isTemplate)
  discard next
  if ← eat "," then
    if ← isMark "\x7b" then importTypeAttributes g
  mark ")"
  if ← eat "." then entityName boundName
  if ← isMark "<" then typeArguments g

/-- The type of a value. -/
def typeQuery (g : Nested) : Parser Unit := do
  word "typeof"
  if ← isWord "import" then importType g else entityName name
  optionalTypeArguments g

/-! ## Tuples and mapped types -/

/-- The name of an element of a tuple, where it has one. -/
def tupleElementName : Parser Unit := do
  discard (attempt do
    discard (eat "...")
    discard name
    discard (eat "?")
    mark ":")

/-- How an element of a tuple stands: whether it may be left out, and whether it may be followed
by fewer or more of its kind. -/
inductive TupleElement where
  | required
  | optional
  | rest
deriving DecidableEq

/-- An element of a tuple. -/
def tupleElement (g : Nested) : Parser TupleElement := do
  tupleElementName
  if ← eat "..." then
    discard g.type
    return .rest
  else
    discard g.type
    return if ← eat "?" then .optional else .required

/-- A tuple. No element that is required stands behind one that is not. -/
def tupleType (g : Nested) : Parser Unit := do
  mark "["
  let elements ← commaUntil "]" (tupleElement g)
  ensure !((elements.dropWhile (· != .optional)).contains .required)

/-- A plus or minus before a mark of a mapped type. -/
def eatSign : Parser Bool := do if ← eat "+" then return true else eat "-"

/-- Whether a mapped type begins here. -/
def startsMapped : Parser Bool := ahead do
  mark "\x7b"
  if ← eatSign then isWord "readonly"
  else
    discard (eatWord "readonly")
    mark "["
    discard identifier
    isWord "in"

/-- A mapped type. -/
def mappedType (g : Nested) : Parser Unit := do
  mark "\x7b"
  if ← eatSign then word "readonly" else discard (eatWord "readonly")
  mark "["
  discard name
  word "in"
  discard g.type
  if ← eatWord "as" then discard g.type
  mark "]"
  if ← eatSign then mark "?" else discard (eat "?")
  discard (typeBehindColon g)
  semicolon
  mark "\x7d"

/-! ## Types without operators -/

/-- Names of types that take no arguments. -/
def plainTypes : List String :=
  ["any", "boolean", "bigint", "never", "number", "object", "string", "symbol", "unknown",
    "undefined", "intrinsic", "null", "void"]

/-- Keywords that may name a type. -/
def typeNameWords : List String := ["yield", "await", "break", "null", "void"]

/-- What a type tells of a value behind the word `is`, where it tells something. -/
def testedType (g : Nested) : Parser Unit := do
  if ← eatWord "is" then discard g.type

/-- A type that begins with a word. -/
def wordType (g : Nested) (text : String) (escaped : Bool) : Parser Unit := do
  if escaped then namedType
  else
    match text with
    | "typeof" => typeQuery g
    | "import" => importType g
    | "true" | "false" => discard next
    | "this" =>
      discard next
      if !(← afterBreak) then testedType g
    | _ =>
      ensure (!keywords.contains text || typeNameWords.contains text)
      if text == "asserts" && (← secondIs (· == .word "this" false)) then
        discard next
        discard next
        testedType g
      else if plainTypes.contains text && !(← secondIs (· == .punct ".")) then discard next
      else namedType
where
  namedType : Parser Unit := do
    discard eatParameterModifier
    entityName name
    optionalTypeArguments g

/-- A number behind its sign. -/
def negativeType : Parser Unit := do
  mark "-"
  match (← next).kind with
  | .number _ _ => return
  | .bigint _ => return
  | _ => refuse

/-- A type that is no operator's. -/
def primaryType (g : Nested) : Parser TypeShape := do
  let kind : Option TokenKind := (← peek?).map (·.kind)
  match kind with
  | some (.word text escaped) => wordType g text escaped
  | some (.string _) => discard next
  | some (.number _ _) => discard next
  | some (.bigint _) => discard next
  | some (.template _ _) => template (discard g.type) false
  | some (.punct "-") => negativeType
  | some (.punct "\x7b") => if ← startsMapped then mappedType g else return (← objectType g)
  | some (.punct "[") => tupleType g
  | some (.punct "(") =>
    mark "("
    discard g.type
    mark ")"
  | _ => refuse
  return none

/-! ## Operators -/

/-- A type with the brackets behind it on its line. -/
def arrayType (g : Nested) : Parser TypeShape := do
  let shape ← primaryType g
  let brackets ← many do
    if (← isMark "[") && !(← afterBreak) then
      mark "["
      if !(← eat "]") then
        discard g.type
        mark "]"
      return some ()
    else return none
  return if brackets.isEmpty then shape else none

/-- The bound of an inferred type. Where a condition may follow, the bound is none if a question
mark stands behind it. -/
def inferBound (g : Nested) : Parser Unit := do
  let beforeCondition := (← read).allowsCondition
  word "extends"
  discard (withReader (fun scope => { scope with allowsCondition := false }) g.operandType)
  ensure (!beforeCondition || !(← isMark "?"))

/-- Words that stand before a type. -/
def typeOperators : List String := ["keyof", "unique", "readonly"]

/-- A type with the operators before it. -/
def operatorType (g : Nested) : Parser TypeShape := do
  let operators ← many do if ← isOneOfWords typeOperators then return some (← next) else return none
  if ← eatWord "infer" then
    discard name
    discard (attempt (inferBound g))
    return none
  else
    let shape ← arrayType g
    return if operators.isEmpty then shape else none

/-- Types with a mark between each two, and perhaps one before the first. -/
def joinedType (operator : String) (p : Parser TypeShape) : Parser TypeShape := do
  discard (eat operator)
  match ← separatedBy operator p with
  | [shape] => return shape
  | _ => return none

/-- Whether a function type begins at an opening parenthesis. -/
def startsParameters (g : Nested) : Parser Bool := ahead do
  mark "("
  if ← isOneOf [")", "..."] then return true
  discard eatParameterModifier
  if ← nextIs TokenKind.isName then discard next else
    ensure (← isOneOf ["\x7b", "["])
    discard g.pattern
  if ← isOneOf [":", ",", "?", "="] then return true
  if ← eat ")" then isMark "=>" else return false

/-- A function type. No parameter may have a value. -/
def functionType (g : Nested) : Parser TypeShape := do
  optionalTypeParameters g
  ensure ((← parameters g).all id)
  resultType g "=>"
  return none

/-- A type that depends on no condition of its own. -/
def operandType (g : Nested) : Parser TypeShape := do
  if (← isMark "<") || (← startsParameters g) then functionType g
  else if (← isWord "new") || (← isWordBefore "abstract" (· == .word "new" false)) then
    discard (eatWord "abstract")
    word "new"
    functionType g
  else joinedType "|" (joinedType "&" (operatorType g))

/-- A type. -/
def type (g : Nested) : Parser TypeShape := do
  let within (allowsCondition : Bool) : Parser TypeShape :=
    withReader (fun scope => { scope with allowsCondition }) (operandType g)
  let shape ← within true
  if (← isWord "extends") && !(← afterBreak) then
    word "extends"
    discard (within false)
    mark "?"
    discard g.type
    mark ":"
    discard g.type
    return none
  else return shape

end ReferencePages.TypeScript.Grammar
