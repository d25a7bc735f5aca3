import ReferencePages.Number.Shortest
import ReferencePages.TypeScript.Grammar.Types

/-!
# Classes

Words before a member tell how it is used, unless one of them is the key of the member itself.
-/

namespace ReferencePages.TypeScript.Grammar

open TypeScript.Parser

/-! ## Keys of members -/

/-- How a number is shown as a key. -/
def numberText (num den : Nat) : String :=
  match Binary64.ofRatio? num den with
  | some x => String.ofList x.shortest.positional
  | none => "inf"

/-- The key of a class member. Strings and numbers are shown by their values. -/
def classKey (g : Nested) : Parser Key := do
  let token ← next
  match token.kind with
  | .word name _ => return .named name
  | .privateName name => return .named ("#" ++ name)
  | .string value => return .named value
  | .number num den => return .named (numberText num den)
  | .bigint value => return .named (toString value)
  | .punct "[" =>
    computedKey g
    return .source ⟨token.span.lo, (← cursor).last⟩
  | _ => refuse

/-- Whether a key is that of the constructor. -/
def isConstructor (key : Key) : Bool := key == .named "constructor"

/-! ## Properties and methods -/

/-- Whether a key is all that a property has before the next token. -/
def endsKey : Parser Bool := do
  if ← isOneOf ["=", "\x7d", ";"] then return true
  else return (← isTyped) && (← isOneOf ["!", ":"])

/-- The type and value of a property. Other members may follow on its line. -/
def propertyRest (g : Nested) (key : Key) (isOptional : Bool) : Parser Unit := do
  ensure !(isConstructor key)
  if (← isTyped) && !isOptional then discard (eat "!")
  discard (typeBehindColon g)
  initializer g
  discard eatEnd

/-- Words before a member that tell who may use it. -/
def accessWords : List String := ["public", "protected", "private", "in", "out"]

/-- A parameter of a constructor. One with a word before it that makes it a property has a name or
a value. -/
def constructorParameter (g : Nested) : Parser Unit := do
  discard (decorators g)
  if ← eat "..." then
    discard g.pattern
    discard (typeBehindColon g)
  else
    let isGuarded := (← eatModifier accessWords).isSome
    let isOverride := (← eatModifier ["override"]).isSome
    let isReadonly := (← eatModifier ["readonly"]).isSome
    let (lacksValue, name) ← plainParameter g
    ensure (!(isGuarded || isOverride || isReadonly) || name.isSome || !lacksValue)

/-- The parameters and body of a constructor. -/
def constructorRest (g : Nested) : Parser Unit :=
  within {} do
    optionalTypeParameters g
    mark "("
    discard (enclosed (commaUntil ")" (constructorParameter g)))
    discard (typeBehindColon g)
    discard (optionalBody g)

/-- A method behind its key. -/
def keyedMethod (g : Nested) (key : Key) : Parser Unit :=
  if isConstructor key then constructorRest g else discard (functionRest g {})

/-- A method or property behind its key. -/
def keyedRest (g : Nested) (key : Key) : Parser Unit := do
  let isOptional ← if ← isTyped then eat "?" else pure false
  if ← startsMethod then keyedMethod g key else propertyRest g key isOptional

/-! ## Words before a member -/

/-- Whether a word that has been read is the key of the member. `isLast` tells whether the word
may be all of its line. -/
def namesMember (isLast : Bool) : Parser Bool := do
  if (← startsMethod) || (← endsKey) || (← isMark "?") then return true
  else if isLast then endsStatement
  else return false

/-- A further word before a member, where there is one. -/
def laterModifier : Parser (Option String) := do
  if ← isWordBefore "static" (· == .punct "\x7b") then return none
  else eatModifier ["abstract", "readonly", "override", "static"]

/-- What the words before a member tell. -/
structure Modifiers where
  /-- Who may use the member. -/
  isGuarded : Bool
  isStatic : Bool
  /-- Further words. -/
  later : List String

/-- The words before a member, or the word that is its key. -/
def modifiers : Parser (String ⊕ Modifiers) := do
  let isTyped ← isTyped
  let isDeclared ← if isTyped then eatWord "declare" else pure false
  let isGuarded := (← eatModifier accessWords).isSome
  let isDeclared ← if isTyped && !isDeclared then eatWord "declare" else pure isDeclared
  if isDeclared then
    if ← namesMember true then return .inl "declare"
  let isStatic ← eatWord "static"
  if isStatic then
    if ← namesMember false then return .inl "static"
  let isAccessor ← eatWord "accessor"
  if isAccessor then
    if ← namesMember true then return .inl "accessor"
  let later ← many laterModifier
  if !isAccessor then discard (eatWord "accessor")
  return .inr { isGuarded, isStatic := isStatic || later.contains "static", later }

/-! ## Members -/

/-- The word that is the next token. -/
def wordAhead? : Parser (Option String) := do
  return (← peek?).bind fun token =>
    match token.kind with
    | .word text _ => some text
    | _ => none

/-- A member with a key. The words `get`, `set` and `async` are keys of their own, unless another
key follows. -/
def keyedMember (g : Nested) (isReadonly : Bool) : Parser Key := do
  if ← eat "*" then
    let key ← classKey g
    discard (functionRest g { isGenerator := true })
    return key
  else if isReadonly && (← isOneOf ["!", ":"]) then
    propertyRest g (.named "readonly") false
    return .named "readonly"
  else
    let word := (← wordAhead?).getD ""
    let key ← classKey g
    let isOptional ← if ← isTyped then eat "?" else pure false
    if ← startsMethod then
      ensure !isReadonly
      keyedMethod g key
      return key
    let isAccessor := ["get", "set"].contains word && !(← endsKey) &&
      !((← afterBreak) && (← isMark "*"))
    if isAccessor then
      let key ← classKey g
      discard (functionRest g {})
      return key
    else if (← endsKey) || (← endsStatement) then
      propertyRest g key isOptional
      return key
    else
      ensure (word == "async")
      discard (eatModifier ["override"])
      let isGenerator ← eat "*"
      let key ← classKey g
      ensure !(isConstructor key || isReadonly)
      if ← isTyped then discard (eat "?")
      discard (functionRest g { isAsync := true, isGenerator })
      return key

/-- A member of a class, and whether it is a part that names nothing. -/
def classMemberShape (g : Nested) : Parser (Bool × Option Key) := do
  if ← eat ";" then return (true, none)
  else
    discard (decorators g)
    match ← modifiers with
    | .inl word =>
      let key : Key := .named word
      keyedRest g key
      return (false, some key)
    | .inr m =>
      let isBlock := (m.isStatic && (← isMark "\x7b")) ||
        (← isWordBefore "static" (· == .punct "\x7b"))
      if isBlock then
        discard (eatWord "static")
        block g
        return (true, none)
      let mayBeIndex := (← isTyped) && !m.isGuarded &&
        !(m.later.contains "abstract" || m.later.contains "override")
      if mayBeIndex && (← startsIndex) then
        indexSignature g
        return (false, none)
      else return (false, ← keyedMember g (m.later.contains "readonly"))

/-- A member of a class. -/
def classMember (g : Nested) : Parser ClassMember := do
  let (site, silent, key) ← located (classMemberShape g)
  return if silent then .silent site else .plain site key

/-! ## Heads of classes -/

/-- Whether a list of types ends that a class implements or an interface extends. -/
def endsHeritage : Parser Bool := do
  return (← isMark "\x7b") || (← isWord "implements") || (← isWord "extends")

/-- The types that a class implements or an interface extends. There may be none. -/
def heritage (g : Nested) : Parser Unit :=
  discard (many do
    if ← endsHeritage then return none
    else
      let name ← name
      discard (g.suffixes { calls := false, brackets := false } (.name name))
      if ← isMark "<" then typeArguments g
      if !(← endsHeritage) then mark ","
      return some ())

/-- The class that a class extends. -/
def baseClass (g : Nested) : Parser Unit := do
  discard g.base
  if (← isTyped) && (← isMark "<") then typeArguments g

/-- What stands between the name of a class and its members. What it extends and implements may be
told more than once. -/
def classHead (g : Nested) : Parser Unit := do
  optionalTypeParameters g
  if ← eatWord "extends" then
    baseClass g
    if (← isTyped) && (← isMark ",") then
      mark ","
      heritage g
  if ← eatWord "extends" then baseClass g
  if ← isTyped then
    if ← eatWord "implements" then heritage g
    if ← eatWord "implements" then heritage g
    if ← eatWord "extends" then baseClass g

/-- A class behind its name. -/
def classRest (g : Nested) : Parser (List ClassMember) := do
  classHead g
  mark "\x7b"
  manyUntil "\x7d" (classMember g)

/-- A class expression behind its keyword. -/
def classExpression (g : Nested) : Parser Unit := do
  optionalName
  discard (classRest g)

end ReferencePages.TypeScript.Grammar
