import ReferencePages.TypeScript.Grammar.Functions

/-!
# Arrays and objects

An array or object may be read as a pattern in the place of a value, unless it holds a method.
-/

namespace ReferencePages.TypeScript.Grammar

open TypeScript.Parser

/-! ## Arrays -/

/-- An element of an array, or a place without one; whether it may be read as a pattern. -/
def arrayElement (g : Nested) : Parser Bool := do
  if ← eat "," then return true
  discard (eat "...")
  let form ← enclosed g.expression
  if !(← isMark "]") then mark ","
  return form.isReadable

/-- An array. -/
def arrayLiteral (g : Nested) : Parser Form := do
  mark "["
  let elements ← manyUntil "]" (arrayElement g)
  return .literal (elements.all id)

/-! ## Objects -/

/-- Whether the parameters of a method begin here. -/
def startsMethod : Parser Bool := do
  if ← isMark "(" then return true else return (← isTyped) && (← isMark "<")

/-- A method behind its key. -/
def methodRest (g : Nested) (kind : FunctionKind) : Parser Bool := do
  discard (functionRest g kind)
  return false

/-- Whether nothing that can follow a key stands here, which ends the property. -/
def lacksValue (hasWord : Bool) : Parser Bool := do
  if !(← isTyped) || (← isOneOf ["(", "[", ":", ",", "?", "=", "*", "<"]) then return false
  else if ← isMark "\x7d" then return !hasWord
  else
    return !(← nextIs fun
      | .word _ _ => true
      | .string _ => true
      | .number _ _ => true
      | .bigint _ => true
      | _ => false)

/-- A property behind its key, which is a word; whether it may be read as a pattern. -/
def wordProperty (g : Nested) (word : String) : Parser Bool := do
  discard (eat "?")
  if ← isOneOf ["=", ",", "\x7d"] then
    initializer g
    return true
  else
    ensure (["get", "set", "async"].contains word)
    let isAsync := word == "async"
    let isGenerator ← if isAsync then eat "*" else pure false
    discard (propertyKey g)
    methodRest g { isAsync, isGenerator }

/-- A property of an object; whether it may be read as a pattern. -/
def objectProperty (g : Nested) : Parser Bool := do
  if ← eat "..." then return (← enclosed g.expression).isReadable
  else if ← eat "*" then
    discard (propertyKey g)
    methodRest g { isGenerator := true }
  else
    discard eatParameterModifier
    let word ← propertyKey g
    if ← lacksValue word.isSome then return true
    else if ← eat ":" then return (← enclosed g.expression).isReadable
    else if ← startsMethod then methodRest g {}
    else
      match word with
      | some text => wordProperty g text
      | none => refuse

/-- An object. -/
def objectLiteral (g : Nested) : Parser Form := do
  mark "\x7b"
  let properties ← commaUntil "\x7d" (objectProperty g)
  return .literal (properties.all id)

end ReferencePages.TypeScript.Grammar
