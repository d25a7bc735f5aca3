import ReferencePages.TypeScript.Grammar.Functions

/-!
# Elements of markup

Inside the tags of an element, names may hold dashes; between the tags stands text, which is no
sequence of tokens. Elements are therefore read from places of the source, and only the
expressions in braces as tokens.
-/

namespace ReferencePages.TypeScript.Grammar

open TypeScript.Parser

/-! ## Inside tags -/

/-- The place behind blanks and comments. -/
def skipGap (place : Place) : Parser Place := do
  match readGap {} (place.text.length + 1) { place } with
  | some gap => return gap.place
  | none => refuse

/-- The place behind a text that stands at a place, and behind blanks and comments. -/
def skipMark? (text : String) (place : Place) : Parser (Option Place) := do
  match dropPrefix? text.toList place.text with
  | some _ => return some (← skipGap (place.skip text.length))
  | none => return none

/-- The place behind a text that should stand at a place, and behind blanks and comments. -/
def skipMark (text : String) (place : Place) : Parser Place := do
  match ← skipMark? text place with
  | some place => return place
  | none => refuse

/-- A word that may hold dashes, and the place behind it. -/
def tagWord (place : Place) : Parser (List Char × Place) := do
  ensure (place.text.head?.any isIdentifierStart)
  let word := place.text.takeWhile fun c => isIdentifierPart c || c == '-'
  return (word, ← skipGap (place.skip word.length))

/-- A name in a tag, one of a namespace perhaps, and the place behind it. -/
def tagName (place : Place) : Parser (List Char × Place) := do
  let (first, place) ← tagWord place
  match ← skipMark? ":" place with
  | some place =>
    let (second, place) ← tagWord place
    return (first ++ ':' :: second, place)
  | none => return (first, place)

/-- Names of members behind the name of an element, at most `n`. -/
def memberNames : Nat → List Char × Place → Parser (List Char × Place)
  | 0, _ => refuse
  | n + 1, (name, place) => do
    match ← skipMark? "." place with
    | some place =>
      let (member, place) ← tagWord place
      memberNames n (name ++ '.' :: member, place)
    | none => return (name, place)

/-- The name of an element and the place behind it. None is empty. -/
def elementName (place : Place) : Parser (List Char × Place) := do
  memberNames (place.text.length + 1) (← tagName place)

/-! ## Expressions in braces -/

/-- What a parser reads behind an opening brace, and the place behind the closing one. -/
def braced (p : Parser Unit) (place : Place) : Parser Place := do
  goOn false (place.skip 1)
  enclosed p
  ensure (← isMark "\x7d")
  placeBehind

/-- Expressions in braces, which may also be empty; the place behind them. -/
def container (g : Nested) (mayBeEmpty : Bool) (place : Place) : Parser Place :=
  braced (do if !(mayBeEmpty && (← isMark "\x7d")) then discard (expressions g)) place

/-- Whether three dots stand behind the opening brace at a place. -/
def startsSpread (place : Place) : Parser Bool := do
  let behind ← skipGap (place.skip 1)
  return (dropPrefix? "...".toList behind.text).isSome

/-! ## Attributes -/

/-- The place behind a string, in which nothing is escaped. -/
def attributeText (quote : Char) (place : Place) : Parser Place := do
  let text := (place.text.drop 1).takeWhile (· != quote)
  let place := place.skip (text.length + 1)
  ensure !place.text.isEmpty
  return place.skip 1

/-- The place behind the value of an attribute. -/
def attributeValue (g : Nested) (place : Place) : Parser Place := do
  match place.text with
  | '\x7b' :: _ => container g false place
  | '<' :: _ => g.element place
  | c :: _ => if c == '"' || c == '\'' then attributeText c place else refuse
  | [] => refuse

/-- An attribute, where there is one; the place behind it. -/
def attribute? (g : Nested) (place : Place) : Parser (Option Place) := do
  match place.text with
  | '/' :: _ => return none
  | '>' :: _ => return none
  | '\x7b' :: _ =>
    let spread : Parser Unit := do
      mark "..."
      discard g.expression
    return some (← skipGap (← braced spread place))
  | _ =>
    let (_, place) ← tagName place
    match ← skipMark? "=" place with
    | some place => return some (← skipGap (← attributeValue g place))
    | none => return some place

/-- The place behind the types that an element is given, where it is given some. -/
def elementTypes (g : Nested) (place : Place) : Parser Place := do
  if (← isTyped) && place.text.head? == some '<' then
    goOn false place
    match ← attempt (typeArguments g) with
    | some _ => placeHere
    | none => return place
  else return place

/-! ## Elements -/

/-- The tag that opens an element: its name, the place behind the tag, and whether the tag is all
of the element. -/
def openingTag (g : Nested) (place : Place) : Parser (List Char × Place × Bool) := do
  let inside ← skipMark "<" place
  match inside.text with
  | '>' :: _ => return ([], inside.skip 1, false)
  | _ =>
    let (name, place) ← elementName inside
    let place ← elementTypes g place
    let place ← attributes place
    match ← skipMark? "/" place with
    | some place =>
      ensure (place.text.head? == some '>')
      return (name, place.skip 1, true)
    | none =>
      ensure (place.text.head? == some '>')
      return (name, place.skip 1, false)
where
  attributes (place : Place) : Parser Place := growUpTo (attribute? g) (place.text.length + 1) place

/-- The place behind the tag that closes an element. -/
def closingTag (name : List Char) (place : Place) : Parser Place := do
  match place.text with
  | '>' :: _ =>
    ensure name.isEmpty
    return place.skip 1
  | _ =>
    let (closing, place) ← elementName place
    ensure (closing == name && place.text.head? == some '>')
    return place.skip 1

/-- The place behind a part between the tags of an element, or behind the tag that closes it. -/
def child (g : Nested) (name : List Char) (place : Place) : Parser (Place ⊕ Place) := do
  match place.text with
  | '<' :: _ =>
    match ← skipMark? "/" (← skipMark "<" place) with
    | some place => return .inr (← closingTag name place)
    | none => return .inl (← g.element place)
  | '\x7b' :: _ =>
    if ← startsSpread place then
      let spread : Parser Unit := do
        mark "..."
        discard (expressions g)
      return .inl (← braced spread place)
    else return .inl (← container g true place)
  | [] => refuse
  | text => return .inl (place.skip (text.takeWhile fun c => c != '<' && c != '\x7b').length)

/-- The place behind the parts and the closing tag of an element; the parts are at most `n`. -/
def children (g : Nested) (name : List Char) : Nat → Place → Parser Place
  | 0, _ => refuse
  | n + 1, place => do
    match ← child g name place with
    | .inl place => children g name n place
    | .inr place => return place

/-- An element from a place on; the place behind it. -/
def element (g : Nested) (place : Place) : Parser Place := do
  let (name, inside, isWhole) ← openingTag g place
  if isWhole then return inside else children g name (inside.text.length + 1) inside

/-- An element that is the next value. -/
def elementForm (g : Nested) : Parser Form := do
  match ← attempt (do element g (← placeHere)) with
  | some place =>
    goOn false place
    return .value
  | none => refuseToken

end ReferencePages.TypeScript.Grammar
