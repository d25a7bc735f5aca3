import ReferencePages.Text.Search

/-!
# Tags of a doc comment

A tag is `@name` followed by its content. Tags that the documentation knows have their content
taken apart; every other tag keeps it as it is. A known tag is shown as one bullet line.
-/

namespace ReferencePages

/-- A tag with its content taken apart. -/
inductive Tag where
  /-- A parameter, with its type and description where they are given. -/
  | param (name : String) (type doc : Option String)
  /-- The result of a function. -/
  | returns (type doc : Option String)
  /-- The value taken when none is given. -/
  | defaultValue (value : String)
  /-- The symbol should no longer be used, with the reason. -/
  | deprecated (doc : Option String)
  /-- The symbol is not for users. -/
  | privateUse (doc : Option String)
  /-- The value is not to be assigned. -/
  | readonly (doc : Option String)
  /-- Any other tag. -/
  | other (name value : String)
deriving Repr, DecidableEq, Inhabited

namespace Tag

/-! ## Parts of the content -/

/-- A text, or nothing where it is empty. -/
def nonEmpty (s : List Char) : Option String :=
  if s.isEmpty then none else some (String.ofList s)

/-- Cut behind the brace that closes the innermost `depth` open ones. -/
def cutAtClose (depth : Nat) : List Char → Option (List Char × List Char)
  | [] => none
  | c :: s =>
    if c = '}' ∧ depth ≤ 1 then some ([], s)
    else
      let depth := if c = '{' then depth + 1 else if c = '}' then depth - 1 else depth
      (cutAtClose depth s).map fun cut => (c :: cut.1, cut.2)

/-- The type in braces at the start of a content, and the trimmed rest. A content without a
closed brace group has no type and is left as it is. -/
def splitType (content : List Char) : Option String × List Char :=
  match content with
  | '{' :: s =>
    match cutAtClose 1 s with
    | some (type, rest) => (some (String.ofList type), trim rest)
    | none => (none, content)
  | _ => (none, content)

/-- Cut at the first dash between blanks, or else at the first blank. -/
def splitName (s : List Char) : List Char × List Char :=
  let s := trim s
  match splitAtFirst? [' ', '-', ' '] s with
  | some (name, doc) => (trim name, trim doc)
  | none => (s.takeWhile (!isBlank ·), trim (s.dropWhile (!isBlank ·)))

/-- The name of a parameter and what is said of it. A name in brackets is optional and may
carry its default value behind an equals sign. -/
def splitParam (s : List Char) : List Char × List Char :=
  match s with
  | '[' :: inner =>
    match splitAtFirst? [']'] inner with
    | some (name, doc) =>
      (trim (name.takeWhile (· != '=')), trim ((trim doc).dropWhile (· == '-')))
    | none => (s, [])
  | _ => splitName s

/-! ## Tags -/

/-- Take the content of a `@param` tag apart. -/
def ofParam (content : List Char) : Tag :=
  let (type, rest) := splitType content
  let (name, doc) := splitParam rest
  .param (String.ofList name) type (nonEmpty doc)

/-- Take the content of a `@returns` tag apart. -/
def ofReturns (content : List Char) : Tag :=
  let (type, rest) := splitType content
  .returns type (nonEmpty (trim (rest.dropWhile (· == '-'))))

/-- The tag of a name and its content. -/
def ofContent (name content : List Char) : Tag :=
  let content := trim content
  match String.ofList name with
  | "param" | "arg" | "argument" => ofParam content
  | "returns" | "return" => ofReturns content
  | "default" | "defaultvalue" => .defaultValue (String.ofList content)
  | "deprecated" => .deprecated (nonEmpty content)
  | "private" => .privateUse (nonEmpty content)
  | "readonly" => .readonly (nonEmpty content)
  | name => .other name (String.ofList content)

/-- A span that shows a mark such as `readonly`. -/
def mark (cls name : String) : String := "<span class=\"" ++ cls ++ "\">" ++ name ++ "</span>"

/-- The bullet line of a tag; tags that the documentation does not know have none. -/
def bullet (tag : Tag) : Option String :=
  let line? : Option String :=
    match tag with
    | .privateUse doc => some ("- " ++ mark "tag" "private" ++ " " ++ doc.getD "")
    | .readonly doc => some ("- " ++ mark "tag" "readonly" ++ " " ++ doc.getD "")
    | .param name _ doc => some ("- `" ++ name ++ "` " ++ doc.getD "")
    | .defaultValue value => some ("- " ++ mark "tag" "default" ++ " `" ++ value ++ "`")
    | .returns _ doc => some ("- " ++ mark "tag" "returns" ++ " " ++ doc.getD "")
    | .deprecated doc => some ("- " ++ mark "tag deprecated" "deprecated" ++ " " ++ doc.getD "")
    | .other _ _ => none
  line?.map fun line => String.ofList (trimEnd line.toList)

end Tag

end ReferencePages
