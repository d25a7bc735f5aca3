import ReferencePages.Error
import ReferencePages.Markdown
import ReferencePages.Text.Search

/-!
# Include markers

A page refers to a module, or to a configuration type, by `<!-- @include Name -->`. Substitution
puts the markup of what is named in place of each marker. A name that is not known fails the
whole page.
-/

namespace ReferencePages

/-- What begins a marker. -/
def markerOpen : List Char := "<!-- @include ".toList

/-- What ends a marker. -/
def markerClose : List Char := " -->".toList

/-- The shortest name of at least one character on this line that is followed by the end of the
marker. -/
def markerName? : List Char → Option (List Char)
  | [] => none
  | c :: s =>
    if c = '\n' then none
    else if startsWith markerClose s then some [c]
    else (markerName? s).map (c :: ·)

/-- A marker, as the name in it. -/
def includeMarker : Pattern (List Char) := fun s => do
  let rest ← dropPrefix? markerOpen s
  let name ← markerName? rest
  return (name, markerOpen.length + name.length + markerClose.length - 1)

/-- Whether a text holds a marker. -/
def hasMarkers (s : String) : Bool := hasMatch includeMarker s.toList

/-- What markers can name. -/
structure ReferenceTable where
  modules : List DocModule := []
  config : Option ConfigTypes := none
  renderer : Renderer := {}
deriving Inhabited

namespace ReferenceTable

/-- The markup of a configuration type. -/
def resolveConfig? (table : ReferenceTable) (name : String) : Option String := do
  let config ← table.config
  if name = config.collapsed.name then some (table.renderer.renderType config.collapsed)
  else if name = config.expanded.name then some (table.renderer.renderExpanded config.expanded)
  else none

/-- The markup of the first module of a name. -/
def resolveModule? (table : ReferenceTable) (name : String) : Option String :=
  (table.modules.find? (·.name = name)).map table.renderer.renderModule

/-- The markup of what a name stands for; configuration types come before modules. -/
def resolve (table : ReferenceTable) (name : String) : Except DocError String :=
  match (table.resolveConfig? name).or (table.resolveModule? name) with
  | some text => .ok text
  | none => .error (.referenceNotFound name)

/-- Replace the markers of a text that is laid out as pieces; the first unknown name fails. -/
def substitutePieces (table : ReferenceTable) : List (Piece (List Char)) →
    Except DocError (List Char)
  | [] => .ok []
  | .char c :: rest => do
    let rest ← table.substitutePieces rest
    return c :: rest
  | .hit name :: rest => do
    let text ← table.resolve (String.ofList name)
    let rest ← table.substitutePieces rest
    return text.toList ++ rest

/-- Replace every marker of a text. -/
def substitute (table : ReferenceTable) (s : String) : Except DocError String := do
  return String.ofList (← table.substitutePieces (pieces includeMarker s.toList))

end ReferenceTable

end ReferencePages
