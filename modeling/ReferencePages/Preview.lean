import ReferencePages.Symbol
import ReferencePages.Text.Lines

/-!
# Terminal preview

Modules are shown as a tree: each module with its comment, its values and its types, each
symbol with its snippet, notice, comment, bullets and members. The preview is a list of spans,
so that the same preview can be written with and without colors.
-/

namespace ReferencePages

/-- A color of text. -/
inductive TextColor where
  | yellow
  | magenta
  | cyan
  | white
deriving Repr, DecidableEq

/-- How text looks. -/
structure Style where
  color : Option TextColor := none
  bold : Bool := false
  dimmed : Bool := false
deriving Repr, DecidableEq

/-- A part of a preview: text, the start of a style, or the end of all styles. -/
inductive PreviewPart where
  | text (s : String)
  | setStyle (style : Style)
  | reset
deriving Repr, DecidableEq

namespace Preview

/-- Text in a style. -/
def styled (style : Style) (s : String) : List PreviewPart := [.setStyle style, .text s, .reset]

/-- Text that stands back. -/
def gray (s : String) : List PreviewPart := styled { color := some .white, dimmed := true } s

/-- The indentation of a level. -/
def indent (level : Nat) : String := String.ofList (repeated level [' ', ' '])

/-- The lines of a text. -/
def textLines (s : String) : List String := (lines s.toList).map String.ofList

/-- A line of a snippet, its tabs shown as two spaces. -/
def snippetLine (s : String) : String :=
  String.ofList (s.toList.flatMap fun c => if c = '\t' then [' ', ' '] else [c]) ++ "\n"

/-- The lines of a snippet, the first of them colored. -/
def snippet (level : Nat) (s : String) : List PreviewPart :=
  match textLines s with
  | [] => []
  | first :: rest =>
    [.text (indent level), .setStyle { color := some .magenta }, .text (snippetLine first),
      .reset] ++
      rest.flatMap fun line => [.text (indent level), .text (snippetLine line), .reset]

/-- The deprecation notice. -/
def deprecation (level : Nat) (notice : Option String) : List PreviewPart :=
  match notice with
  | some notice =>
    styled { color := some .yellow } (indent level ++ "  deprecated: " ++ notice ++ "\n")
  | none => []

/-- The first line of a comment, unless it is empty. -/
def commentLine (level : Nat) (comment : String) : List PreviewPart :=
  match textLines comment with
  | first :: _ => if first.isEmpty then [] else gray (indent level ++ "  " ++ first ++ "\n")
  | [] => []

mutual

/-- A symbol with the symbols below it. -/
def symbol (level : Nat) : Symbol → List PreviewPart
  | ⟨_, comment, code, notice, children, bullets⟩ =>
    snippet level code ++ deprecation level notice ++ commentLine level comment ++
      bullets.map (fun bullet => .text (indent level ++ "  " ++ bullet ++ "\n")) ++
      symbols (level + 1) children

/-- Several symbols. -/
def symbols (level : Nat) : List Symbol → List PreviewPart
  | [] => []
  | s :: rest => symbol level s ++ symbols level rest

end

/-- The first three lines of a module's comment that are not blank. -/
def moduleComment (comment : String) : List PreviewPart :=
  let shown := ((lines comment.toList).map trim).filter (!·.isEmpty)
  (shown.take 3).flatMap fun line => gray ("  " ++ String.ofList line ++ "\n")

/-- A module. -/
def moduleParts (m : DocModule) : List PreviewPart :=
  styled { color := some .cyan, bold := true } m.name ++
    (if m.exempt then gray " (comment only)" else []) ++ [.text "\n"] ++
    moduleComment m.comment ++ symbols 1 m.exports ++
    (if m.types.isEmpty then [] else styled { bold := true } "  Types\n" ++ symbols 2 m.types) ++
    [.text "\n"]

/-- Some modules. -/
def modules (ms : List DocModule) : List PreviewPart := ms.flatMap moduleParts

/-! ## Writing -/

/-- The terminal sequence with a number. -/
def escape (n : Nat) : String := "\x1b[" ++ toString n ++ "m"

/-- The number that selects a color. -/
def colorNumber : TextColor → Nat
  | .yellow => 33
  | .magenta => 35
  | .cyan => 36
  | .white => 37

/-- The terminal sequences that start a style, all others being ended first. -/
def styleStart (style : Style) : String :=
  escape 0 ++ (if style.bold then escape 1 else "") ++ (if style.dimmed then escape 2 else "") ++
    match style.color with
    | some color => escape (colorNumber color)
    | none => ""

/-- A span on a terminal with colors. -/
def colored : PreviewPart → String
  | .text s => s
  | .setStyle style => styleStart style
  | .reset => escape 0

/-- A span on a terminal without colors. -/
def plain : PreviewPart → String
  | .text s => s
  | _ => ""

/-- The preview of some modules. -/
def render (color : Bool) (ms : List DocModule) : String :=
  String.join ((modules ms).map (if color then colored else plain))

end Preview

end ReferencePages
