import ReferencePages.Symbol
import ReferencePages.Text.Lines

/-!
# Reference markup

A symbol is shown as a fenced snippet in a block, followed by its bullets and by a block for
each of its members. A module is shown as its comment, its values, and a section of its types.
-/

namespace ReferencePages

/-- The languages named behind the opening fences of snippets. -/
structure Renderer where
  /-- For types and their members. -/
  codeLang : String := "dts"
  /-- For the sections of an expanded type. -/
  sectionLang : String := "ts"
deriving Repr, DecidableEq, Inhabited

namespace Renderer

/-- Parts of a page, an empty line between each two. -/
def paragraphs (parts : List String) : String := "\n\n".intercalate parts

/-- A fenced block. -/
def fence (lang code : String) : String := "```" ++ lang ++ "\n" ++ code ++ "\n```"

/-- The paragraph of a text, unless it is empty. -/
def textPart (s : String) : List String := if s.isEmpty then [] else [s]

/-- The block of a symbol's bullets, unless it has none. -/
def bulletsPart (bullets : List String) : List String :=
  if bullets.isEmpty then []
  else ["<div class=\"ts-block-property-bullets\">", "\n".intercalate bullets, "</div>"]

/-- The block around the blocks of a symbol's members, unless it has none. -/
def childrenPart (blocks : List String) : List String :=
  if blocks.isEmpty then []
  else ["<div class=\"ts-block-property-children\">", paragraphs blocks, "</div>"]

mutual

/-- The block of a member. -/
def property (r : Renderer) : Symbol → String
  | ⟨_, comment, snippet, _, children, bullets⟩ =>
    paragraphs (["<div class=\"ts-block-property\">", fence r.codeLang snippet,
        "<div class=\"ts-block-property-details\">"] ++ bulletsPart bullets ++ textPart comment ++
      childrenPart (properties r children) ++ ["</div>\n</div>"])

/-- The blocks of several members. -/
def properties (r : Renderer) : List Symbol → List String
  | [] => []
  | s :: rest => property r s :: properties r rest

end

/-- The notice of a deprecated symbol. -/
def deprecation (notice : Option String) : List String :=
  match notice with
  | some notice => ["<blockquote class=\"tag deprecated\">", notice, "</blockquote>"]
  | none => []

/-- A type: its deprecation notice, its comment, and its block. -/
def renderType (r : Renderer) (s : Symbol) : String :=
  paragraphs (deprecation s.deprecated ++ textPart s.comment ++
    ["<div class=\"ts-block\">", fence r.codeLang s.snippet] ++ bulletsPart s.bullets ++
    r.properties s.children ++ ["</div>"])

/-- The section of a member of an expanded type. -/
def memberSection (r : Renderer) (s : Symbol) : String :=
  paragraphs (["## " ++ s.name] ++ bulletsPart s.bullets ++ [fence r.sectionLang s.snippet] ++
    textPart s.comment ++ childrenPart (r.properties s.children))

/-- A type with one section for each member. -/
def renderExpanded (r : Renderer) (s : Symbol) : String :=
  paragraphs (textPart s.comment ++ s.children.map r.memberSection)

/-- A symbol of a module under its heading. -/
def entry (r : Renderer) (s : Symbol) : String := paragraphs ["### " ++ s.name, r.renderType s]

/-- A module: its comment, its values, and a section of its types. -/
def renderModule (r : Renderer) (m : DocModule) : String :=
  let comment := if m.comment.isEmpty then [] else [String.ofList (trim m.comment.toList)]
  let types := if m.types.isEmpty then [] else "## Types" :: m.types.map r.entry
  paragraphs (comment ++ m.exports.map r.entry ++ types)

end Renderer

end ReferencePages
