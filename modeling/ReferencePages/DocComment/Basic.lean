import ReferencePages.DocComment.Example
import ReferencePages.DocComment.Gutter
import ReferencePages.DocComment.InlineLink
import ReferencePages.DocComment.Sections
import ReferencePages.DocComment.Tag

/-!
# Doc comments

A doc comment is a description and tags. From it come the normalized description, the bullet
lines, the deprecation notice, and the mark that hides a member from its parent.
-/

namespace ReferencePages

/-- What a doc comment says. -/
structure DocComment where
  /-- The text before the first tag, with inline links resolved. -/
  description : String := ""
  /-- The tags, in order. -/
  tags : List Tag := []
deriving Repr, DecidableEq, Inhabited

namespace DocComment

/-- Read a comment, given whole or as the text between `/*` and `*/`. -/
def parse (comment : String) : DocComment :=
  let (description, tags) := splitSections (resolveInlineLinks (cleanComment comment.toList))
  { description := String.ofList (trim description)
    tags := tags.map fun tag => Tag.ofContent tag.1 tag.2 }

/-- Whether the description marks the symbol as private api, in any case of the letters. -/
def isPrivateApi (doc : DocComment) : Bool :=
  contains "private api".toList (doc.description.toList.map toAsciiLower)

/-- The notice of the first `@deprecated` tag, empty where it has no text. -/
def deprecationNotice (doc : DocComment) : Option String :=
  doc.tags.findSome? fun
    | .deprecated notice => some (notice.getD "")
    | _ => none

/-- The description with its example code normalized. -/
def normalizedDescription (doc : DocComment) : String :=
  String.ofList (normalizeExample doc.description.toList)

/-- One bullet line for each tag that has one. -/
def bullets (doc : DocComment) : List String := doc.tags.filterMap Tag.bullet

end DocComment

end ReferencePages
