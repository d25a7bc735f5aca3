import ReferencePages.DocComment.Basic
import ReferencePages.Symbol
import ReferencePages.Text.Lines
import ReferencePages.TypeScript.Syntax

/-!
# Symbols of members

Each member of an interface, class or object type becomes a symbol, unless its comment hides it.
A property whose type is an object type with a described member shows that type collapsed; the
members of the type are then its children.
-/

namespace ReferencePages

namespace TypeScript

/-- Whether a comment is a doc comment: a block that begins with a second star. -/
def Comment.isDoc (c : Comment) : Bool := c.isBlock && c.text.head? == some '*'

/-- What the last doc comment before a part says of it. -/
def Site.doc (site : Site) : DocComment :=
  match (site.comments.filter Comment.isDoc).getLast? with
  | some c => DocComment.parse (String.ofList c.text)
  | none => {}

/-- Where a part begins, its comments included. -/
def Site.fullStart (site : Site) : Nat :=
  site.comments.foldl (fun start c => min start c.lo) site.span.lo

/-- The text of a key. -/
def Key.text (source : List Char) : Key → String
  | .named name => name
  | .source span => String.ofList (span.slice source)

end TypeScript

open TypeScript

/-- What stands in place of a body whose members are shown on their own. -/
def collapsedBody : List Char := "/*…*/".toList

/-- The name of a member without a key. -/
def unnamed : String := "unknown"

/-- The name of a member. -/
def memberName (source : List Char) (key : Option Key) : String :=
  (key.map (Key.text source)).getD unnamed

/-- The part of the source that a member takes, with a separator that directly follows. -/
def memberSpan (source : List Char) (span : Span) : Span :=
  let separated := (source.drop span.hi).head?.any fun c => c = ';' || c = ','
  if separated && (span.slice source).getLast? != some ';' then ⟨span.lo, span.hi + 1⟩ else span

/-- A line without its first tabs, of which at most `n` are dropped. -/
def dropTabs : Nat → List Char → List Char
  | n + 1, '\t' :: line => dropTabs n line
  | _, line => line

/-- A text without the first tabs of each line, of which at most `n` are dropped. -/
def dedent (n : Nat) (s : List Char) : List Char := joinLines ((splitLines s).map (dropTabs n))

/-- The symbol of a member that stands `depth` bodies deep. -/
def memberSymbol (depth : Nat) (name : String) (doc : DocComment) (text : List Char)
    (children : List Symbol) : Symbol :=
  { name
    comment := doc.normalizedDescription
    snippet := String.ofList (dedent (depth + 1) text)
    deprecated := doc.deprecationNotice
    children
    bullets := doc.bullets }

/-- Whether a member is described. -/
def isDescribed (member : TypeMember) : Bool := !member.site.doc.description.isEmpty

mutual

/-- The symbol of a member of an interface or object type, if it is shown. -/
def typeMemberSymbol? (source : List Char) (depth : Nat) : TypeMember → Option Symbol
  | .plain site key =>
    if site.doc.isPrivateApi then none
    else
      let text := (memberSpan source site.span).slice source
      some (memberSymbol depth (memberName source key) site.doc text [])
  | .nested site key body members =>
    if site.doc.isPrivateApi then none
    else
      let span := memberSpan source site.span
      let name := memberName source (some key)
      if members.any isDescribed then
        let text := Span.slice ⟨span.lo, body.lo⟩ source ++ '\x7b' :: collapsedBody ++
          '\x7d' :: Span.slice ⟨body.hi, span.hi⟩ source
        some (memberSymbol depth name site.doc text (typeMemberSymbols source (depth + 1) members))
      else some (memberSymbol depth name site.doc (span.slice source) [])

/-- The symbols of the members of an interface or object type. -/
def typeMemberSymbols (source : List Char) (depth : Nat) : List TypeMember → List Symbol
  | [] => []
  | member :: rest =>
    (typeMemberSymbol? source depth member).toList ++ typeMemberSymbols source depth rest

end

/-- The symbol of a member of a class, if it is shown. -/
def classMemberSymbol? (source : List Char) (depth : Nat) : ClassMember → Option Symbol
  | .silent _ => none
  | .plain site key =>
    if site.doc.isPrivateApi then none
    else
      let text := (memberSpan source site.span).slice source
      some (memberSymbol depth (memberName source key) site.doc text [])

/-- The symbols of the members of a class. -/
def classMemberSymbols (source : List Char) (depth : Nat) (members : List ClassMember) :
    List Symbol := members.filterMap (classMemberSymbol? source depth)

end ReferencePages
