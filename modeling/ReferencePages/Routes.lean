import ReferencePages.Json.Record
import ReferencePages.Keyed
import ReferencePages.Text.Search

/-!
# Routes of the documentation site

A topic is one version of a package's documentation, under the key `name/version`. A path names
a package, a version and a page. A path without a page leads to the first page of its topic, and
a path of only a name to the latest version; a path with a page has the topic's layout.
-/

namespace ReferencePages

/-- A link to a page. -/
structure PageLink where
  slug : String
  title : String
deriving Repr, DecidableEq, Inhabited

/-- A group of pages. -/
structure Section where
  slug : String
  title : String
  children : List PageLink := []
deriving Repr, DecidableEq, Inhabited

/-- One version of a package's documentation. -/
structure Topic where
  slug : String
  title : String
  children : List Section := []
deriving Repr, DecidableEq, Inhabited

/-- A page with its text. -/
structure Page where
  slug : String
  title : String
  body : String
deriving Repr, DecidableEq, Inhabited

/-- What surrounds the page of a path. -/
structure Layout where
  sections : List Section
  version : String
  versions : List String
deriving Repr, DecidableEq

/-- Where a path leads. -/
inductive Route where
  /-- To another path, for now. -/
  | redirect (location : String) (status : Nat)
  | layout (layout : Layout)
  | notFound
deriving Repr, DecidableEq

/-- The page of a path. -/
inductive PageRoute where
  | page (page : Page)
  /-- To another path, for now. -/
  | redirect (location : String) (status : Nat)
  | notFound
deriving Repr, DecidableEq

/-- The status of every redirect. -/
def redirectStatus : Nat := 307

/-- The topics and pages of the site. -/
structure DocsIndex where
  /-- Under `name/version`. -/
  topics : Keyed String Topic := {}
  /-- Under `name/version/page`. -/
  pages : Keyed String Page := {}
deriving Repr, Inhabited

/-- The first page of the first section. -/
def Topic.firstPage (t : Topic) : Option String := do
  return (← (← t.children.head?).children.head?).slug

/-- The parts of a path. -/
def pathParts (path : String) : List (List Char) := path.toList.splitOn '/'

/-- Whether a slug ends with `path`, `/v` and a number. -/
def isVersionOf (slug path : String) : Bool :=
  let slug := slug.toList
  let stem := dropEndWhile isDigit slug
  stem.length < slug.length &&
    match dropSuffix? ['/', 'v'] stem with
    | some rest => endsWith path.toList rest
    | none => false

namespace DocsIndex

/-- The way to the first page of a topic. -/
def toFirstPage (topic : Option Topic) : Route :=
  match topic.bind Topic.firstPage with
  | some slug => .redirect ("/" ++ slug) redirectStatus
  | none => .notFound

/-- The last topic that is a version of a package. -/
def latest? (index : DocsIndex) (name : String) : Option Topic :=
  index.topics.values.reverse.find? fun t => isVersionOf t.slug name

/-- The versions of a package: for each key `name/version…`, what follows the name, up to the
next slash. -/
def versions (index : DocsIndex) (name : List Char) : List String :=
  index.topics.keys.filterMap fun key =>
    (dropPrefix? (name ++ ['/']) key.toList).map fun rest =>
      String.ofList (rest.takeWhile (· != '/'))

/-- Where a path leads. -/
def resolve (index : DocsIndex) (path : String) : Route :=
  match pathParts path with
  | name :: version :: rest =>
    match index.topics.get? (String.ofList (name ++ '/' :: version)) with
    | none => .notFound
    | some topic =>
      if rest.isEmpty then toFirstPage topic
      else .layout ⟨topic.children, String.ofList version, index.versions name⟩
  | _ => toFirstPage (index.latest? path)

/-- The page of a path, or the page to which the path leads. -/
def page (index : DocsIndex) (path : String) : PageRoute :=
  match index.pages.get? path with
  | some page => .page page
  | none =>
    match index.resolve path with
    | .redirect location status => .redirect location status
    | _ => .notFound

end DocsIndex

/-! ## As JSON -/

namespace PageLink

/-- A link from its record. -/
def ofJson? (value : Json) : Option PageLink := do
  match ← value.fields? ["slug", "title"] with
  | [slug, title] =>
    return { slug := ← Json.required Json.text? slug, title := ← Json.required Json.text? title }
  | _ => none

/-- The record of a link. -/
def toJson (l : PageLink) : Json := .ofMembers [("slug", .text l.slug), ("title", .text l.title)]

end PageLink

namespace Section

/-- A section from its record. -/
def ofJson? (value : Json) : Option Section := do
  match ← value.fields? ["slug", "title", "children"] with
  | [slug, title, children] =>
    return {
      slug := ← Json.required Json.text? slug
      title := ← Json.required Json.text? title
      children := ← Json.withDefault [] (Json.listOf? PageLink.ofJson?) children }
  | _ => none

/-- The record of a section. -/
def toJson (s : Section) : Json :=
  .ofMembers [("slug", .text s.slug), ("title", .text s.title),
    ("children", .array (s.children.map PageLink.toJson))]

end Section

namespace Topic

/-- A topic from its record. -/
def ofJson? (value : Json) : Option Topic := do
  match ← value.fields? ["slug", "title", "children"] with
  | [slug, title, children] =>
    return {
      slug := ← Json.required Json.text? slug
      title := ← Json.required Json.text? title
      children := ← Json.withDefault [] (Json.listOf? Section.ofJson?) children }
  | _ => none

/-- The record of a topic. -/
def toJson (t : Topic) : Json :=
  .ofMembers [("slug", .text t.slug), ("title", .text t.title),
    ("children", .array (t.children.map Section.toJson))]

end Topic

namespace Page

/-- A page from its record. -/
def ofJson? (value : Json) : Option Page := do
  match ← value.fields? ["slug", "title", "body"] with
  | [slug, title, body] =>
    return {
      slug := ← Json.required Json.text? slug
      title := ← Json.required Json.text? title
      body := ← Json.required Json.text? body }
  | _ => none

/-- The record of a page. -/
def toJson (p : Page) : Json :=
  .ofMembers [("slug", .text p.slug), ("title", .text p.title), ("body", .text p.body)]

end Page

namespace DocsIndex

/-- The entries of an object, decoded one by one. -/
def keyed? {α : Type} (decode : Json → Option α) : Json → Option (Keyed String α)
  | .object members => do
    return .ofList (← members.mapM fun m => do return (← m.1, ← decode m.2))
  | _ => none

/-- An index from its record; both fields must be there. -/
def ofJson? (value : Json) : Option DocsIndex := do
  match ← value.fields? ["topics", "pages"] with
  | [topics, pages] =>
    return {
      topics := ← Json.required (keyed? Topic.ofJson?) topics
      pages := ← Json.required (keyed? Page.ofJson?) pages }
  | _ => none

end DocsIndex

end ReferencePages
