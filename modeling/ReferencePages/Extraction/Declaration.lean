import ReferencePages.Error
import ReferencePages.Extraction.Member
import ReferencePages.Snippet.Format
import ReferencePages.Text.Search

/-!
# Symbols of declarations

Each exported declaration of a module becomes a symbol. The snippet of an interface or class
shows its body collapsed, since its members are symbols of their own.

The body is found by its braces: the last opening brace before the first member, comments
included, and the first closing brace behind the last member.
-/

namespace ReferencePages

open TypeScript

/-! ## Collapsing -/

/-- The text up to the last `c`, which is included. -/
def throughLast? (c : Char) (s : List Char) : Option (List Char) :=
  let behind := (s.reverse.takeWhile (· != c)).length
  if behind = s.length then none else some (s.take (s.length - behind))

/-- The text from the first `c` on. -/
def fromFirst? (c : Char) (s : List Char) : Option (List Char) :=
  let rest := s.dropWhile (· != c)
  if rest.isEmpty then none else some rest

/-- A number, moved into the range from `lo` to `hi`. -/
def clamp (lo hi n : Nat) : Nat := min hi (max lo n)

/-- A part of the source with the body of its members collapsed. A part without members stays as
it is. -/
def collapse? (source : List Char) (part : Span) (members : List Site) : Option (List Char) :=
  match members.head?, members.getLast? with
  | some first, some last => do
    let bodyStart := clamp part.lo part.hi first.fullStart
    let bodyEnd := clamp bodyStart part.hi last.span.hi
    let header ← throughLast? '\x7b' (Span.slice ⟨part.lo, bodyStart⟩ source)
    let rest ← fromFirst? '\x7d' (Span.slice ⟨bodyEnd, part.hi⟩ source)
    return header ++ collapsedBody ++ rest
  | _, _ => some (part.slice source)

/-- A collapsed body with the blanks around it. -/
def paddedBody : Pattern Unit := fun s => do
  let rest ← dropPrefix? collapsedBody (trimStart s)
  return ((), s.length - (trimStart rest).length - 1)

/-- A snippet in which no blank stands beside a collapsed body. -/
def tightenBody (s : List Char) : List Char := replaceMatches paddedBody (fun _ => collapsedBody) s

/-- The formatted text of a declaration. -/
def declarationSnippet (o : FormatOptions) (text : List Char) : String :=
  String.ofList (trim (tightenBody (formatSnippet o (String.ofList (trim text))).toList))

/-! ## Declarations -/

/-- The name that a declaration is documented by. -/
def TypeScript.Declaration.name? : Declaration → Option String
  | .classDecl name _ => some name
  | .interfaceDecl name _ => some name
  | .typeAlias name => some name
  | .namespaceDecl name _ => some name
  | .variableDecl name => name
  | .functionDecl name => some name
  | .other => none

/-- Whether a declaration declares values and not types. -/
def TypeScript.Declaration.isValue : Declaration → Bool
  | .variableDecl _ => true
  | .functionDecl _ => true
  | _ => false

/-- Where the members of a declaration stand that are shown on their own. -/
def TypeScript.Declaration.memberSites : Declaration → List Site
  | .classDecl _ members => members.map ClassMember.site
  | .interfaceDecl _ members => members.map TypeMember.site
  | _ => []

/-- The symbols of the members of a declaration. -/
def TypeScript.Declaration.memberSymbols (source : List Char) : Declaration → List Symbol
  | .classDecl _ members => classMemberSymbols source 1 members
  | .interfaceDecl _ members => typeMemberSymbols source 1 members
  | _ => []

/-- The part of an export behind its keyword. -/
def exportedSpan (site : Site) : Span :=
  ⟨min (site.span.lo + "export".length) site.span.hi, site.span.hi⟩

/-- The symbol of an exported declaration of a name. -/
def exportedSymbol (o : FormatOptions) (source : List Char) (site : Site)
    (declaration : Declaration) (name : String) : Except DocError Symbol :=
  match collapse? source (exportedSpan site) declaration.memberSites with
  | none => .error (.collapseBoundary name)
  | some text =>
    .ok {
      name
      comment := site.doc.normalizedDescription
      snippet := declarationSnippet o text
      deprecated := site.doc.deprecationNotice
      children := declaration.memberSymbols source
      bullets := site.doc.bullets }

/-! ## Modules -/

/-- The symbols of a module. -/
structure Extraction where
  /-- Variables and functions. -/
  exports : List Symbol := []
  /-- Classes, interfaces, type aliases and namespaces. -/
  types : List Symbol := []
deriving Repr, Inhabited

namespace Extraction

/-- Add a symbol behind those of its kind. -/
def push (e : Extraction) (isValue : Bool) (s : Symbol) : Extraction :=
  if isValue then { e with exports := e.exports ++ [s] } else { e with types := e.types ++ [s] }

/-- Add the symbol of an item, if it exports a declaration that is documented. -/
def add (o : FormatOptions) (source : List Char) (e : Extraction) : Item →
    Except DocError Extraction
  | .exported site declaration =>
    match declaration.name? with
    | some name => do
      let symbol ← exportedSymbol o source site declaration name
      return e.push declaration.isValue symbol
    | none => .ok e
  | _ => .ok e

/-- The symbols in order of name; equal names stay in order. -/
def sort (e : Extraction) : Extraction :=
  ⟨sortByName Symbol.name e.exports, sortByName Symbol.name e.types⟩

/-- The symbols of the items of a module. -/
def ofItems (o : FormatOptions) (source : List Char) (items : List Item) :
    Except DocError Extraction := do
  return (← items.foldlM (add o source) {}).sort

end Extraction

end ReferencePages
