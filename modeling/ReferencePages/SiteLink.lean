import ReferencePages.Symbol
import ReferencePages.Text.Search

/-!
# Links to the documentation site

Comments link to pages of the site by paths that have moved into its reference section. Three
rules move them, one after the other, each on the whole text that the one before it left:

* a page that is part of the reference section goes there, and loses the name of the host;
* an anchor on the page of all modules goes to the page of its own module;
* the page of the command line goes to the reference section.
-/

namespace ReferencePages.SiteLink

/-- The host that a link may name. -/
def host : List Char := "https://kit.svelte.dev".toList

/-- Where the reference section is. -/
def reference : List Char := "/docs/kit/reference/".toList

/-- The pages that are part of the reference section. -/
def referencePages : List (List Char) :=
  ["cli".toList, "modules".toList, "types".toList, "configuration".toList]

/-- A link to a page, up to the anchor or the parenthesis behind it, with what replaces it. -/
def pageLink : Pattern (List Char) := fun s => do
  let rest ← dropPrefix? "/docs/".toList ((dropPrefix? host s).getD s)
  let page := rest.takeWhile fun c => c != '#' && c != ')'
  let length := s.length - (rest.length - page.length)
  if page.isEmpty then none
  else if referencePages.contains page then some (reference ++ page, length - 1)
  else some (s.take length, length - 1)

/-- Where the anchor of three parts on the page of all modules leads. -/
def anchorTarget (scope name member : List Char) : List Char :=
  if scope = "$env".toList then
    reference ++ "$env-all#".toList ++ scope ++ '-' :: name ++ '-' :: member
  else
    let scope := if scope = "sveltejs".toList then "@sveltejs".toList else scope
    reference ++ scope ++ '-' :: name ++ '#' :: member

/-- An anchor on the page of all modules, with what replaces it. -/
def moduleAnchor : Pattern (List Char) := fun s => do
  let rest ← dropPrefix? (reference ++ "modules#".toList) s
  let scope := rest.takeWhile (· != '-')
  match rest.drop scope.length with
  | '-' :: rest =>
    let name := rest.takeWhile (· != '-')
    match rest.drop name.length with
    | '-' :: rest =>
      let member := rest.takeWhile fun c => c != '-' && c != ')'
      if scope.isEmpty || name.isEmpty || member.isEmpty then none
      else some (anchorTarget scope name member, s.length - (rest.length - member.length) - 1)
    | _ => none
  | _ => none

/-- The first rule: pages of the reference section. -/
def movePages (s : List Char) : List Char := replaceMatches pageLink id s

/-- The second rule: anchors of modules. -/
def moveAnchors (s : List Char) : List Char := replaceMatches moduleAnchor id s

/-- The third rule: the page of the command line. -/
def moveCommandLine (s : List Char) : List Char :=
  replaceAll "/docs/cli".toList (reference ++ "cli".toList) s

/-- Move every link of a text. -/
def moveLinks (s : List Char) : List Char := moveCommandLine (moveAnchors (movePages s))

end ReferencePages.SiteLink

namespace ReferencePages

/-- Move every link in the texts of some modules. -/
def moveModuleLinks (ms : List DocModule) : List DocModule :=
  ms.map (DocModule.mapText fun s => String.ofList (SiteLink.moveLinks s.toList))

/-- A module comment without the name of the documentation's host, where one is given. -/
def stripOrigin (origin : Option String) (s : String) : String :=
  match origin with
  | some origin => String.ofList (replaceAll origin.toList [] s.toList)
  | none => s

end ReferencePages
