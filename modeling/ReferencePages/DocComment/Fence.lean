import ReferencePages.Text.Search

/-!
# Fenced examples in declaration files

An example behind a `js` fence in a doc comment cannot hold doc comments of its own. Each such
fence gets one more line behind its first, which tells that untyped parameters are expected.
-/

namespace ReferencePages

/-- The opening of a fenced `js` example with the gutter before it, up to its closing fence:
the gutter and what stands between the language and the closing fence. -/
def jsFence : Pattern (List Char × List Char) := fun s => do
  let before := s.takeWhile isBlank
  match s.dropWhile isBlank with
  | '*' :: s' =>
    let gutter := before ++ '*' :: s'.takeWhile isBlank
    match ← dropPrefix? "```js".toList (s'.dropWhile isBlank) with
    | c :: s' =>
      let (body, rest) ← splitAtFirst? ['`', '`', '`'] s'
      return ((gutter, c :: body), s.length - rest.length - 1)
    | [] => none
  | _ => none

/-- A fenced `js` example with the line for expected errors. -/
def markedFence (example? : List Char × List Char) : List Char :=
  let (gutter, body) := example?
  gutter ++ "```js".toList ++ gutter ++ "/// errors: 7031".toList ++ body ++ ['`', '`', '`']

/-- Mark every fenced `js` example of a declaration file. -/
def markExamples (source : String) : String :=
  String.ofList (replaceMatches jsFence markedFence source.toList)

end ReferencePages
