import ReferencePages.Text.Lines
import ReferencePages.Text.Search

/-!
# Description and tags

A cleaned comment is a description followed by tags. A tag starts at `@name` at the start of a
line, or behind a blank if the name is one of `inlineTags`; never inside a code span or a fenced
block. What follows, up to the next tag, is its content.

Each line is cut into chunks, and `collect` gives every text chunk to the tag before it, or to
the description where there is none.
-/

namespace ReferencePages

/-- Tags that may start in the middle of a line. -/
def inlineTags : List String :=
  ["param", "default", "returns", "deprecated", "private", "readonly", "example", "see",
    "since", "throws", "type", "template"]

/-- A character of a tag's name. -/
def isTagChar (c : Char) : Bool := isAsciiLetter c || isDigit c || c == '_'

/-- The name behind an at sign, if a tag may start there. -/
def tagName? (s : List Char) : Option (List Char) :=
  let name := s.takeWhile isTagChar
  let closed := (s.dropWhile isTagChar).head?.all isBlank
  if name.head?.any isAsciiLetter && closed then some name else none

/-- A part of a cleaned comment: text, or a tag with what follows its name on the line. -/
inductive Chunk where
  | text (s : List Char)
  | tag (name content : List Char)
deriving Repr, DecidableEq

/-- What has been read of a line. -/
structure LinePosition where
  /-- Only blanks so far. -/
  atStart : Bool := true
  /-- Inside a code span. -/
  inCode : Bool := false
  /-- The last character was a blank. -/
  afterBlank : Bool := false

/-- The position behind one more character. -/
def LinePosition.next (p : LinePosition) (c : Char) : LinePosition where
  atStart := p.atStart && isBlank c
  inCode := if c == '`' then !p.inCode else p.inCode
  afterBlank := isBlank c

/-- The name of the tag that starts at this character of a line, if one does. -/
def startsTag? (p : LinePosition) (c : Char) (s : List Char) : Option (List Char) :=
  if c = '@' ∧ p.inCode = false then
    (tagName? s).filter fun name =>
      p.atStart || (p.afterBlank && inlineTags.contains (String.ofList name))
  else none

/-- The text of a line before its first tag, and the tags with what follows their names. -/
def cutTags (p : LinePosition) : List Char → List Char × List (List Char × List Char)
  | [] => ([], [])
  | c :: s =>
    let (head, tags) := cutTags (p.next c) s
    match startsTag? p c s with
    | some name => ([], (name, trimStart (head.drop name.length)) :: tags)
    | none => (c :: head, tags)

/-- The chunks of a line outside fenced blocks. -/
def lineChunks (line : List Char) : List Chunk :=
  let (head, tags) := cutTags {} line
  .text head :: tags.map fun tag => .tag tag.1 tag.2

/-- Whether a line opens or closes a fenced block. -/
def isFenceLine (line : List Char) : Bool := startsWith ['`', '`', '`'] (trimStart line)

/-- The chunks of each line; a fence line and what stands between two of them is text. -/
def chunksOfLines (inFence : Bool) : List (List Char) → List (List Chunk)
  | [] => []
  | line :: rest =>
    if isFenceLine line then [.text line] :: chunksOfLines (!inFence) rest
    else if inFence then [.text line] :: chunksOfLines inFence rest
    else lineChunks line :: chunksOfLines inFence rest

/-- Give each text chunk to the tag before it, or to the description. -/
def collect : List Chunk → List Char × List (List Char × List Char)
  | [] => ([], [])
  | .text s :: rest =>
    let (text, tags) := collect rest
    (s ++ text, tags)
  | .tag name content :: rest =>
    let (text, tags) := collect rest
    ([], (name, content ++ text) :: tags)

/-- Split a cleaned comment into its description and its tags with their contents. -/
def splitSections (s : List Char) : List Char × List (List Char × List Char) :=
  collect ([Chunk.text ['\n']].intercalate (chunksOfLines false (lines s)))

end ReferencePages
