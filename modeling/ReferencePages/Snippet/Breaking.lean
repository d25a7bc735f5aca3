import ReferencePages.Snippet.Options
import ReferencePages.Text.Lines
import ReferencePages.Text.Search

/-!
# Breaking long lines

A type alias that is too wide gets one line for each member of its union, any other line one
line for each item of its first parentheses. Both look for characters outside brackets and
literals, which `Nesting` keeps track of.
-/

namespace ReferencePages

/-! ## Outside brackets and literals -/

/-- Where a character of a line stands. -/
structure Nesting where
  /-- Open brackets. -/
  depth : Nat := 0
  /-- The quote of the literal around it. -/
  quote : Option Char := none
  /-- The character before it. -/
  previous : Char := '\x00'
deriving Repr, DecidableEq

namespace Nesting

/-- Outside brackets and literals. -/
def isTop (n : Nesting) : Bool := n.depth == 0 && n.quote.isNone

/-- Behind one more character; `angles` tells whether `<` and `>` are brackets. A `>` that ends
an arrow is none. -/
def step (angles : Bool) (n : Nesting) (c : Char) : Nesting :=
  match n.quote with
  | some q => { n with quote := if c = q ∧ n.previous ≠ '\\' then none else n.quote, previous := c }
  | none =>
    if c = '\'' ∨ c = '"' ∨ c = '`' then { n with quote := some c, previous := c }
    else if c = '(' ∨ c = '[' ∨ c = '\x7b' ∨ (angles = true ∧ c = '<') then
      { n with depth := n.depth + 1, previous := c }
    else if c = ')' ∨ c = ']' ∨ c = '\x7d' ∨ (angles = true ∧ c = '>' ∧ n.previous ≠ '=') then
      { n with depth := n.depth - 1, previous := c }
    else { n with previous := c }

end Nesting

/-- Cut before the first `target` outside brackets and literals. The `=` of an arrow is no
equals sign. -/
def cutTop? (target : Char) (n : Nesting) : List Char → Option (List Char × List Char)
  | [] => none
  | c :: s =>
    if c = target ∧ n.isTop = true ∧ ¬ (target = '=' ∧ s.head? = some '>') then some ([], c :: s)
    else (cutTop? target (n.step true c) s).map fun cut => (c :: cut.1, cut.2)

/-- Cut before the bracket that closes the first one. -/
def cutClose? (n : Nesting) : List Char → Option (List Char × List Char)
  | [] => none
  | c :: s =>
    let after := n.step false c
    if n.quote = none ∧ n.depth = 1 ∧ after.depth = 0 then some ([], c :: s)
    else (cutClose? after s).map fun cut => (c :: cut.1, cut.2)

/-- The parts between the separators outside brackets and literals, given the part so far. -/
def splitTop (sep : Char) (n : Nesting) : List Char → List (List Char)
  | [] => [[]]
  | c :: s =>
    if c = sep ∧ n.isTop = true then [] :: splitTop sep { n with previous := c } s
    else (splitTop sep (n.step true c) s).modifyHead (c :: ·)

/-! ## The two ways to break a line -/

/-- The line of a type alias, broken before each member of its union. -/
def breakUnion (o : FormatOptions) (indent body : List Char) : Option (List (List Char)) := do
  if !(startsWith "type ".toList body || startsWith "declare type ".toList body) then none
  let (left, right) ← cutTop? '=' {} body
  let right := trim (right.drop 1)
  let (right, stop) :=
    match dropSuffix? [';'] right with
    | some right => (trimEnd right, [';'])
    | none => (right, [])
  let parts := ((splitTop '|' {} right).map trim).filter (!·.isEmpty)
  if parts.length < 2 then none
  let member part stop := indent ++ o.unit ++ ['|', ' '] ++ part ++ stop
  return (indent ++ trimEnd left ++ [' ', '=']) ::
    (parts.dropLast.map (member · []) ++ parts.getLast?.toList.map (member · stop))

/-- A line, broken around each item of its first parentheses. -/
def breakParens (o : FormatOptions) (indent body : List Char) : Option (List (List Char)) := do
  let (left, right) ← cutTop? '(' {} body
  let (inner, close) ← cutClose? {} right
  let inner := trim (inner.drop 1)
  if inner.isEmpty then none
  let items := splitTop ',' {} inner
  let item part stop := indent ++ o.unit ++ trim part ++ stop
  let lastComma := if o.trailingComma then [','] else []
  return (indent ++ left ++ ['(']) ::
    (items.dropLast.map (item · [',']) ++ items.getLast?.toList.map (item · lastComma) ++
      [indent ++ close])

/-- A line, broken if it is too wide and there is a way to break it. -/
def breakLine (o : FormatOptions) (line : List Char) : List (List Char) :=
  if displayWidth line ≤ o.printWidth then [line]
  else
    let indent := line.takeWhile isBlank
    let body := trimStart line
    ((breakUnion o indent body).or (breakParens o indent body)).getD [line]

end ReferencePages
