/-!
# Lexemes of a snippet

The formatter tells code from comments, string literals and template literals. Comments and
templates may span lines, so a line is scanned in the mode in which the line before it ended.
The texts of a line's lexemes, one after the other, are the line (`scan_flatten`).
-/

namespace ReferencePages

/-- What the scanner is inside of. -/
inductive Mode where
  | code
  | comment
  | template
deriving Repr, DecidableEq, Inhabited

/-- A part of a line. -/
inductive Lexeme where
  /-- A character of code. -/
  | code (c : Char)
  /-- The arrow of a function. -/
  | arrow
  /-- A string literal with its quotes. -/
  | literal (s : List Char)
  /-- A comment up to the end of the line, with its slashes. -/
  | lineComment (s : List Char)
  | openComment
  | commentChar (c : Char)
  | closeComment
  | openTemplate
  | templateChar (c : Char)
  /-- A backslash and the character it escapes. -/
  | templateEscape (c : Char)
  | closeTemplate
deriving Repr, DecidableEq

namespace Lexeme

/-- The text of a lexeme. -/
def text : Lexeme → List Char
  | .code c => [c]
  | .arrow => ['=', '>']
  | .literal s => s
  | .lineComment s => s
  | .openComment => ['/', '*']
  | .commentChar c => [c]
  | .closeComment => ['*', '/']
  | .openTemplate => ['`']
  | .templateChar c => [c]
  | .templateEscape c => ['\\', c]
  | .closeTemplate => ['`']

/-- The mode behind a lexeme that was read in a mode. -/
def modeAfter (m : Mode) : Lexeme → Mode
  | .openComment => .comment
  | .closeComment => .code
  | .openTemplate => .template
  | .closeTemplate => .code
  | _ => m

end Lexeme

/-- Cut behind the first quote that no backslash escapes. -/
def cutLiteral (quote : Char) : List Char → List Char × List Char
  | [] => ([], [])
  | '\\' :: c :: s =>
    let (inside, rest) := cutLiteral quote s
    ('\\' :: c :: inside, rest)
  | c :: s =>
    if c = quote then ([c], s)
    else
      let (inside, rest) := cutLiteral quote s
      (c :: inside, rest)

theorem cutLiteral_append (quote : Char) (s : List Char) :
    (cutLiteral quote s).1 ++ (cutLiteral quote s).2 = s := by
  fun_induction cutLiteral quote s <;> simp_all

theorem length_cutLiteral_le (quote : Char) (s : List Char) :
    (cutLiteral quote s).2.length ≤ s.length := by
  conv => rhs; rw [← cutLiteral_append quote s]
  simp

/-- The first lexeme of a text in a mode, and the text behind it. -/
def nextLexeme (m : Mode) (c : Char) (s : List Char) : Lexeme × List Char :=
  match m, c, s with
  | .comment, '*', '/' :: s => (.closeComment, s)
  | .comment, c, s => (.commentChar c, s)
  | .template, '\\', c :: s => (.templateEscape c, s)
  | .template, '`', s => (.closeTemplate, s)
  | .template, c, s => (.templateChar c, s)
  | .code, '/', '/' :: s => (.lineComment ('/' :: '/' :: s), [])
  | .code, '/', '*' :: s => (.openComment, s)
  | .code, '=', '>' :: s => (.arrow, s)
  | .code, '`', s => (.openTemplate, s)
  | .code, '"', s => (.literal ('"' :: (cutLiteral '"' s).1), (cutLiteral '"' s).2)
  | .code, '\'', s => (.literal ('\'' :: (cutLiteral '\'' s).1), (cutLiteral '\'' s).2)
  | .code, c, s => (.code c, s)

theorem nextLexeme_append (m : Mode) (c : Char) (s : List Char) :
    (nextLexeme m c s).1.text ++ (nextLexeme m c s).2 = c :: s := by
  unfold nextLexeme
  split <;> simp [Lexeme.text, cutLiteral_append]

theorem length_nextLexeme_le (m : Mode) (c : Char) (s : List Char) :
    (nextLexeme m c s).2.length ≤ s.length := by
  unfold nextLexeme
  split <;> simp [length_cutLiteral_le]

/-- The lexemes of a text. -/
def scan (m : Mode) : List Char → List Lexeme
  | [] => []
  | c :: s =>
    let next := nextLexeme m c s
    next.1 :: scan (next.1.modeAfter m) next.2
termination_by s => s.length
decreasing_by
  have := length_nextLexeme_le m c s
  simp only [List.length_cons]
  omega

theorem scan_flatten (m : Mode) (s : List Char) : (scan m s).flatMap Lexeme.text = s := by
  fun_induction scan m s with
  | case1 => rfl
  | case2 m c s next ih =>
    rw [List.flatMap_cons, ih]
    exact nextLexeme_append m c s

/-- The mode behind some lexemes. -/
def modeAfterAll (m : Mode) (ls : List Lexeme) : Mode := ls.foldl Lexeme.modeAfter m

end ReferencePages
