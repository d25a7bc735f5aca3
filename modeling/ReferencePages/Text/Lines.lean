import ReferencePages.Text.Blank

/-!
# Lines

A line ends at a line feed, which takes a carriage return directly before it along. The text
after the last line feed is a line of its own unless it is empty.
-/

namespace ReferencePages

/-- Drop one carriage return at the end. -/
def dropCarriageReturn (s : List Char) : List Char :=
  if s.getLast? = some '\r' then s.dropLast else s

/-- What stands between the line feeds, the parts before the first and after the last included. -/
def splitLines (s : List Char) : List (List Char) := s.splitOn '\n'

/-- The lines of a text, without what ends them. -/
def lines (s : List Char) : List (List Char) :=
  let parts := splitLines s
  parts.dropLast.map dropCarriageReturn ++ parts.getLast?.toList.filter (!·.isEmpty)

/-- Join parts with `sep` between each two. -/
def joinWith (sep : List Char) (parts : List (List Char)) : List Char := sep.intercalate parts

/-- Join lines with a line feed between each two. -/
def joinLines (parts : List (List Char)) : List Char := joinWith ['\n'] parts

/-- `n` copies of `s`, one after the other. -/
def repeated (n : Nat) (s : List Char) : List Char := (List.replicate n s).flatten

end ReferencePages
