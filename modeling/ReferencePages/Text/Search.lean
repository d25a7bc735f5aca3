import ReferencePages.Text.Blank

/-!
# Searching and replacing

A match of a pattern is found by trying it at every position, leftmost first, and the search
goes on behind the match. `pieces` lays a text out as the characters that no match covers and
the matches between them; replacing is a `flatMap` over the pieces.
-/

namespace ReferencePages

/-- What follows `p` at the start of `s`, if `s` starts with `p`. -/
def dropPrefix? : (p s : List Char) → Option (List Char)
  | [], s => some s
  | _ :: _, [] => none
  | a :: p, b :: s => if a = b then dropPrefix? p s else none

/-- Whether `s` starts with `p`. -/
def startsWith (p s : List Char) : Bool := (dropPrefix? p s).isSome

/-- Whether `s` ends with `p`. -/
def endsWith (p s : List Char) : Bool := startsWith p.reverse s.reverse

/-- What stands before `p` at the end of `s`, if `s` ends with `p`. -/
def dropSuffix? (p s : List Char) : Option (List Char) :=
  (dropPrefix? p.reverse s.reverse).map List.reverse

/-- Cut `s` at the first occurrence of `p` into what stands before it and what follows it. -/
def splitAtFirst? (p : List Char) : List Char → Option (List Char × List Char)
  | [] => if p.isEmpty then some ([], []) else none
  | c :: s =>
    match dropPrefix? p (c :: s) with
    | some rest => some ([], rest)
    | none => (splitAtFirst? p s).map fun cut => (c :: cut.1, cut.2)

/-- Whether `p` occurs in `s`. -/
def contains (p s : List Char) : Bool := (splitAtFirst? p s).isSome

/-- A part of a searched text: a character outside every match, or a match. -/
inductive Piece (α : Type) where
  | char (c : Char)
  | hit (value : α)
deriving Repr, DecidableEq

/-- A pattern: at the start of a text, a match with its value and the number of characters it
takes behind its first one. -/
abbrev Pattern (α : Type) := List Char → Option (α × Nat)

/-- Lay a text out as the leftmost matches of a pattern and the characters between them. -/
def pieces {α : Type} (pattern : Pattern α) : List Char → List (Piece α)
  | [] => []
  | c :: s =>
    match pattern (c :: s) with
    | some (value, n) => .hit value :: pieces pattern (s.drop n)
    | none => .char c :: pieces pattern s
termination_by s => s.length
decreasing_by all_goals (simp only [List.length_cons, List.length_drop]; omega)

/-- Replace every match by the text that `f` gives for it. -/
def replaceMatches {α : Type} (pattern : Pattern α) (f : α → List Char) (s : List Char) :
    List Char :=
  (pieces pattern s).flatMap fun
    | .char c => [c]
    | .hit value => f value

/-- Whether a pattern matches anywhere. -/
def hasMatch {α : Type} (pattern : Pattern α) (s : List Char) : Bool :=
  (pieces pattern s).any fun
    | .char _ => false
    | .hit _ => true

/-- The pattern that matches the text `p` and nothing else; the empty text never matches. -/
def exactly (p : List Char) : Pattern Unit := fun s =>
  if p.isEmpty then none else (dropPrefix? p s).map fun _ => ((), p.length - 1)

/-- Replace every occurrence of a non-empty `p` by `q`. -/
def replaceAll (p q s : List Char) : List Char := replaceMatches (exactly p) (fun _ => q) s

end ReferencePages
