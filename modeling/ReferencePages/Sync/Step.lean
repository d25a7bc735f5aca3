import ReferencePages.Error
import ReferencePages.Sync.FileTree

/-!
# Steps on a file tree

A step reads and changes the file tree, and may fail. What it changed before it failed
stays changed.

An outside program changes the tree in its own way; how is a parameter of the steps that start
one. So is what the disk does with each file that is written to it.
-/

namespace ReferencePages

/-- A step on the file tree. -/
abbrev TreeStep := ExceptT DocError (StateM FileTree)

namespace TreeStep

variable {α : Type}

/-- What a step returns, and the tree it leaves. -/
def runOn (step : TreeStep α) (t : FileTree) : Except DocError α × FileTree :=
  (ExceptT.run step).run t

/-- A step that only reads the tree. -/
def reading (f : FileTree → Except DocError α) : TreeStep α := do
  match f (← get) with
  | .ok x => return x
  | .error e => throw e

/-- A step that does not use the tree. -/
def ofExcept (x : Except DocError α) : TreeStep α := reading fun _ => x

end TreeStep

/-- How an outside program ends. -/
inductive Ending where
  /-- The program could not be started. -/
  | notStarted
  /-- The program ended with a status, having written this to its error output. -/
  | ended (status : Nat) (errors : String)
deriving Repr, DecidableEq, Inhabited

/-- What outside programs do: how a program with its arguments ends in a directory, and the tree
it leaves. -/
abbrev Programs := (directory : String) → (command : List String) → FileTree → Ending × FileTree

/-- What a disk does with the files that are written to it: with the first, the second, and so
on. -/
abbrev Storage := Nat → Storing

/-- A disk that takes every file. -/
def Storage.ample : Storage := fun _ => .whole

/-- The disk behind its first file. -/
def Storage.tail (storage : Storage) : Storage := fun n => storage (n + 1)

end ReferencePages
