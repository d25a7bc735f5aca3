import ReferencePages.Readers
import ReferencePages.Sync.Step
import ReferencePages.Text.Blank

/-!
# Modules from an outside program

The program of a package runs to its end, then the listing that it wrote is read. A package may
run a program without a listing, for what it does to the declaration files.
-/

namespace ReferencePages

/-- The modules of a listing in a file, everything in order of name. -/
def readListing (readers : Readers) (path command : String) (t : FileTree) :
    Except DocError (List DocModule) :=
  match t.readText? path with
  | none => .error (.generator command (.unreadableListing path))
  | some text =>
    match readers.modules? text with
    | some ms => .ok (sortModules (ms.map DocModule.sort))
    | none => .error (.generator command (.invalidListing path))

namespace Generator

/-- Run the program of a package. -/
def run (programs : Programs) (g : Generator) : TreeStep Unit := do
  let (ending, t) := programs g.directory (g.program :: g.args) (← get)
  set t
  match ending with
  | .notStarted => throw (.generator g.commandLine .notStarted)
  | .ended 0 _ => return
  | .ended status errors =>
    throw (.generator g.commandLine (.exited status (String.ofList (trim errors.toList))))

/-- Run the program of a package, then read its listing, if it writes one. -/
def modules? (readers : Readers) (programs : Programs) (g : Generator) :
    TreeStep (Option (List DocModule)) := do
  g.run programs
  match g.listingPath? with
  | some path => some <$> TreeStep.reading (readListing readers path g.commandLine)
  | none => return none

end Generator

end ReferencePages
