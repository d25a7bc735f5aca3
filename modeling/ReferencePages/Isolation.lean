import ReferencePages.Error
import ReferencePages.Symbol

/-!
# Isolating configuration types

The two configuration types of a package are taken out of their module, so that pages can
include them on their own. The modules that are left are part of the outcome also where
isolation fails.
-/

namespace ReferencePages

/-- Which types of which module are isolated. -/
structure ConfigTypeNames where
  /-- The module that declares both. -/
  module : String
  /-- Shown as one type block. -/
  collapsed : String
  /-- Shown with one section for each member. -/
  expanded : String
deriving Repr, DecidableEq, Inhabited

/-- The types taken out of a module, and the module that is left. Both are looked for before
either is taken; where both have one name, two types of that name are needed. -/
def DocModule.isolate (m : DocModule) (names : ConfigTypeNames) :
    Except DocError ConfigTypes × DocModule :=
  match [names.collapsed, names.expanded].find? fun name => (m.findType name).isNone with
  | some name => (.error (.symbolNotFound (names.module ++ "#" ++ name)), m)
  | none =>
    match m.takeType names.collapsed with
    | none => (.error (.symbolNotFound names.module), m)
    | some (collapsed, m) =>
      match m.takeType names.expanded with
      | none => (.error (.symbolNotFound names.module), m)
      | some (expanded, m) => (.ok ⟨collapsed, expanded⟩, m)

/-- The configuration types taken out of the first module of the given name, and the modules
that are left. -/
def isolateConfigTypes (names : ConfigTypeNames) : List DocModule →
    Except DocError ConfigTypes × List DocModule
  | [] => (.error (.symbolNotFound names.module), [])
  | m :: rest =>
    if m.name = names.module then
      let (outcome, m) := m.isolate names
      (outcome, m :: rest)
    else
      let (outcome, rest) := isolateConfigTypes names rest
      (outcome, m :: rest)

end ReferencePages
