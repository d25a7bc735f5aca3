import ReferencePages.Json.Printer
import ReferencePages.Json.Reader
import ReferencePages.Json.Record
import ReferencePages.Symbol

/-!
# Module listings

A listing is a JSON text that holds the modules of a package. A program that produces the
documentation of a package writes one; the modules of any package can be written as one.

Reading bounds how deep arrays and objects nest, at `Listing.maxDepth`.
-/

namespace ReferencePages

namespace Symbol

/-- A symbol from a value in which arrays and objects nest at most `depth` deep. -/
def ofJson? : Nat → Json → Option Symbol
  | 0, _ => none
  | depth + 1, value => do
    let texts? : Json → Option (List String) :=
      if depth = 0 then fun _ => none else Json.listOf? Json.text?
    let symbols? : Json → Option (List Symbol) :=
      match depth with
      | 0 => fun _ => none
      | depth + 1 => Json.listOf? (ofJson? depth)
    let fields ← value.fields? ["name", "comment", "snippet", "deprecated", "children", "bullets"]
    match fields with
    | [name, comment, snippet, deprecated, children, bullets] =>
      return {
        name := ← Json.required Json.text? name
        comment := ← Json.withDefault "" Json.text? comment
        snippet := ← Json.withDefault "" Json.text? snippet
        deprecated := ← Json.optional Json.text? deprecated
        children := ← Json.withDefault [] symbols? children
        bullets := ← Json.withDefault [] texts? bullets }
    | _ => none

mutual

/-- The value of a symbol. A symbol that is not deprecated has no such member. -/
def toJson : Symbol → Json
  | ⟨name, comment, snippet, deprecated, children, bullets⟩ =>
    .ofMembers ([("name", .text name), ("comment", .text comment), ("snippet", .text snippet)] ++
      deprecated.toList.map (fun notice => ("deprecated", .text notice)) ++
      [("children", .array (toJsons children)), ("bullets", .array (bullets.map Json.text))])

/-- The values of several symbols. -/
def toJsons : List Symbol → List Json
  | [] => []
  | s :: rest => s.toJson :: toJsons rest

end

end Symbol

namespace DocModule

/-- A module from a value in which arrays and objects nest at most `depth` deep. -/
def ofJson? (depth : Nat) (value : Json) : Option DocModule := do
  let fields ← value.fields? ["name", "comment", "exports", "types", "exempt"]
  match fields with
  | [name, comment, exports, types, exempt] =>
    return {
      name := ← Json.required Json.text? name
      comment := ← Json.withDefault "" Json.text? comment
      exports := ← Json.withDefault [] (Json.listOf? (Symbol.ofJson? (depth - 2))) exports
      types := ← Json.withDefault [] (Json.listOf? (Symbol.ofJson? (depth - 2))) types
      exempt := ← Json.withDefault false Json.bool? exempt }
  | _ => none

/-- The value of a module. A module that is not exempt has no such member. -/
def toJson (m : DocModule) : Json :=
  .ofMembers ([("name", .text m.name), ("comment", .text m.comment),
      ("exports", .array (Symbol.toJsons m.exports)), ("types", .array (Symbol.toJsons m.types))] ++
    if m.exempt then [("exempt", .bool true)] else [])

end DocModule

namespace Listing

/-- How deep arrays and objects nest in a listing that is read. -/
def maxDepth : Nat := 127

/-- The modules of a listing, in the order of its text. -/
def modules? (s : String) : Option (List DocModule) := do
  let fields ← (← Json.ofText? s).fields? ["modules"]
  match fields with
  | [modules] => Json.required (Json.listOf? (DocModule.ofJson? (maxDepth - 2))) modules
  | _ => none

/-- The listing of some modules. -/
def write (ms : List DocModule) : String :=
  (Json.ofMembers [("modules", .array (ms.map DocModule.toJson))]).toText ++ "\n"

end Listing

end ReferencePages
