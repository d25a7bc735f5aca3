import ReferencePages.Json.Basic

/-!
# Records in JSON

A record is an object with named fields; other fields are ignored. It may also be given as the
array of its fields in order, where fields at the end may be missing. A field is decoded from
its value, or from nothing where it is missing.
-/

namespace ReferencePages.Json

/-- The fields of a record in the order of `names`. A repeated field, a key without a text and
an array with too many items make it no record. -/
def fields? (names : List String) : Json → Option (List (Option Json))
  | .array items =>
    if items.length ≤ names.length then
      some (items.map some ++ List.replicate (names.length - items.length) none)
    else none
  | .object members =>
    let keys := members.map Prod.fst
    if keys.all (·.isSome) && names.all (fun name => keys.count (some name) ≤ 1) then
      some (names.map fun name => (members.find? fun m => m.1 = some name).map Prod.snd)
    else none
  | _ => none

/-- A field that must be there. -/
def required {α : Type} (decode : Json → Option α) : Option Json → Option α
  | some value => decode value
  | none => none

/-- A field that stands for `default` where it is missing. -/
def withDefault {α : Type} (default : α) (decode : Json → Option α) : Option Json → Option α
  | some value => decode value
  | none => some default

/-- A field that may be missing or null. -/
def optional {α : Type} (decode : Json → Option α) : Option Json → Option (Option α)
  | some .null => some none
  | some value => (decode value).map some
  | none => some none

/-- A list of values. -/
def listOf? {α : Type} (decode : Json → Option α) (value : Json) : Option (List α) := do
  (← value.items?).mapM decode

end ReferencePages.Json
