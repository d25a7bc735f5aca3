import ReferencePages.Json.Record
import ReferencePages.Snippet.Options

/-!
# The formatter's settings as a record

Every field may be missing. The width is an integer of at most 64 bits without a sign.
-/

namespace ReferencePages.FormatOptions

/-- A width. -/
def width? (value : Json) : Option Nat := do
  let n ← value.integer?
  if 0 ≤ n ∧ n.toNat < Nat.pow 2 64 then some n.toNat else none

/-- The settings of a record. -/
def ofJson? (value : Json) : Option FormatOptions := do
  let defaults : FormatOptions := {}
  match ← value.fields? ["print_width", "use_tabs", "single_quote", "trailing_comma"] with
  | [width, tabs, single, comma] =>
    return {
      printWidth := ← Json.withDefault defaults.printWidth width? width
      useTabs := ← Json.withDefault defaults.useTabs Json.bool? tabs
      singleQuote := ← Json.withDefault defaults.singleQuote Json.bool? single
      trailingComma := ← Json.withDefault defaults.trailingComma Json.bool? comma }
  | _ => none

end ReferencePages.FormatOptions
