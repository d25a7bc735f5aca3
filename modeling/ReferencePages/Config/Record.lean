import ReferencePages.Config.Basic
import ReferencePages.Snippet.Record
import ReferencePages.Toml.Document

/-!
# Configurations in TOML

The parts of a configuration are records. In TOML, further items behind the fields of a record
that is given as an array are ignored.
-/

namespace ReferencePages

/-- The generator of a record. -/
def Generator.ofJson? (value : Json) : Option Generator := do
  match ← value.fields? ["program", "args", "cwd", "listing"] with
  | [program, args, directory, listing] =>
    return {
      program := ← Json.required Json.text? program
      args := ← Json.withDefault [] (Json.listOf? Json.text?) args
      directory := ← Json.required Json.text? directory
      listing := ← Json.optional Json.text? listing }
  | _ => none

/-- The sources of a record. -/
def DeclarationSources.ofJson? (value : Json) : Option DeclarationSources := do
  match ← value.fields? ["private", "synthetic", "entry", "origin"] with
  | [privateTypes, fragments, entry, origin] =>
    return {
      privateTypes := ← Json.optional Json.text? privateTypes
      fragments := ← Json.optional Json.text? fragments
      entry := ← Json.required Json.text? entry
      origin := ← Json.optional Json.text? origin }
  | _ => none

/-- The names of a record. -/
def ConfigTypeNames.ofJson? (value : Json) : Option ConfigTypeNames := do
  match ← value.fields? ["module", "collapsed", "expanded"] with
  | [module, collapsed, expanded] =>
    return {
      module := ← Json.required Json.text? module
      collapsed := ← Json.required Json.text? collapsed
      expanded := ← Json.required Json.text? expanded }
  | _ => none

/-- A record as TOML gives it, for a record of `n` fields. -/
def Json.firstFields (n : Nat) : Json → Json
  | .array items => .array (items.take n)
  | value => value

/-- The package of a record. Given as an array, it has all of its fields. -/
def Package.ofToml? (value : Json) : Option Package := do
  if value.items?.any fun items => items.length < 6 then none
  let fields ← (value.firstFields 6).fields?
    ["name", "reference_dir", "rewrite_links", "generator", "declarations", "config_types"]
  match fields with
  | [name, referenceDir, moveLinks, generator, declarations, configTypes] =>
    return {
      name := ← Json.required Json.text? name
      referenceDir := ← Json.required Json.text? referenceDir
      moveLinks := ← Json.withDefault false Json.bool? moveLinks
      generator := ← Json.optional (fun v => Generator.ofJson? (v.firstFields 4)) generator
      declarations :=
        ← Json.optional (fun v => DeclarationSources.ofJson? (v.firstFields 4)) declarations
      configTypes :=
        ← Json.optional (fun v => ConfigTypeNames.ofJson? (v.firstFields 3)) configTypes }
  | _ => none

namespace Config

/-- The configuration of a record. -/
def ofToml? (value : Json) : Option Config := do
  match ← value.fields? ["package", "format"] with
  | [packages, format] =>
    return {
      packages := ← Json.withDefault [] (Json.listOf? Package.ofToml?) packages
      format := ← Json.withDefault {} (fun v => FormatOptions.ofJson? (v.firstFields 4)) format }
  | _ => none

/-- The configuration of a text in TOML. -/
def ofText? (text : String) : Option Config := (Toml.ofText? text).bind ofToml?

end Config

end ReferencePages
