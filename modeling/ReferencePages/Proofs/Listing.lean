import Mathlib.Data.List.Forall2
import ReferencePages.Listing
import ReferencePages.Proofs.Json.RoundTrip
import ReferencePages.Proofs.Order

/-!
# Reading a written listing

A record reads each of its fields from the member that was written for it, and finds an optional
field missing where none was written. So a symbol is read back from its value
(`Symbol.ofJson?_toJson`) as long as the reader may go deep enough: two levels of arrays and
objects for each level of symbols. A listing leaves room for sixty levels and a few more
(`Listing.modules?_write`).

Reading a listing sorts it: it gives the modules back in the order of names (`ListedAs`).
-/

namespace ReferencePages

/-! ## Levels of symbols -/

mutual

/-- The number of levels of a symbol with the symbols below it. -/
def Symbol.levels : Symbol → Nat
  | ⟨_, _, _, _, children, _⟩ => 1 + Symbol.levelsOf children

/-- The greatest number of levels of some symbols. -/
def Symbol.levelsOf : List Symbol → Nat
  | [] => 0
  | s :: rest => max s.levels (Symbol.levelsOf rest)

end

/-- The greatest number of levels of the symbols of a module. -/
def DocModule.levels (m : DocModule) : Nat :=
  max (Symbol.levelsOf m.exports) (Symbol.levelsOf m.types)

theorem Symbol.levels_eq (s : Symbol) : s.levels = 1 + Symbol.levelsOf s.children := by
  cases s
  rfl

theorem Symbol.levels_le_levelsOf {s : Symbol} {ss : List Symbol} (h : s ∈ ss) :
    s.levels ≤ Symbol.levelsOf ss := by
  induction ss with
  | nil => cases h
  | cons s' rest ih =>
    rw [Symbol.levelsOf]
    rcases List.mem_cons.1 h with rfl | h
    · exact Nat.le_max_left _ _
    · exact Nat.le_trans (ih h) (Nat.le_max_right _ _)

/-! ## Values of records -/

theorem Json.plain_ofMembers {members : List (String × Json)} (h : ∀ m ∈ members, m.2.Plain) :
    (Json.ofMembers members).Plain := by
  refine .object (fun m hm => ?_) fun m hm => ?_
  · obtain ⟨member, -, rfl⟩ := List.mem_map.1 hm
    rfl
  · obtain ⟨member, hmember, rfl⟩ := List.mem_map.1 hm
    exact h member hmember

theorem Json.listOf?_array {α : Type} {encode : α → Json} {decode : Json → Option α} {xs : List α}
    (h : ∀ x ∈ xs, decode (encode x) = some x) :
    Json.listOf? decode (.array (xs.map encode)) = some xs := by
  show (xs.map encode).mapM decode = some xs
  induction xs with
  | nil => rfl
  | cons x xs ih =>
    rw [List.map_cons, List.mapM_cons, h x (by simp), ih fun y hy => h y (by simp [hy])]
    rfl

theorem Json.required_some {α : Type} (decode : Json → Option α) (v : Json) :
    Json.required decode (some v) = decode v :=
  rfl

theorem Json.withDefault_some {α : Type} (default : α) (decode : Json → Option α) (v : Json) :
    Json.withDefault default decode (some v) = decode v :=
  rfl

namespace Symbol

theorem toJsons_eq_map (ss : List Symbol) : toJsons ss = ss.map toJson := by
  induction ss with
  | nil => rfl
  | cons s rest ih => rw [toJsons, ih, List.map_cons]

mutual

theorem plain_toJson : ∀ s : Symbol, s.toJson.Plain
  | ⟨name, comment, snippet, deprecated, children, bullets⟩ => by
    rw [toJson]
    refine Json.plain_ofMembers fun m hm => ?_
    have hchildren : (Json.array (toJsons children)).Plain := .array (plain_toJsons children)
    have hbullets : (Json.array (bullets.map Json.text)).Plain := .array fun v hv => by
      obtain ⟨bullet, -, rfl⟩ := List.mem_map.1 hv
      exact .text bullet
    rcases List.mem_append.1 hm with hm | hm
    · rcases List.mem_append.1 hm with hm | hm
      · simp only [List.mem_cons, List.not_mem_nil, or_false] at hm
        rcases hm with rfl | rfl | rfl
        · exact .text name
        · exact .text comment
        · exact .text snippet
      · obtain ⟨notice, -, rfl⟩ := List.mem_map.1 hm
        exact .text notice
    · simp only [List.mem_cons, List.not_mem_nil, or_false] at hm
      rcases hm with rfl | rfl
      · exact hchildren
      · exact hbullets

theorem plain_toJsons : ∀ ss : List Symbol, ∀ v ∈ toJsons ss, v.Plain
  | [] => fun _ hv => nomatch hv
  | s :: rest => fun v hv => by
    rcases List.mem_cons.1 hv with rfl | hv
    · exact plain_toJson s
    · exact plain_toJsons rest v hv

end

/-- The fields of the value of a symbol; a notice that the symbol has not is missing. -/
theorem fields?_toJson (s : Symbol) :
    s.toJson.fields? ["name", "comment", "snippet", "deprecated", "children", "bullets"] =
      some [some (.text s.name), some (.text s.comment), some (.text s.snippet),
        s.deprecated.map Json.text, some (.array (toJsons s.children)),
        some (.array (s.bullets.map Json.text))] := by
  obtain ⟨name, comment, snippet, _ | notice, children, bullets⟩ := s
  · rfl
  · rfl

/-- A symbol is read back from its value. -/
theorem ofJson?_toJson : ∀ (depth : Nat) (s : Symbol), 2 * s.levels ≤ depth →
    ofJson? depth s.toJson = some s
  | 0, s, h => by
    rw [levels_eq] at h
    omega
  | 1, s, h => by
    rw [levels_eq] at h
    omega
  | depth + 2, s, h => by
    rw [levels_eq] at h
    have hchildren : Json.listOf? (ofJson? depth) (.array (toJsons s.children)) =
        some s.children := by
      rw [toJsons_eq_map]
      refine Json.listOf?_array fun child hchild => ofJson?_toJson depth child ?_
      have hlevels := levels_le_levelsOf hchild
      omega
    have hbullets : Json.listOf? Json.text? (.array (s.bullets.map Json.text)) = some s.bullets :=
      Json.listOf?_array fun _ _ => rfl
    have hdeprecated : Json.optional Json.text? (s.deprecated.map Json.text) =
        some s.deprecated := by
      cases s.deprecated <;> rfl
    rw [ofJson?, fields?_toJson]
    simp only [Json.required_some, Json.withDefault_some, hdeprecated, hchildren,
      Nat.succ_ne_zero, if_false, hbullets, Option.bind_eq_bind, Option.bind_some]
    cases s
    rfl

end Symbol

namespace DocModule

theorem plain_toJson (m : DocModule) : m.toJson.Plain := by
  refine Json.plain_ofMembers fun member hm => ?_
  have hexports : (Json.array (Symbol.toJsons m.exports)).Plain :=
    .array (Symbol.plain_toJsons m.exports)
  have htypes : (Json.array (Symbol.toJsons m.types)).Plain :=
    .array (Symbol.plain_toJsons m.types)
  rcases List.mem_append.1 hm with hm | hm
  · simp only [List.mem_cons, List.not_mem_nil, or_false] at hm
    rcases hm with rfl | rfl | rfl | rfl
    · exact .text m.name
    · exact .text m.comment
    · exact hexports
    · exact htypes
  · split at hm
    · obtain rfl := List.mem_singleton.1 hm
      exact .bool true
    · cases hm

/-- The fields of the value of a module; that a module is not exempt is missing. -/
theorem fields?_toJson (m : DocModule) :
    m.toJson.fields? ["name", "comment", "exports", "types", "exempt"] =
      some [some (.text m.name), some (.text m.comment), some (.array (Symbol.toJsons m.exports)),
        some (.array (Symbol.toJsons m.types)), if m.exempt then some (.bool true) else none] := by
  obtain ⟨name, comment, exports, types, _ | _⟩ := m
  · rfl
  · rfl

/-- A module is read back from its value. -/
theorem ofJson?_toJson {depth : Nat} {m : DocModule} (h : 2 * m.levels + 2 ≤ depth) :
    ofJson? depth m.toJson = some m := by
  have hsymbols : ∀ ss : List Symbol, Symbol.levelsOf ss ≤ m.levels →
      Json.listOf? (Symbol.ofJson? (depth - 2)) (.array (Symbol.toJsons ss)) = some ss :=
    fun ss hss => by
      rw [Symbol.toJsons_eq_map]
      refine Json.listOf?_array fun s hs => Symbol.ofJson?_toJson _ s ?_
      have hlevels := Symbol.levels_le_levelsOf hs
      omega
  have hexports := hsymbols m.exports (Nat.le_max_left _ _)
  have htypes := hsymbols m.types (Nat.le_max_right _ _)
  have hexempt : Json.withDefault false Json.bool?
      (if m.exempt then some (.bool true) else none) = some m.exempt := by
    cases m.exempt <;> rfl
  rw [ofJson?, fields?_toJson]
  simp only [Json.required_some, Json.withDefault_some, hexempt, hexports, htypes,
    Option.bind_eq_bind, Option.bind_some]
  rfl

end DocModule

namespace Listing

/-- The modules of a listing that was written. -/
theorem modules?_write {ms : List DocModule} (h : ∀ m ∈ ms, m.levels ≤ 60) :
    modules? (write ms) = some ms := by
  have hplain : (Json.ofMembers [("modules", .array (ms.map DocModule.toJson))]).Plain := by
    refine Json.plain_ofMembers fun member hm => ?_
    obtain rfl := List.mem_singleton.1 hm
    refine .array fun v hv => ?_
    obtain ⟨m, -, rfl⟩ := List.mem_map.1 hv
    exact m.plain_toJson
  have hmodules : Json.listOf? (DocModule.ofJson? (maxDepth - 2))
      (.array (ms.map DocModule.toJson)) = some ms :=
    Json.listOf?_array fun m hm => DocModule.ofJson?_toJson (by
      have hlevels := h m hm
      unfold maxDepth
      omega)
  have hfields : (Json.ofMembers [("modules", .array (ms.map DocModule.toJson))]).fields?
      ["modules"] = some [some (.array (ms.map DocModule.toJson))] := rfl
  rw [modules?, write, Json.ofText?_toText hplain, Option.bind_eq_bind, Option.bind_some, hfields]
  exact hmodules

end Listing

/-! ## The order of what is read -/

/-- One module is another with its exports and its types in order of name. -/
structure DocModule.SortedAs (m m' : DocModule) : Prop where
  name : m'.name = m.name
  comment : m'.comment = m.comment
  exempt : m'.exempt = m.exempt
  exports : StablySorted Symbol.name m.exports m'.exports
  types : StablySorted Symbol.name m.types m'.types

theorem DocModule.sortedAs_sort (m : DocModule) : m.SortedAs m.sort where
  name := rfl
  comment := rfl
  exempt := rfl
  exports := stablySorted_sortByName Symbol.name m.exports
  types := stablySorted_sortByName Symbol.name m.types

/-- Modules as a listing gives them back: the exports and the types of each are in order of name,
and so are the modules. -/
def ListedAs (ms read : List DocModule) : Prop :=
  ∃ sorted, List.Forall₂ DocModule.SortedAs ms sorted ∧ StablySorted DocModule.name sorted read

/-- Modules are in order of name, and so are the exports and the types of each. -/
def ModulesInOrder (ms : List DocModule) : Prop :=
  InOrder DocModule.name ms ∧
    ∀ m ∈ ms, InOrder Symbol.name m.exports ∧ InOrder Symbol.name m.types

theorem listedAs_sortModules (ms : List DocModule) :
    ListedAs ms (sortModules (ms.map DocModule.sort)) := by
  refine ⟨ms.map DocModule.sort, ?_, stablySorted_sortByName DocModule.name _⟩
  rw [List.forall₂_map_right_iff]
  exact List.forall₂_same.2 fun m _ => m.sortedAs_sort

/-- Modules that are in order already stay as they are. -/
theorem sortModules_of_inOrder {ms : List DocModule} (h : ModulesInOrder ms) :
    sortModules (ms.map DocModule.sort) = ms := by
  have hsort : ∀ m ∈ ms, m.sort = m := fun m hm => by
    obtain ⟨hexports, htypes⟩ := h.2 m hm
    rw [DocModule.sort, sortByName_of_inOrder hexports, sortByName_of_inOrder htypes]
  rw [List.map_congr_left hsort, List.map_id']
  exact sortByName_of_inOrder h.1

end ReferencePages
