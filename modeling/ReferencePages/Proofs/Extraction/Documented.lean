import Mathlib.Data.List.Perm.Basic
import ReferencePages.Extraction.Declaration
import ReferencePages.Proofs.Order
import ReferencePages.Proofs.Results

/-!
# Every documented declaration, once

An item is documented if it exports a variable or a function (`Item.exportsValue`), or a class, an
interface, a type alias or a namespace (`Item.exportsType`). Extraction goes through the items and
puts the symbol of each of these behind the others of its kind (`foldlM_add_eq_ok_iff`): it succeeds
exactly if all of them have symbols, and then there is one symbol for each.

What is left is sorting both lists by name. Symbols of one name stay in the order of their items;
where the names in a list differ, the order of the items does not matter (`ofItems_documents`).
-/

namespace ReferencePages

open TypeScript

variable {o : FormatOptions} {source : List Char} {item : Item} {items : List Item}
  {values types : List Symbol} {e e' : Extraction}

/-! ## Documented items -/

/-- An item exports a function, or variables of which the first has a plain name. -/
def TypeScript.Item.exportsValue : Item → Bool
  | .exported _ (.variableDecl name) => name.isSome
  | .exported _ (.functionDecl _) => true
  | _ => false

/-- An item exports a class, an interface, a type alias or a namespace. -/
def TypeScript.Item.exportsType : Item → Bool
  | .exported _ (.classDecl _ _) => true
  | .exported _ (.interfaceDecl _ _) => true
  | .exported _ (.typeAlias _) => true
  | .exported _ (.namespaceDecl _ _) => true
  | _ => false

/-- A symbol is the one that is extracted from an item. -/
inductive IsSymbolOf (o : FormatOptions) (source : List Char) : Item → Symbol → Prop
  | mk {site : Site} {declaration : Declaration} {name : String} {s : Symbol}
    (name_eq : declaration.name? = some name)
    (symbol_eq : exportedSymbol o source site declaration name = .ok s) :
    IsSymbolOf o source (.exported site declaration) s

/-- An item exports a declaration of a name, which is of values or of a type, or it is passed
over. -/
theorem documented_or_passed (item : Item) :
    (∃ site declaration name, item = .exported site declaration ∧ declaration.name? = some name ∧
        item.exportsValue = declaration.isValue ∧ item.exportsType = !declaration.isValue) ∨
      item.exportsValue = false ∧ item.exportsType = false ∧
        ∀ o source e, Extraction.add o source e item = .ok e :=
  match item with
  | .exported site (.classDecl name members) =>
    .inl ⟨site, .classDecl name members, name, rfl, rfl, rfl, rfl⟩
  | .exported site (.interfaceDecl name members) =>
    .inl ⟨site, .interfaceDecl name members, name, rfl, rfl, rfl, rfl⟩
  | .exported site (.typeAlias name) => .inl ⟨site, .typeAlias name, name, rfl, rfl, rfl, rfl⟩
  | .exported site (.namespaceDecl name items) =>
    .inl ⟨site, .namespaceDecl name items, name, rfl, rfl, rfl, rfl⟩
  | .exported site (.variableDecl (some name)) =>
    .inl ⟨site, .variableDecl (some name), name, rfl, rfl, rfl, rfl⟩
  | .exported site (.functionDecl name) => .inl ⟨site, .functionDecl name, name, rfl, rfl, rfl, rfl⟩
  | .exported _ (.variableDecl none) => .inr ⟨rfl, rfl, fun _ _ _ => rfl⟩
  | .exported _ .other => .inr ⟨rfl, rfl, fun _ _ _ => rfl⟩
  | .declared _ _ => .inr ⟨rfl, rfl, fun _ _ _ => rfl⟩
  | .other => .inr ⟨rfl, rfl, fun _ _ _ => rfl⟩

theorem isSymbolOf_exported_iff {site : Site} {declaration : Declaration} {name : String}
    {s : Symbol} (hname : declaration.name? = some name) :
    IsSymbolOf o source (.exported site declaration) s ↔
      exportedSymbol o source site declaration name = .ok s := by
  refine ⟨fun h => ?_, fun h => ⟨hname, h⟩⟩
  obtain ⟨hname', hsymbol⟩ := h
  rwa [Option.some.inj (hname.symm.trans hname')]

/-- The name of the declaration that an item exports. -/
def TypeScript.Item.exportedName? : Item → Option String
  | .exported _ declaration => declaration.name?
  | _ => none

theorem IsSymbolOf.exportedName?_eq {s : Symbol} (h : IsSymbolOf o source item s) :
    item.exportedName? = some s.name := by
  obtain ⟨hname, hsymbol⟩ := h
  unfold exportedSymbol at hsymbol
  split at hsymbol
  · cases hsymbol
  · obtain rfl := Except.ok.inj hsymbol
    exact hname

/-- The symbols of some items have the names of what these export. -/
theorem map_name_of_forall₂ {ss : List Symbol} (h : List.Forall₂ (IsSymbolOf o source) items ss) :
    ss.map Symbol.name = items.filterMap Item.exportedName? := by
  induction h with
  | nil => rfl
  | cons hsymbol _ ih =>
    rw [List.map_cons, List.filterMap_cons_some hsymbol.exportedName?_eq, ih]

namespace Extraction

/-! ## One item -/

theorem add_exported_eq_ok_iff {site : Site} {declaration : Declaration} {name : String}
    (hname : declaration.name? = some name) :
    add o source e (.exported site declaration) = .ok e' ↔
      ∃ s, IsSymbolOf o source (.exported site declaration) s ∧
        e' = e.push declaration.isValue s := by
  simp only [add, hname, bind_eq_ok_iff, isSymbolOf_exported_iff hname]
  refine exists_congr fun s => and_congr_right fun _ => ?_
  exact ⟨fun h => (Except.ok.inj h).symm, fun h => congrArg Except.ok h.symm⟩

/-- Going over an item puts its symbol behind those of its kind, if the item is documented. -/
theorem add_eq_ok_iff :
    add o source e item = .ok e' ↔ ∃ values types,
      List.Forall₂ (IsSymbolOf o source) ([item].filter Item.exportsValue) values ∧
      List.Forall₂ (IsSymbolOf o source) ([item].filter Item.exportsType) types ∧
      e' = ⟨e.exports ++ values, e.types ++ types⟩ := by
  simp only [List.filter_singleton]
  rcases documented_or_passed item with
    ⟨site, declaration, name, rfl, hname, hvalue, htype⟩ | ⟨hvalue, htype, hadd⟩
  · rw [add_exported_eq_ok_iff hname, hvalue, htype]
    cases declaration.isValue with
    | true => simp [List.forall₂_cons_left_iff, push]
    | false => simp [List.forall₂_cons_left_iff, push]
  · rw [hvalue, htype, hadd, Except.ok.injEq]
    constructor
    · rintro rfl
      exact ⟨[], [], .nil, .nil, by simp⟩
    · rintro ⟨values, types, hvalues, htypes, rfl⟩
      obtain rfl := List.forall₂_nil_left_iff.1 hvalues
      obtain rfl := List.forall₂_nil_left_iff.1 htypes
      simp

/-! ## All items -/

/-- Going over some items succeeds exactly if each documented one has a symbol, and puts these
behind those of their kinds, in the order of the items. -/
theorem foldlM_add_eq_ok_iff :
    items.foldlM (add o source) e = .ok e' ↔ ∃ values types,
      List.Forall₂ (IsSymbolOf o source) (items.filter Item.exportsValue) values ∧
      List.Forall₂ (IsSymbolOf o source) (items.filter Item.exportsType) types ∧
      e' = ⟨e.exports ++ values, e.types ++ types⟩ := by
  induction items generalizing e with
  | nil =>
    rw [List.foldlM_nil]
    constructor
    · intro h
      obtain rfl := Except.ok.inj h
      exact ⟨[], [], .nil, .nil, by simp⟩
    · rintro ⟨values, types, hvalues, htypes, rfl⟩
      obtain rfl := List.forall₂_nil_left_iff.1 hvalues
      obtain rfl := List.forall₂_nil_left_iff.1 htypes
      simp [pure, Except.pure]
  | cons item items ih =>
    have hvalue : (item :: items).filter Item.exportsValue =
        [item].filter Item.exportsValue ++ items.filter Item.exportsValue :=
      List.filter_append [item] items
    have htype : (item :: items).filter Item.exportsType =
        [item].filter Item.exportsType ++ items.filter Item.exportsType :=
      List.filter_append [item] items
    rw [List.foldlM_cons, bind_eq_ok_iff, hvalue, htype]
    simp only [add_eq_ok_iff, ih, forall₂_append_left_iff]
    constructor
    · rintro ⟨_, ⟨vs, ts, hvs, hts, rfl⟩, values, types, hvalues, htypes, rfl⟩
      exact ⟨vs ++ values, ts ++ types, ⟨vs, values, hvs, hvalues, rfl⟩,
        ⟨ts, types, hts, htypes, rfl⟩, by simp⟩
    · rintro ⟨_, _, ⟨vs, values, hvs, hvalues, rfl⟩, ⟨ts, types, hts, htypes, rfl⟩, rfl⟩
      exact ⟨_, ⟨vs, ts, hvs, hts, rfl⟩, values, types, hvalues, htypes, by simp⟩

/-- Extraction succeeds exactly if each documented item has a symbol, and gives these symbols in
order of name. -/
theorem ofItems_eq_ok_iff :
    ofItems o source items = .ok e ↔ ∃ values types,
      List.Forall₂ (IsSymbolOf o source) (items.filter Item.exportsValue) values ∧
      List.Forall₂ (IsSymbolOf o source) (items.filter Item.exportsType) types ∧
      e = sort ⟨values, types⟩ := by
  rw [ofItems, bind_eq_ok_iff]
  simp only [foldlM_add_eq_ok_iff, List.nil_append]
  constructor
  · rintro ⟨_, ⟨values, types, hvalues, htypes, rfl⟩, h⟩
    exact ⟨values, types, hvalues, htypes, (Except.ok.inj h).symm⟩
  · rintro ⟨values, types, hvalues, htypes, rfl⟩
    exact ⟨_, ⟨values, types, hvalues, htypes, rfl⟩, rfl⟩

/-- The symbols that extraction gives are one for each documented item, of values and of types each
in order of name, and symbols of one name are in the order of their items. Where the names of the
symbols in each of the two lists differ, neither the order in which the symbols are gathered nor the
order of the items has to do with the result. -/
theorem ofItems_documents (h : ofItems o source items = .ok e) : ∃ values types,
    List.Forall₂ (IsSymbolOf o source) (items.filter Item.exportsValue) values ∧
    List.Forall₂ (IsSymbolOf o source) (items.filter Item.exportsType) types ∧
    StablySorted Symbol.name values e.exports ∧ StablySorted Symbol.name types e.types ∧
    ((values.map Symbol.name).Nodup → (types.map Symbol.name).Nodup →
      (∀ values' types', values.Perm values' → types.Perm types' → sort ⟨values', types'⟩ = e) ∧
      ∀ items', items.Perm items' → ofItems o source items' = .ok e) := by
  obtain ⟨values, types, hvalues, htypes, rfl⟩ := ofItems_eq_ok_iff.1 h
  refine ⟨values, types, hvalues, htypes, stablySorted_sortByName _ values,
    stablySorted_sortByName _ types, fun hvalueNames htypeNames => ?_⟩
  have hsort : ∀ values' types', values.Perm values' → types.Perm types' →
      sort ⟨values', types'⟩ = sort ⟨values, types⟩ := fun values' types' hvalue htype =>
    congrArg₂ Extraction.mk (sortByName_eq_of_perm hvalue hvalueNames).symm
      (sortByName_eq_of_perm htype htypeNames).symm
  refine ⟨hsort, fun items' hperm => ?_⟩
  obtain ⟨values', hvalues', hvalue⟩ := List.perm_comp_forall₂ (hperm.symm.filter _) hvalues
  obtain ⟨types', htypes', htype⟩ := List.perm_comp_forall₂ (hperm.symm.filter _) htypes
  exact ofItems_eq_ok_iff.2
    ⟨values', types', hvalues', htypes', (hsort values' types' hvalue.symm htype.symm).symm⟩

/-- A file that exports two variables and a type, and an enumeration, which is not documented. -/
def plainFile : List Char :=
  "export var b: B;\nexport enum E \x7b\x7d\nexport type T = 1;\nexport var a: A;\n".toList

def plainFileItems : List Item := [
  .exported ⟨⟨0, 16⟩, []⟩ (.variableDecl (some "b")),
  .exported ⟨⟨17, 33⟩, []⟩ .other,
  .exported ⟨⟨34, 52⟩, []⟩ (.typeAlias "T"),
  .exported ⟨⟨53, 69⟩, []⟩ (.variableDecl (some "a"))]

/-- The names in the file differ, so its items may be read in any order. -/
theorem ofItems_documents_plainFile : ∃ e values types,
    ofItems {} plainFile plainFileItems = .ok e ∧
    List.Forall₂ (IsSymbolOf {} plainFile) (plainFileItems.filter Item.exportsValue) values ∧
    values.map Symbol.name = ["b", "a"] ∧ types.map Symbol.name = ["T"] ∧
    StablySorted Symbol.name values e.exports ∧ StablySorted Symbol.name types e.types ∧
    ofItems {} plainFile plainFileItems.reverse = .ok e := by
  have hsome : (ofItems {} plainFile plainFileItems).toOption.isSome = true := by decide +kernel
  rcases h : ofItems {} plainFile plainFileItems with _ | e
  · rw [h] at hsome
    cases hsome
  obtain ⟨values, types, hvalues, htypes, hexports, htypes', hreorder⟩ := ofItems_documents h
  have hvalueNames : values.map Symbol.name = ["b", "a"] := map_name_of_forall₂ hvalues
  have htypeNames : types.map Symbol.name = ["T"] := map_name_of_forall₂ htypes
  obtain ⟨-, hitems⟩ := hreorder (by rw [hvalueNames]; decide) (by rw [htypeNames]; decide)
  exact ⟨e, values, types, rfl, hvalues, hvalueNames, htypeNames, hexports, htypes',
    hitems _ (List.reverse_perm _).symm⟩

end Extraction

end ReferencePages
