import Mathlib.Data.List.Basic
import ReferencePages.SiteLink
import ReferencePages.Symbol

/-!
# Mapping the texts of a module

The texts of a module stand in a fixed order (`DocModule.texts`); what else there is to a module is
its shape (`DocModule.shape`). The two together are the whole module, since the shape tells how many
texts each symbol has (`DocModule.eq_of_shape_of_texts`).

Mapping the texts of a module maps each entry of that list once, and keeps the shape. There is only
one module of which both is true, so mapping twice is mapping once by the composition
(`DocModule.mapText_mapText`).
-/

namespace ReferencePages

variable {f : String → String} {m m' : DocModule}

/-! ## Shapes -/

/-- What there is to a symbol and the symbols below it besides their texts: whether each is
deprecated, how many bullets it has, and its members. -/
inductive SymbolShape where
  | node (isDeprecated : Bool) (bullets : Nat) (members : List SymbolShape)

mutual

/-- The shape of a symbol. -/
def Symbol.shape : Symbol → SymbolShape
  | ⟨_, _, _, deprecated, children, bullets⟩ =>
    .node deprecated.isSome bullets.length (Symbol.shapesOf children)

/-- The shapes of several symbols. -/
def Symbol.shapesOf : List Symbol → List SymbolShape
  | [] => []
  | s :: rest => s.shape :: Symbol.shapesOf rest

end

/-- What there is to a module besides its texts. -/
structure ModuleShape where
  exempt : Bool
  exports : List SymbolShape
  types : List SymbolShape

/-- The shape of a module. -/
def DocModule.shape (m : DocModule) : ModuleShape :=
  ⟨m.exempt, Symbol.shapesOf m.exports, Symbol.shapesOf m.types⟩

/-! ## Shape and texts are the whole symbol -/

mutual

/-- Symbols of one shape whose texts begin two equal lists are equal, and so is what follows. -/
theorem Symbol.eq_of_shape_of_texts : ∀ s s' : Symbol, ∀ {rest rest' : List String},
    s.shape = s'.shape → s.texts ++ rest = s'.texts ++ rest' → s = s' ∧ rest = rest'
  | ⟨name, comment, snippet, deprecated, children, bullets⟩,
    ⟨name', comment', snippet', deprecated', children', bullets'⟩, rest, rest' => by
    intro hshape htexts
    obtain ⟨hdeprecated, hbullets, hchildren⟩ := SymbolShape.node.inj hshape
    simp only [Symbol.texts, List.append_assoc, List.cons_append, List.cons.injEq] at htexts
    obtain ⟨rfl, rfl, rfl, htexts⟩ := htexts
    have hlength : deprecated.toList.length = deprecated'.toList.length := by
      rw [Option.length_toList, Option.length_toList, hdeprecated]
    obtain ⟨hnotices, hbehindNotice⟩ := List.append_inj htexts hlength
    have hnotice : deprecated = deprecated' := by simpa using congrArg List.head? hnotices
    obtain ⟨hlines, hbehindBullets⟩ := List.append_inj hbehindNotice hbullets
    obtain ⟨hmembers, hrest⟩ :=
      Symbol.eq_of_shapesOf_of_textsOf children children' hchildren hbehindBullets
    rw [hnotice, hlines, hmembers]
    exact ⟨rfl, hrest⟩

/-- The same for several symbols. -/
theorem Symbol.eq_of_shapesOf_of_textsOf : ∀ ss ss' : List Symbol, ∀ {rest rest' : List String},
    Symbol.shapesOf ss = Symbol.shapesOf ss' →
    Symbol.textsOf ss ++ rest = Symbol.textsOf ss' ++ rest' → ss = ss' ∧ rest = rest'
  | [], [], _, _ => fun _ htexts => ⟨rfl, htexts⟩
  | [], _ :: _, _, _ => fun hshape => nomatch hshape
  | _ :: _, [], _, _ => fun hshape => nomatch hshape
  | s :: ss, s' :: ss', rest, rest' => by
    intro hshape htexts
    obtain ⟨hfirst, hothers⟩ := List.cons.inj hshape
    rw [Symbol.textsOf, Symbol.textsOf, List.append_assoc, List.append_assoc] at htexts
    obtain ⟨rfl, hbehind⟩ := Symbol.eq_of_shape_of_texts s s' hfirst htexts
    obtain ⟨rfl, hrest⟩ := Symbol.eq_of_shapesOf_of_textsOf ss ss' hothers hbehind
    exact ⟨rfl, hrest⟩

end

/-- Modules of one shape that have the same texts are equal. -/
theorem DocModule.eq_of_shape_of_texts (hshape : m.shape = m'.shape) (htexts : m.texts = m'.texts) :
    m = m' := by
  obtain ⟨name, comment, exports, types, exempt⟩ := m
  obtain ⟨name', comment', exports', types', exempt'⟩ := m'
  obtain ⟨rfl, hexports, htypes⟩ := ModuleShape.mk.inj hshape
  simp only [DocModule.texts, List.cons_append, List.cons.injEq] at htexts
  obtain ⟨rfl, rfl, htexts⟩ := htexts
  obtain ⟨rfl, hbehind⟩ := Symbol.eq_of_shapesOf_of_textsOf exports exports' hexports htexts
  obtain ⟨rfl, -⟩ := Symbol.eq_of_shapesOf_of_textsOf types types' htypes
    (congrArg (· ++ []) hbehind)
  rfl

/-! ## Mapping -/

mutual

theorem Symbol.texts_mapText (f : String → String) :
    ∀ s : Symbol, (s.mapText f).texts = s.texts.map f
  | ⟨name, comment, snippet, deprecated, children, bullets⟩ => by
    simp only [Symbol.mapText, Symbol.texts, Symbol.textsOf_mapTexts f children, Option.toList_map,
      List.map_append, List.map_cons]

theorem Symbol.textsOf_mapTexts (f : String → String) :
    ∀ ss : List Symbol, Symbol.textsOf (Symbol.mapTexts f ss) = (Symbol.textsOf ss).map f
  | [] => rfl
  | s :: ss => by
    rw [Symbol.mapTexts, Symbol.textsOf, Symbol.textsOf, Symbol.texts_mapText f s,
      Symbol.textsOf_mapTexts f ss, List.map_append]

end

mutual

theorem Symbol.shape_mapText (f : String → String) : ∀ s : Symbol, (s.mapText f).shape = s.shape
  | ⟨name, comment, snippet, deprecated, children, bullets⟩ => by
    simp only [Symbol.mapText, Symbol.shape, Symbol.shapesOf_mapTexts f children,
      Option.isSome_map, List.length_map]

theorem Symbol.shapesOf_mapTexts (f : String → String) :
    ∀ ss : List Symbol, Symbol.shapesOf (Symbol.mapTexts f ss) = Symbol.shapesOf ss
  | [] => rfl
  | s :: ss => by
    rw [Symbol.mapTexts, Symbol.shapesOf, Symbol.shapesOf, Symbol.shape_mapText f s,
      Symbol.shapesOf_mapTexts f ss]

end

namespace DocModule

theorem texts_mapText (f : String → String) (m : DocModule) :
    (m.mapText f).texts = m.texts.map f := by
  simp only [texts, mapText, Symbol.textsOf_mapTexts, List.map_append, List.map_cons]

theorem shape_mapText (f : String → String) (m : DocModule) : (m.mapText f).shape = m.shape := by
  simp only [shape, mapText, Symbol.shapesOf_mapTexts]

/-- A module with mapped texts is told by its shape and its texts. -/
theorem eq_mapText_iff : m' = m.mapText f ↔ m'.shape = m.shape ∧ m'.texts = m.texts.map f := by
  constructor
  · rintro rfl
    exact ⟨shape_mapText f m, texts_mapText f m⟩
  · rintro ⟨hshape, htexts⟩
    exact eq_of_shape_of_texts (hshape.trans (shape_mapText f m).symm)
      (htexts.trans (texts_mapText f m).symm)

theorem mapText_mapText (f g : String → String) (m : DocModule) :
    (m.mapText f).mapText g = m.mapText (g ∘ f) := by
  refine eq_mapText_iff.2 ⟨?_, ?_⟩
  · rw [shape_mapText, shape_mapText]
  · rw [texts_mapText, texts_mapText, List.map_map]

/-- Mapping the texts of a module maps each of them once and keeps its shape, and mapping them twice
is mapping them by the composition. So moving the links of some modules moves those of each text of
each module once. -/
theorem mapText_each_once (f g : String → String) (m : DocModule) (ms : List DocModule) :
    (m.mapText f).texts = m.texts.map f ∧ (m.mapText f).shape = m.shape ∧
      (m.mapText f).mapText g = m.mapText (g ∘ f) ∧
      (moveModuleLinks ms).map texts =
        ms.map (fun m => m.texts.map fun s => String.ofList (SiteLink.moveLinks s.toList)) ∧
      (moveModuleLinks ms).map shape = ms.map shape := by
  refine ⟨texts_mapText f m, shape_mapText f m, mapText_mapText f g m, ?_, ?_⟩
  · rw [moveModuleLinks, List.map_map]
    exact List.map_congr_left fun m _ => texts_mapText _ m
  · rw [moveModuleLinks, List.map_map]
    exact List.map_congr_left fun m _ => shape_mapText _ m

end DocModule

end ReferencePages
