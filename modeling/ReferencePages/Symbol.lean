/-!
# Documented symbols

A symbol is a declaration or one of its members, with its members below it. Symbols are grouped
into modules; a module lists the values it exports and its types, each in order of name.
-/

namespace ReferencePages

/-- A documented declaration or member. -/
structure Symbol where
  /-- The identifier. -/
  name : String
  /-- The normalized description. -/
  comment : String := ""
  /-- The formatted signature. -/
  snippet : String := ""
  /-- The deprecation notice of a deprecated symbol. -/
  deprecated : Option String := none
  /-- The documented members, in order of declaration. -/
  children : List Symbol := []
  /-- One line for each tag that is shown, in order. -/
  bullets : List String := []
deriving Repr, Inhabited

/-- A named group of symbols. -/
structure DocModule where
  name : String
  /-- What is said of the module itself. -/
  comment : String := ""
  /-- Values and functions. -/
  exports : List Symbol := []
  /-- Classes, interfaces, type aliases and namespaces. -/
  types : List Symbol := []
  /-- The module is only a comment, taken from a page fragment. -/
  exempt : Bool := false
deriving Repr, Inhabited

/-- Two types of a module that are shown on pages of their own. -/
structure ConfigTypes where
  /-- Shown as one type block. -/
  collapsed : Symbol
  /-- Shown with one section for each member. -/
  expanded : Symbol
deriving Repr, Inhabited

/-! ## Order -/

/-- Sort by name, in the order of code points; equal names stay in order. -/
def sortByName {α : Type} (name : α → String) (xs : List α) : List α :=
  xs.mergeSort fun a b => decide (name a ≤ name b)

/-- The module with its exports and its types in order of name. -/
def DocModule.sort (m : DocModule) : DocModule :=
  { m with exports := sortByName Symbol.name m.exports, types := sortByName Symbol.name m.types }

/-- The modules in order of name. -/
def sortModules (ms : List DocModule) : List DocModule := sortByName DocModule.name ms

/-! ## Types of a module -/

/-- The first type of a name. -/
def DocModule.findType (m : DocModule) (name : String) : Option Symbol :=
  m.types.find? (·.name = name)

/-- Take the first type of a name out of the module. -/
def DocModule.takeType (m : DocModule) (name : String) : Option (Symbol × DocModule) :=
  (m.findType name).map fun type => (type, { m with types := m.types.eraseP (·.name = name) })

/-! ## Texts -/

mutual

/-- Apply `f` to every text of a symbol and of the symbols below it. -/
def Symbol.mapText (f : String → String) : Symbol → Symbol
  | ⟨name, comment, snippet, deprecated, children, bullets⟩ =>
    ⟨f name, f comment, f snippet, deprecated.map f, Symbol.mapTexts f children, bullets.map f⟩

/-- Apply `f` to every text of several symbols. -/
def Symbol.mapTexts (f : String → String) : List Symbol → List Symbol
  | [] => []
  | s :: rest => s.mapText f :: Symbol.mapTexts f rest

end

/-- Apply `f` to every text of a module. -/
def DocModule.mapText (f : String → String) (m : DocModule) : DocModule :=
  { m with
    name := f m.name
    comment := f m.comment
    exports := Symbol.mapTexts f m.exports
    types := Symbol.mapTexts f m.types }

mutual

/-- The texts of a symbol: its own, its bullets, then those of the symbols below it. -/
def Symbol.texts : Symbol → List String
  | ⟨name, comment, snippet, deprecated, children, bullets⟩ =>
    name :: comment :: snippet :: deprecated.toList ++ bullets ++ Symbol.textsOf children

/-- The texts of several symbols. -/
def Symbol.textsOf : List Symbol → List String
  | [] => []
  | s :: rest => s.texts ++ Symbol.textsOf rest

end

/-- The texts of a module. -/
def DocModule.texts (m : DocModule) : List String :=
  m.name :: m.comment :: Symbol.textsOf m.exports ++ Symbol.textsOf m.types

mutual

/-- A symbol and the symbols below it, each before those below it. -/
def Symbol.preorder : Symbol → List Symbol
  | ⟨name, comment, snippet, deprecated, children, bullets⟩ =>
    ⟨name, comment, snippet, deprecated, children, bullets⟩ :: Symbol.preorderOf children

/-- Several symbols and the symbols below them. -/
def Symbol.preorderOf : List Symbol → List Symbol
  | [] => []
  | s :: rest => s.preorder ++ Symbol.preorderOf rest

end

/-- Every symbol of a module. -/
def DocModule.symbols (m : DocModule) : List Symbol :=
  Symbol.preorderOf m.exports ++ Symbol.preorderOf m.types

end ReferencePages
