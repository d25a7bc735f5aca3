import ReferencePages.TypeScript.Token

/-!
# Declarations and their members

Of a source, only what documentation is taken from is kept: the declarations of a module with
their names, the members of interfaces, classes and object types, and where all of these stand.
-/

namespace ReferencePages.TypeScript

/-- Where a part of the source stands, with the comments that belong to its first token. -/
structure Site where
  span : Span
  comments : List Comment
deriving Repr, DecidableEq, Inhabited

/-- How a member is named. -/
inductive Key where
  /-- By a name. -/
  | named (name : String)
  /-- By the text of a span. -/
  | source (span : Span)
deriving Repr, DecidableEq, Inhabited

/-- A member of an interface or of an object type. -/
inductive TypeMember where
  /-- A member without a name has no key. -/
  | plain (site : Site) (key : Option Key)
  /-- A property whose type is an object type: where that type stands, and its members. -/
  | nested (site : Site) (key : Key) (body : Span) (members : List TypeMember)
deriving Repr, Inhabited

/-- A member of a class. -/
inductive ClassMember where
  /-- A lone semicolon, or a block that initializes the class. -/
  | silent (site : Site)
  /-- A member without a name has no key. -/
  | plain (site : Site) (key : Option Key)
deriving Repr, DecidableEq, Inhabited

/-- Where a member stands. -/
def TypeMember.site : TypeMember → Site
  | .plain site _ => site
  | .nested site _ _ _ => site

/-- Where a member stands. -/
def ClassMember.site : ClassMember → Site
  | .silent site => site
  | .plain site _ => site

mutual

/-- A declaration. -/
inductive Declaration where
  | classDecl (name : String) (members : List ClassMember)
  | interfaceDecl (name : String) (members : List TypeMember)
  | typeAlias (name : String)
  /-- A namespace or an ambient module, with what is declared in it. -/
  | namespaceDecl (name : String) (items : List Item)
  /-- Variables; the name of the first, if it is a plain name. -/
  | variableDecl (name : Option String)
  | functionDecl (name : String)
  /-- A declaration that is not documented. -/
  | other
deriving Repr

/-- A statement of a module. -/
inductive Item where
  /-- A declaration behind `export`. -/
  | exported (site : Site) (declaration : Declaration)
  /-- A declaration that is not exported. -/
  | declared (site : Site) (declaration : Declaration)
  | other
deriving Repr

end

instance : Inhabited Declaration := ⟨.other⟩
instance : Inhabited Item := ⟨.other⟩

/-- A source with its items. -/
structure Source where
  text : List Char
  items : List Item

end ReferencePages.TypeScript
