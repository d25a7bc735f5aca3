import ReferencePages.Extraction.Member
import ReferencePages.Proofs.DocComment.PrivateMark
import ReferencePages.Proofs.Results

/-!
# Private members

A member is shown if its description does not say that it is private; a part of a class that says
nothing is not a member (`IsShown`). A property literal is expanded if one of its members is
described, so the members below a member are told by `TypeMember.shownBelow`.

The symbols of a body are, in order, one for each member that is shown, and at every depth the same
is true of the symbols below these (`IsMemberTree`). All of them show the normalized description of
a member that is not private, and normalizing does not make a description private. So no comment in
the tree says that something is private (`memberSymbols_not_saysPrivate`).
-/

namespace ReferencePages

open TypeScript

variable {source : List Char} {depth : Nat}

/-! ## What is shown -/

namespace TypeScript

/-- The key of a member, if it has one. -/
def TypeMember.key? : TypeMember → Option Key
  | .plain _ key => key
  | .nested _ key _ _ => some key

/-- The key of a member, if it has one. -/
def ClassMember.key? : ClassMember → Option Key
  | .silent _ => none
  | .plain _ key => key

/-- The members of the object type of a property. -/
def TypeMember.members : TypeMember → List TypeMember
  | .plain _ _ => []
  | .nested _ _ _ members => members

/-- What stands at a site is described as private. -/
def Site.IsPrivate (site : Site) : Prop := SaysPrivate site.doc.description.toList

instance (site : Site) : Decidable site.IsPrivate :=
  inferInstanceAs (Decidable (SaysPrivate _))

/-- A member of an interface or object type is shown if it is not private. -/
def TypeMember.IsShown (member : TypeMember) : Prop := ¬member.site.IsPrivate

instance (member : TypeMember) : Decidable member.IsShown :=
  inferInstanceAs (Decidable (¬_))

/-- A member of a class is shown if it is not private and says something. -/
def ClassMember.IsShown : ClassMember → Prop
  | .silent _ => False
  | .plain site _ => ¬site.IsPrivate

instance : ∀ member : ClassMember, Decidable member.IsShown
  | .silent _ => inferInstanceAs (Decidable False)
  | .plain _ _ => inferInstanceAs (Decidable (¬_))

/-- The members that are shown below a member: those of a property literal, unless none of its
members is described. -/
def TypeMember.shownBelow (member : TypeMember) : List TypeMember :=
  if member.members.any isDescribed then member.members.filter fun m => m.IsShown else []

theorem Site.isPrivateApi_iff {site : Site} : site.doc.isPrivateApi = true ↔ site.IsPrivate :=
  DocComment.isPrivateApi_iff

end TypeScript

/-! ## Symbols of members -/

/-- A symbol says what is known of a member from its key and its doc comment. -/
structure Describes (source : List Char) (site : Site) (key : Option Key) (s : Symbol) : Prop where
  name : s.name = memberName source key
  comment : s.comment = site.doc.normalizedDescription
  deprecated : s.deprecated = site.doc.deprecationNotice
  bullets : s.bullets = site.doc.bullets

/-- A symbol is the one of a member, and below it are, in order, those of the members that are shown
below the member. The depth has to do with the indentation of snippets only. -/
inductive IsMemberTree (source : List Char) : TypeMember → Symbol → Prop
  | node {depth : Nat} {member : TypeMember} {s : Symbol}
    (symbol_eq : typeMemberSymbol? source depth member = some s)
    (describes : Describes source member.site member.key? s)
    (below : List.Forall₂ (IsMemberTree source) member.shownBelow s.children) :
    IsMemberTree source member s

/-- A symbol is the one of a member of a class, and nothing is below it. -/
structure IsClassMemberSymbol (source : List Char) (depth : Nat) (member : ClassMember)
    (s : Symbol) : Prop where
  symbol_eq : classMemberSymbol? source depth member = some s
  describes : Describes source member.site member.key? s
  childless : s.children = []

theorem typeMemberSymbol?_of_not_isShown {member : TypeMember} (h : ¬member.IsShown) :
    typeMemberSymbol? source depth member = none := by
  have hprivate := Site.isPrivateApi_iff.2 (not_not.1 h)
  cases member with
  | plain site key => exact if_pos hprivate
  | nested site key body members => exact if_pos hprivate

theorem classMemberSymbol?_of_not_isShown {member : ClassMember} (h : ¬member.IsShown) :
    classMemberSymbol? source depth member = none := by
  cases member with
  | silent site => rfl
  | plain site key => exact if_pos (Site.isPrivateApi_iff.2 (not_not.1 h))

theorem exists_isClassMemberSymbol (depth : Nat) {member : ClassMember} (h : member.IsShown) :
    ∃ s, IsClassMemberSymbol source depth member s := by
  cases member with
  | silent site => exact h.elim
  | plain site key => exact ⟨_, if_neg (mt Site.isPrivateApi_iff.1 h), ⟨rfl, rfl, rfl, rfl⟩, rfl⟩

theorem exists_typeMemberSymbol? (depth : Nat) {member : TypeMember} (h : member.IsShown) :
    ∃ s, typeMemberSymbol? source depth member = some s ∧
      Describes source member.site member.key? s ∧
      s.children = if member.members.any isDescribed then
        typeMemberSymbols source (depth + 1) member.members else [] := by
  cases member with
  | plain site key => exact ⟨_, if_neg (mt Site.isPrivateApi_iff.1 h), ⟨rfl, rfl, rfl, rfl⟩, rfl⟩
  | nested site key body members =>
    have hshown : ¬site.doc.isPrivateApi = true := mt Site.isPrivateApi_iff.1 h
    rw [typeMemberSymbol?, if_neg hshown, TypeMember.members]
    dsimp only
    split
    · exact ⟨_, rfl, ⟨rfl, rfl, rfl, rfl⟩, rfl⟩
    · exact ⟨_, rfl, ⟨rfl, rfl, rfl, rfl⟩, rfl⟩

/-- A member that is shown has a symbol with those of the members below it, if these have theirs. -/
theorem exists_isMemberTree_of_members {member : TypeMember} (h : member.IsShown)
    (hmembers : List.Forall₂ (IsMemberTree source) (member.members.filter fun m => m.IsShown)
      (typeMemberSymbols source (depth + 1) member.members)) :
    ∃ s, typeMemberSymbol? source depth member = some s ∧ IsMemberTree source member s := by
  obtain ⟨s, hsymbol, hdescribes, hchildren⟩ := exists_typeMemberSymbol? depth h
  refine ⟨s, hsymbol, .node hsymbol hdescribes ?_⟩
  rw [hchildren, TypeMember.shownBelow]
  split
  · exact hmembers
  · exact .nil

mutual

/-- A member that is shown has a symbol, with the symbols of the members that are shown below it. -/
theorem exists_isMemberTree (source : List Char) (depth : Nat) : ∀ member : TypeMember,
    member.IsShown →
    ∃ s, typeMemberSymbol? source depth member = some s ∧ IsMemberTree source member s
  | .plain _ _, h => exists_isMemberTree_of_members h .nil
  | .nested _ _ _ members, h =>
    exists_isMemberTree_of_members h (forall₂_typeMemberSymbols source (depth + 1) members)

/-- The symbols of a body are, in order, those of the members that are shown. -/
theorem forall₂_typeMemberSymbols (source : List Char) (depth : Nat) : ∀ members : List TypeMember,
    List.Forall₂ (IsMemberTree source) (members.filter fun m => m.IsShown)
      (typeMemberSymbols source depth members)
  | [] => .nil
  | member :: rest => by
    rw [typeMemberSymbols]
    exact forall₂_filter_cons (exists_isMemberTree source depth member)
      typeMemberSymbol?_of_not_isShown (forall₂_typeMemberSymbols source depth rest)

end

/-- The symbols of the body of a class are, in order, those of the members that are shown. -/
theorem forall₂_classMemberSymbols (source : List Char) (depth : Nat) (members : List ClassMember) :
    List.Forall₂ (IsClassMemberSymbol source depth) (members.filter fun m => m.IsShown)
      (classMemberSymbols source depth members) := by
  rw [classMemberSymbols, List.filterMap_eq_flatMap_toList]
  induction members with
  | nil => exact .nil
  | cons member members ih =>
    rw [List.flatMap_cons]
    refine forall₂_filter_cons (fun hshown => ?_) classMemberSymbol?_of_not_isShown ih
    obtain ⟨s, hs⟩ := exists_isClassMemberSymbol depth hshown
    exact ⟨s, hs.symbol_eq, hs⟩

/-! ## Comments of the symbols -/

theorem Describes.not_saysPrivate {site : Site} {key : Option Key} {s : Symbol}
    (h : Describes source site key s) (hsite : ¬site.IsPrivate) :
    ¬SaysPrivate s.comment.toList := by
  rw [h.comment, DocComment.normalizedDescription, String.toList_ofList]
  exact mt SaysPrivate.of_normalizeExample hsite

theorem IsMemberTree.isShown {member : TypeMember} {s : Symbol} (h : IsMemberTree source member s) :
    member.IsShown := by
  obtain ⟨hsymbol, -, -⟩ := h
  by_contra hhidden
  rw [typeMemberSymbol?_of_not_isShown hhidden] at hsymbol
  cases hsymbol

theorem Symbol.mem_preorder_iff {s t : Symbol} :
    t ∈ s.preorder ↔ t = s ∨ t ∈ Symbol.preorderOf s.children := by
  cases s
  exact List.mem_cons

mutual

/-- No comment in the tree of a member says that something is private. -/
theorem IsMemberTree.not_saysPrivate : ∀ {s : Symbol} {member : TypeMember},
    IsMemberTree source member s → ∀ t ∈ s.preorder, ¬SaysPrivate t.comment.toList
  | ⟨_, _, _, _, _, _⟩, _, h, t, ht => by
    have hshown := h.isShown
    obtain ⟨-, hdescribes, hbelow⟩ := h
    rcases Symbol.mem_preorder_iff.1 ht with rfl | ht
    · exact hdescribes.not_saysPrivate hshown
    · exact IsMemberTree.not_saysPrivate_of_forall₂ hbelow t ht

/-- The same for the trees of several members. -/
theorem IsMemberTree.not_saysPrivate_of_forall₂ : ∀ {ss : List Symbol} {members : List TypeMember},
    List.Forall₂ (IsMemberTree source) members ss →
    ∀ t ∈ Symbol.preorderOf ss, ¬SaysPrivate t.comment.toList
  | [], _, _, t, ht => nomatch ht
  | s :: ss, _, .cons hfirst hrest, t, ht => by
    rcases List.mem_append.1 ht with ht | ht
    · exact IsMemberTree.not_saysPrivate hfirst t ht
    · exact IsMemberTree.not_saysPrivate_of_forall₂ hrest t ht

end

theorem IsClassMemberSymbol.not_isPrivate {member : ClassMember} {s : Symbol}
    (h : IsClassMemberSymbol source depth member s) : ¬member.site.IsPrivate := by
  have hsymbol := h.symbol_eq
  cases member with
  | silent site => cases hsymbol
  | plain site key =>
    have hshown : (ClassMember.plain site key).IsShown := by
      by_contra hhidden
      rw [classMemberSymbol?_of_not_isShown hhidden] at hsymbol
      cases hsymbol
    exact hshown

/-- No comment of a member of a class says that something is private. -/
theorem IsClassMemberSymbol.not_saysPrivate_of_forall₂ {ss : List Symbol}
    {members : List ClassMember} (h : List.Forall₂ (IsClassMemberSymbol source depth) members ss) :
    ∀ t ∈ Symbol.preorderOf ss, ¬SaysPrivate t.comment.toList := by
  induction h with
  | nil => exact fun t ht => nomatch ht
  | cons hfirst _ ih =>
    intro t ht
    rcases List.mem_append.1 ht with ht | ht
    · rcases Symbol.mem_preorder_iff.1 ht with rfl | ht
      · exact hfirst.describes.not_saysPrivate hfirst.not_isPrivate
      · rw [hfirst.childless] at ht
        cases ht
    · exact ih t ht

/-- The symbols of a body are, in order, one for each member that is shown, and the same is true
below each of them. In the whole tree, no comment says that something is private. -/
theorem memberSymbols_not_saysPrivate (source : List Char) (depth : Nat) :
    (∀ members : List TypeMember,
      List.Forall₂ (IsMemberTree source) (members.filter fun m => m.IsShown)
        (typeMemberSymbols source depth members) ∧
      ∀ s ∈ Symbol.preorderOf (typeMemberSymbols source depth members),
        ¬SaysPrivate s.comment.toList) ∧
    ∀ members : List ClassMember,
      List.Forall₂ (IsClassMemberSymbol source depth) (members.filter fun m => m.IsShown)
        (classMemberSymbols source depth members) ∧
      ∀ s ∈ Symbol.preorderOf (classMemberSymbols source depth members),
        ¬SaysPrivate s.comment.toList := by
  refine ⟨fun members => ?_, fun members => ?_⟩
  · have hsymbols := forall₂_typeMemberSymbols source depth members
    exact ⟨hsymbols, IsMemberTree.not_saysPrivate_of_forall₂ hsymbols⟩
  · have hsymbols := forall₂_classMemberSymbols source depth members
    exact ⟨hsymbols, IsClassMemberSymbol.not_saysPrivate_of_forall₂ hsymbols⟩

/-- A comment before a member, with the text between its delimiters. -/
def commentBefore (text : String) : Comment := { isBlock := true, text := text.toList, lo := 0 }

/-- The body of an interface: a private member, and a property literal of which one member is
private and one is not described. -/
def serverBody : List TypeMember := [
  .plain ⟨⟨0, 0⟩, [commentBefore "* Private API, do not use "]⟩ (some (.named "internal")),
  .nested ⟨⟨0, 0⟩, [commentBefore "* Options "]⟩ (.named "options") ⟨0, 0⟩ [
    .plain ⟨⟨0, 0⟩, [commentBefore "*\n * Some private\n * \n * API "]⟩ (some (.named "port")),
    .plain ⟨⟨0, 0⟩, [commentBefore "* A PRIVATE api "]⟩ (some (.named "socket")),
    .plain ⟨⟨0, 0⟩, []⟩ (some (.named "host"))]]

/-- The body of a class: a semicolon, a private member, and one that is shown. -/
def clientBody : List ClassMember := [
  .silent ⟨⟨0, 0⟩, []⟩,
  .plain ⟨⟨0, 0⟩, [commentBefore "* private api "]⟩ (some (.named "open")),
  .plain ⟨⟨0, 0⟩, []⟩ (some (.named "close"))]

/-- The symbols of two bodies: the names of those that are shown, and none with a comment that says
that it is private. -/
theorem memberSymbols_not_saysPrivate_server :
    (Symbol.preorderOf (typeMemberSymbols [] 1 serverBody)).map Symbol.name =
        ["options", "port", "host"] ∧
      List.Forall₂ (IsMemberTree []) (serverBody.filter fun m => m.IsShown)
        (typeMemberSymbols [] 1 serverBody) ∧
      (∀ s ∈ Symbol.preorderOf (typeMemberSymbols [] 1 serverBody),
        ¬SaysPrivate s.comment.toList) ∧
      (classMemberSymbols [] 1 clientBody).map Symbol.name = ["close"] ∧
      List.Forall₂ (IsClassMemberSymbol [] 1) (clientBody.filter fun m => m.IsShown)
        (classMemberSymbols [] 1 clientBody) := by
  obtain ⟨htype, hclass⟩ := memberSymbols_not_saysPrivate [] 1
  obtain ⟨hsymbols, hcomments⟩ := htype serverBody
  exact ⟨by decide +kernel, hsymbols, hcomments, by decide +kernel, (hclass clientBody).1⟩

end ReferencePages
