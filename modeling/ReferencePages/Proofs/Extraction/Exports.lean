import ReferencePages.Extraction.Declaration
import ReferencePages.Proofs.TypeScript.Members
import ReferencePages.TypeScript.Source

/-!
# Bodies of exported declarations

Wherever in a source a class or an interface is exported, its members fill a body that ends the
declaration (`haveBodies_of_parse?`). Every rule of the grammar that finds a declaration is followed
to where it finds it: what the rule reads before is passed over (`Yields.skip`), and of what it
chooses between each way is followed (`Yields.ite`, `Yields.orElse`).
-/

namespace ReferencePages

open TypeScript TypeScript.Parser TypeScript.Grammar

/-! ## Exports -/

/-- Items export a declaration, or what is declared inside one of them does. -/
inductive Exports : List Item → Site → Declaration → Prop where
  | item {items : List Item} {site : Site} {declaration : Declaration}
      (h : .exported site declaration ∈ items) : Exports items site declaration
  | inside {items inner : List Item} {site site' : Site} {declaration : Declaration}
      {name : String} (h : .exported site' (.namespaceDecl name inner) ∈ items ∨
        .declared site' (.namespaceDecl name inner) ∈ items)
      (hinner : Exports inner site declaration) : Exports items site declaration

/-- Members fill a body that ends a part of the source. -/
structure EndsPart (source : List Char) (members : List Site) (part body : Span) : Prop
    extends IsBody source members body where
  lo_le : part.lo ≤ body.lo
  hi_eq : body.hi = part.hi

/-- The members of a declaration, if it has some, fill a body that ends a part of the source. -/
def HasBody (source : List Char) (declaration : Declaration) (part : Span) : Prop :=
  declaration.memberSites ≠ [] → ∃ body, EndsPart source declaration.memberSites part body

/-- All declarations that items export have bodies. -/
def HaveBodies (source : List Char) (items : List Item) : Prop :=
  ∀ site declaration, Exports items site declaration →
    HasBody source declaration (exportedSpan site)

/-- A declaration whose members fill a body, and whose items have bodies. -/
def IsLaidOut (source : List Char) (declaration : Declaration) (body : Span) : Prop :=
  (declaration.memberSites ≠ [] → IsBody source declaration.memberSites body) ∧
    ∀ name items, declaration = .namespaceDecl name items → HaveBodies source items

variable {source : List Char} {items : List Item} {g : Nested} {isPart isDecorated : Bool}

theorem haveBodies_of_forall (h : ∀ item ∈ items, HaveBodies source [item]) :
    HaveBodies source items := by
  intro site declaration hexports
  cases hexports with
  | item hmem => exact h _ hmem site declaration (.item (List.mem_singleton_self _))
  | inside hmem hinner =>
    rcases hmem with hmem | hmem
    · exact h _ hmem site declaration (.inside (.inl (List.mem_singleton_self _)) hinner)
    · exact h _ hmem site declaration (.inside (.inr (List.mem_singleton_self _)) hinner)

theorem haveBodies_other : HaveBodies source [.other] := by
  intro site declaration hexports
  cases hexports with
  | item hmem => cases List.mem_singleton.1 hmem
  | inside hmem => rcases hmem with hmem | hmem <;> cases List.mem_singleton.1 hmem

theorem haveBodies_declared {site : Site} {declaration : Declaration} {body : Span}
    (h : IsLaidOut source declaration body) : HaveBodies source [.declared site declaration] := by
  intro site' declaration' hexports
  cases hexports with
  | item hmem => cases List.mem_singleton.1 hmem
  | inside hmem hinner =>
    rcases hmem with hmem | hmem <;> cases List.mem_singleton.1 hmem
    exact h.2 _ _ rfl site' declaration' hinner

theorem haveBodies_exported {site : Site} {declaration : Declaration} {body : Span}
    (h : IsLaidOut source declaration body) (hlo : (exportedSpan site).lo ≤ body.lo)
    (hhi : body.hi = (exportedSpan site).hi) :
    HaveBodies source [.exported site declaration] := by
  intro site' declaration' hexports
  cases hexports with
  | item hmem =>
    cases List.mem_singleton.1 hmem
    exact fun hne => ⟨body, h.1 hne, hlo, hhi⟩
  | inside hmem hinner =>
    rcases hmem with hmem | hmem <;> cases List.mem_singleton.1 hmem
    exact h.2 _ _ rfl site' declaration' hinner

/-! ## Declarations that hold no others -/

theorem isLaidOut_of_plain {declaration : Declaration} {body : Span}
    (hmembers : declaration.memberSites = [])
    (hitems : ∀ name items, declaration ≠ .namespaceDecl name items) :
    IsLaidOut source declaration body :=
  ⟨fun h => absurd hmembers h, fun name items h => absurd h (hitems name items)⟩

theorem isLaidOut_namespace {name : String} {body : Span} (h : HaveBodies source items) :
    IsLaidOut source (.namespaceDecl name items) body :=
  ⟨fun hne => absurd rfl hne, fun _ _ heq => (Declaration.namespaceDecl.inj heq).2 ▸ h⟩

theorem yields_classDeclaration : Yields source (classDeclaration g) (IsLaidOut source) :=
  .skip fun _ => .skip fun _ => .skip fun _ => yields_classRest.map _ fun _ _ hbody =>
    ⟨fun _ => hbody, nofun⟩

theorem yields_interfaceDeclaration : Yields source (interfaceDeclaration g) (IsLaidOut source) :=
  .skip fun _ => .skip fun _ => yields_typeMembers.map _ fun _ _ hbody =>
    ⟨fun _ => hbody, nofun⟩

theorem yields_enumDeclaration : Yields source (enumDeclaration g) (IsLaidOut source) :=
  .skip fun _ => .skip fun _ => .skip fun _ => .pure fun _ => isLaidOut_of_plain rfl nofun

theorem yields_aliasDeclaration : Yields source (aliasDeclaration g) (IsLaidOut source) :=
  .skip fun _ => .skip fun _ => .skip fun _ => .skip fun _ => .skip fun _ =>
    .pure fun _ => isLaidOut_of_plain rfl nofun

theorem yields_functionDeclaration {isAsync : Bool} :
    Yields source (functionDeclaration g isAsync) (IsLaidOut source) :=
  .skip fun _ => .skip fun _ => .skip fun _ => .pure fun _ => isLaidOut_of_plain rfl nofun

theorem yields_variableStatement : Yields source (variableStatement g) (IsLaidOut source) :=
  .skip fun _ => .skip fun _ => .skip fun _ => .pure fun _ => isLaidOut_of_plain rfl nofun

theorem yields_usedVariables : Yields source (usedVariables g) (IsLaidOut source) :=
  .skip fun _ => .skip fun _ => .pure fun _ => isLaidOut_of_plain rfl nofun

theorem yields_awaitedUse : Yields source (awaitedUse g) (IfSome (IsLaidOut source)) :=
  .skip fun _ => .skip fun _ => .ite yields_usedVariables.some <|
    .skip fun _ => .skip fun _ => .skip fun _ => .none

theorem yields_exportedDeclaration :
    Yields source (exportedDeclaration g) (IfSome (IsLaidOut source)) :=
  .skip fun _ => .ite yields_classDeclaration.some <|
    -- Two words begin a function that awaits, and an enumeration of constants.
    .skip fun _ => .skip fun _ =>
    .ite (.skip fun _ => .skip fun _ => yields_functionDeclaration.some) <|
    .skip fun _ => .ite yields_functionDeclaration.some <|
    .skip fun _ => .skip fun _ =>
    .ite (.skip fun _ => .skip fun _ => yields_enumDeclaration.some) <|
    .skip fun _ => .ite yields_variableStatement.some .none

theorem yields_plainExport :
    Yields source (plainExport g isDecorated) (IfSome (IsLaidOut source)) :=
  .skip fun _ => .ite .none <| .skip fun _ => .skip fun _ =>
    (Yields.ite .none yields_exportedDeclaration).orElse (.skip fun _ => .none) fun _ => rfl

/-! ## Declarations that may hold others -/

section

-- One level deeper, what items export has bodies.
variable (hg : Yields source g.item fun item _ => HaveBodies source [item])
include hg

theorem yields_namespaceBody :
    Yields source (namespaceBody g) fun items _ => HaveBodies source items :=
  .skip fun _ => .withReader fun scope c items d hc h => by
    obtain ⟨m, hall⟩ := readsAll_of_blockOf h
    exact ⟨c.last, le_rfl, haveBodies_of_forall (hg.forall_of_readsAll hall hc)⟩

theorem yields_namespaceDeclaration : Yields source (namespaceDeclaration g) (IsLaidOut source) :=
  .skip fun _ => .skip fun _ => (yields_namespaceBody hg).map _ fun _ _ => isLaidOut_namespace

theorem yields_ambientModule (name : String) :
    Yields source (ambientModule g name) (IsLaidOut source) :=
  .skip fun _ => .ite ((yields_namespaceBody hg).map _ fun _ _ => isLaidOut_namespace) <|
    .skip fun _ => .pure fun _ => isLaidOut_namespace <|
      haveBodies_of_forall nofun

theorem yields_declarationBehind (text : String) (isSure : Bool) :
    Yields source (declarationBehind g text isSure) (IfSome (IsLaidOut source)) := by
  unfold declarationBehind
  refine .skip fun _ => .skip fun _ => ?_
  split
  · exact .skip fun _ => .ite (.skip fun _ => yields_classDeclaration.some) .none
  · exact .ite yields_enumDeclaration.some .none
  · exact .ite yields_interfaceDeclaration.some .none
  · exact .skip fun _ => .ite (.skip fun name => (yields_ambientModule hg name).some) <|
      .ite (yields_namespaceDeclaration hg).some .none
  · exact .ite (yields_namespaceDeclaration hg).some .none
  · exact .ite yields_aliasDeclaration.some .none
  · exact .none

theorem yields_sureDeclaration :
    Yields source (sureDeclaration g) (IfSome (IsLaidOut source)) :=
  .skip fun _ => .skip fun _ => .ite .none <| .skip fun _ => yields_declarationBehind hg _ true

theorem yields_ambientDeclaration :
    Yields source (ambientDeclaration g) (IfSome (IsLaidOut source)) :=
  .withReader <| .skip fun _ => .ite yields_functionDeclaration.some <|
    .skip fun _ => .ite yields_classDeclaration.some <|
    .skip fun _ => .ite (.skip fun _ => .skip fun _ => yields_enumDeclaration.some) <|
    .skip fun _ => .ite yields_variableStatement.some <|
    .skip fun _ => .ite (yields_ambientModule hg "global").some (yields_sureDeclaration hg)

theorem yields_typedDeclaration (text : String) :
    Yields source (typedDeclaration g text) (IfSome (IsLaidOut source)) := by
  unfold typedDeclaration
  refine .skip fun _ => .ite .none ?_
  split
  · exact yields_ambientDeclaration hg
  · exact .skip fun _ =>
      .ite ((yields_namespaceBody hg).map _ fun _ _ hitems _ hsome =>
        Option.some.inj hsome ▸ isLaidOut_namespace hitems) .none
  · exact (yields_declarationBehind hg text false).orElse
      (.skip fun _ => .ite yields_interfaceDeclaration.some .none) fun _ => rfl

/-! ## Statements -/

theorem yields_plainDeclaration :
    Yields source (plainDeclaration g isPart) (IfSome (IsLaidOut source)) :=
  .skip fun _ => .skip fun _ =>
    .ite (.skip fun _ => .skip fun _ => yields_enumDeclaration.some) <|
    .skip fun _ => .ite yields_functionDeclaration.some <|
    .skip fun _ => .skip fun _ =>
    .ite (.skip fun _ => .skip fun _ => yields_functionDeclaration.some) <|
    .skip fun _ => .ite yields_classDeclaration.some <|
    .skip fun _ => .skip fun _ => .ite yields_variableStatement.some <|
    .skip fun _ => .ite yields_usedVariables.some <|
    .skip fun _ => .ite
      (.skip fun _ => .skip fun _ => .skip fun text => .skip fun _ => .skip fun _ =>
        yields_declarationBehind hg text false) .none

theorem yields_expressionStatement :
    Yields source (expressionStatement g) (IfSome (IsLaidOut source)) := by
  unfold expressionStatement
  refine .skip fun form => ?_
  split
  · next text =>
    exact .skip fun _ => .ite (.skip fun _ => .none) <|
      (yields_typedDeclaration hg text).orElse (.skip fun _ => .none) fun _ => rfl
  · exact .skip fun _ => .none

theorem yields_statementShape :
    Yields source (statementShape g isPart) (IfSome (IsLaidOut source)) :=
  (yields_plainDeclaration hg).orElse
    -- A block, a lone semicolon, and what a word begins hold nothing that is exported.
    (.skip fun _ => .ite (.skip fun _ => .none) <|
      .skip fun _ => .ite .none <|
      .skip fun _ => .ite (.skip fun _ => .skip fun _ => .none) <|
      .skip fun _ => .ite (.skip fun _ => .skip fun _ => .none) <|
      .skip fun _ => .ite (.skip fun _ => .skip fun _ => .skip fun _ => .skip fun _ => .none) <|
      .skip fun _ => .ite yields_awaitedUse (yields_expressionStatement hg)) fun _ => rfl

theorem yields_statementItem :
    Yields source (statementItem g) fun item _ => HaveBodies source [item] := by
  refine (yields_statementShape hg).withReader.located.bind fun found => .inr ?_
  obtain ⟨site, _ | declaration⟩ := found
  · exact ⟨.other, rfl, fun _ _ => haveBodies_other⟩
  · exact ⟨.declared site declaration, rfl, fun _ h => haveBodies_declared (h _ rfl)⟩

/-! ## Exports of declarations -/

theorem yields_typedExport :
    Yields source (typedExport g) (IfSome (IfSome (IsLaidOut source))) := by
  have hdeclared : Yields source (declaredExport g) (IfSome (IsLaidOut source)) :=
    .skip fun _ => .ite (yields_ambientDeclaration hg) .none
  refine hdeclared.bind fun
    | some declaration =>
      .inr ⟨some (some declaration), rfl, fun _ h _ hd => Option.some.inj hd ▸ h⟩
    | none => .inl ?_
  refine (yields_sureDeclaration hg).attempt.bind fun
    | some (some declaration) => .inr ⟨some (some declaration), rfl, fun _ h => h⟩
    | some none => .inl ?_
    | none => .inl ?_
  · exact .skip fun _ => .ite (.pure fun _ _ h => Option.some.inj h ▸ nofun) .none
  · exact .skip fun _ => .ite (.pure fun _ _ h => Option.some.inj h ▸ nofun) .none

theorem yields_exportRest :
    Yields source (exportRest g isDecorated) (IfSome (IsLaidOut source)) :=
  .skip fun _ => (Yields.ite (yields_typedExport hg) .none).bind fun
    | some declaration => .inr ⟨declaration, rfl, fun _ h => h _ rfl⟩
    | none => .inl yields_plainExport

theorem yields_exportItem :
    Yields source (exportItem g isDecorated) fun item _ => HaveBodies source [item] := by
  intro scope c item d hc h
  obtain ⟨⟨site, found⟩, m, hlocated, hitem⟩ := reads_bind.1 h
  obtain ⟨hexport, first, hfirst, hle, rfl⟩ := reads_located.1 hlocated
  obtain ⟨_, m', hword, hrest⟩ := reads_bind.1 hexport
  have hm' := (hword.leads.isOf hc).1
  obtain ⟨lo, hlo, hfound⟩ := (yields_exportRest hg).withReader scope m' found m hm' hrest
  refine ⟨d.last, (h.leads.isOf hc).2, ?_⟩
  cases found with
  | none =>
    obtain ⟨rfl, rfl⟩ := reads_pure.1 hitem
    exact haveBodies_other
  | some declaration =>
    obtain ⟨rfl, rfl⟩ := reads_pure.1 hitem
    refine haveBodies_exported (hfound _ rfl) ?_ rfl
    -- The word `export` is the first token of the export, so its body stands behind the word.
    obtain ⟨token, htoken, hkind, rfl⟩ := hword.passes_word
    obtain rfl := Option.some.inj (htoken.symm.trans hfirst)
    have hhi := (hc.token token htoken).word "export" hkind
    rw [Cursor.behind, Cursor.last_ofGap] at hlo
    exact (min_le_left _ _).trans (hhi.trans hlo)

theorem yields_item : Yields source (Grammar.item g) fun item _ => HaveBodies source [item] :=
  .skip fun _ => .skip fun _ => .ite (.skip fun _ => .skip fun _ => yields_exportItem hg) <|
    .skip fun _ => .skip fun _ =>
    .ite (.skip fun _ => .skip fun _ => .skip fun _ => .skip fun _ =>
      .pure fun _ => haveBodies_other)
    (yields_statementItem hg)

end

/-! ## Sources -/

/-- However deep the parts of a source nest, what its items export has bodies. -/
theorem yields_ofDepth (source : List Char) (depth : Nat) :
    Yields source (Nested.ofDepth depth).item fun item _ => HaveBodies source [item] := by
  induction depth with
  | zero => exact .refuse
  | succ depth ih => exact yields_item ih

theorem readsAll_of_moduleItems {scope : Scope} {c d : Cursor}
    (h : (moduleItems g).Reads scope c items d) :
    ∃ m, ReadsAll (g.item.Reads scope) c items m := by
  obtain ⟨m, hall, -⟩ := readsAll_of_many h
  refine ⟨m, hall.mono fun c item d hstep => ?_⟩
  obtain ⟨x, hx, hitem⟩ := reads_some (reads_of_unless_atEnd hstep)
  exact Option.some.inj hx ▸ hitem

/-- Whatever a source exports has its members in a body. -/
theorem haveBodies_of_parse? {language : Language} {text : List Char} {src : Source}
    (h : Source.parse? language text = some src) : HaveBodies text src.items := by
  unfold Source.parse? at h
  split at h
  · next items d leads hitems =>
    obtain rfl := Option.some.inj h
    obtain ⟨m, hall⟩ := readsAll_of_moduleItems ⟨leads, hitems⟩
    exact haveBodies_of_forall
      ((yields_ofDepth text _).forall_of_readsAll hall (Cursor.isOf_ofSource text))
  · cases h

end ReferencePages
