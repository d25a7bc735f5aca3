import ReferencePages.Proofs.SiteLink.Basic
import ReferencePages.Proofs.Sync.Listing
import ReferencePages.Proofs.Sync.Reach

/-!
# Modules in order of name

The modules of a package are in order of name, and so are the exports and the types of each, whether
they are read from a listing (`modulesInOrder_readListing`) or from declarations
(`modulesInOrder_assembleModules`): a listing is sorted once it is read, while the symbols of
declarations are sorted module by module, and the modules last.

Moving links comes after that, and maps names too. A name is moved only if it has the way to a page
in it, and then it still has (`docs_infix_moveLinks`), so modules whose names do not look like links
stay in order (`modulesInOrder_packageModules`).
-/

namespace ReferencePages

/-! ## Sorted modules -/

/-- The exports and the types of a module are in order of name. -/
def DocModule.InOrder (m : DocModule) : Prop :=
  ReferencePages.InOrder Symbol.name m.exports ∧ ReferencePages.InOrder Symbol.name m.types

theorem DocModule.inOrder_sort (m : DocModule) : m.sort.InOrder :=
  ⟨m.sortedAs_sort.exports.inOrder, m.sortedAs_sort.types.inOrder⟩

theorem modulesInOrder_sortModules {ms : List DocModule} (h : ∀ m ∈ ms, m.InOrder) :
    ModulesInOrder (sortModules ms) := by
  have hsorted := stablySorted_sortByName DocModule.name ms
  exact ⟨hsorted.inOrder, fun m hm => h m (hsorted.perm.mem_iff.1 hm)⟩

/-- A listing is in order once it is read. -/
theorem modulesInOrder_readListing {readers : Readers} {path command : String} {t : FileTree}
    {ms : List DocModule} (h : readListing readers path command t = .ok ms) :
    ModulesInOrder ms := by
  unfold readListing at h
  split at h
  · cases h
  · split at h
    · cases h
      refine modulesInOrder_sortModules fun m hm => ?_
      obtain ⟨m, -, rfl⟩ := List.mem_map.1 hm
      exact m.inOrder_sort
    · cases h

/-! ## Modules of declarations -/

section

variable {readers : Readers} {o : FormatOptions} {origin : Option String}
  {path directory : String} {t : FileTree} {m : DocModule} {ms : List DocModule}

theorem inOrder_ofItems {source : List Char} {items : List TypeScript.Item} {e : Extraction}
    (h : Extraction.ofItems o source items = .ok e) :
    InOrder Symbol.name e.exports ∧ InOrder Symbol.name e.types := by
  obtain ⟨found, -, h⟩ := bind_eq_ok_iff.1 h
  obtain rfl := Except.ok.inj h
  exact ⟨(stablySorted_sortByName Symbol.name found.exports).inOrder,
    (stablySorted_sortByName Symbol.name found.types).inOrder⟩

theorem inOrder_privateModule (h : privateModule readers o path t = .ok m) : m.InOrder := by
  obtain ⟨source, -, h⟩ := bind_eq_ok_iff.1 h
  obtain ⟨e, he, h⟩ := bind_eq_ok_iff.1 h
  obtain rfl := Except.ok.inj h
  exact inOrder_ofItems he

theorem inOrder_entryModule {source : List Char} {site : TypeScript.Site} {name : String}
    {items : List TypeScript.Item} (h : entryModule o origin source site name items = .ok m) :
    m.InOrder := by
  obtain ⟨e, he, h⟩ := bind_eq_ok_iff.1 h
  obtain rfl := Except.ok.inj h
  exact inOrder_ofItems he

/-- A fragment documents no symbols. -/
theorem inOrder_fragmentModule {fileName : FileName}
    (h : fragmentModule origin directory fileName t = .ok m) : m.InOrder := by
  obtain ⟨text, -, h⟩ := bind_eq_ok_iff.1 h
  obtain rfl := Except.ok.inj h
  exact ⟨List.Pairwise.nil, List.Pairwise.nil⟩

theorem inOrder_fragmentModules (h : fragmentModules origin directory t = .ok ms) :
    ∀ m ∈ ms, m.InOrder := by
  intro m hm
  rw [fragmentModules_eq] at h
  obtain ⟨names, -, h⟩ := bind_eq_ok_iff.1 h
  obtain ⟨name, -, hname⟩ := (exists_of_mapM_eq_ok h).2 m hm
  exact inOrder_fragmentModule hname

theorem inOrder_entryModules (h : entryModules readers o origin path t = .ok ms) :
    ∀ m ∈ ms, m.InOrder := by
  intro m hm
  obtain ⟨source, -, h⟩ := bind_eq_ok_iff.1 h
  obtain ⟨⟨site, name, items⟩, -, hentry⟩ := (exists_of_mapM_eq_ok h).2 m hm
  exact inOrder_entryModule hentry

/-- The modules of declarations are in order. -/
theorem modulesInOrder_assembleModules {sources : DeclarationSources}
    (h : assembleModules readers o sources t = .ok ms) : ModulesInOrder ms := by
  obtain ⟨privates, fragments, entries, hprivate, hfragments, hentry, rfl⟩ :=
    assembleModules_eq_ok h
  refine modulesInOrder_sortModules fun m hm => ?_
  rcases List.mem_append.1 hm with hm | hm
  · rcases List.mem_append.1 hm with hm | hm
    · obtain ⟨path, -, hpath⟩ := (exists_of_mapM_eq_ok hprivate).2 m hm
      exact inOrder_privateModule hpath
    · obtain ⟨found, hfound, hm⟩ := List.mem_flatten.1 hm
      obtain ⟨directory, -, hdirectory⟩ := (exists_of_mapM_eq_ok hfragments).2 found hfound
      exact inOrder_fragmentModules hdirectory m hm
  · exact inOrder_entryModules hentry m hm

theorem modulesInOrder_readModules {p : Package} (h : p.readModules readers o t = .ok ms) :
    ModulesInOrder ms := by
  have hdeclared : p.declaredModules readers o t = .ok ms → ModulesInOrder ms := by
    intro h
    unfold Package.declaredModules at h
    split at h
    · exact modulesInOrder_assembleModules h
    · cases h
  unfold Package.readModules at h
  split at h
  · split at h
    · exact modulesInOrder_readListing h
    · exact hdeclared h
  · exact hdeclared h

end

/-! ## Moved names -/

/-- The names of a module, of its exports and of its types. -/
def DocModule.names (m : DocModule) : List String :=
  m.name :: (m.exports.map Symbol.name ++ m.types.map Symbol.name)

/-- No name of some modules has the way to a page in it. -/
def PlainNames (ms : List DocModule) : Prop :=
  ∀ m ∈ ms, ∀ name ∈ m.names, ¬SiteLink.docs <:+: name.toList

/-- A text with its links moved. -/
def movedText (s : String) : String := String.ofList (SiteLink.moveLinks s.toList)

theorem toList_movedText (s : String) : (movedText s).toList = SiteLink.moveLinks s.toList :=
  String.toList_ofList

/-- Moving links neither makes a plain text out of a link nor a link out of a plain text. -/
theorem docs_infix_movedText_iff {s : String} :
    SiteLink.docs <:+: (movedText s).toList ↔ SiteLink.docs <:+: s.toList := by
  rw [toList_movedText]
  refine ⟨fun h => Decidable.byContradiction fun hplain => ?_, SiteLink.docs_infix_moveLinks⟩
  rw [SiteLink.moveLinks_of_not_infix hplain] at h
  exact hplain h

theorem movedText_of_plain {s : String} (h : ¬SiteLink.docs <:+: s.toList) : movedText s = s := by
  rw [movedText, SiteLink.moveLinks_of_not_infix h, String.ofList_toList]

theorem name_mapText (f : String → String) (s : Symbol) : (s.mapText f).name = f s.name := by
  cases s
  rfl

theorem map_name_mapTexts (f : String → String) (ss : List Symbol) :
    (Symbol.mapTexts f ss).map Symbol.name = (ss.map Symbol.name).map f := by
  induction ss with
  | nil => rfl
  | cons s ss ih =>
    rw [Symbol.mapTexts, List.map_cons, List.map_cons, List.map_cons, ih, name_mapText]

theorem names_mapText (f : String → String) (m : DocModule) :
    (m.mapText f).names = m.names.map f := by
  simp only [DocModule.names, DocModule.mapText, map_name_mapTexts, List.map_cons, List.map_append]

/-- The names of modules are plain after their links are moved exactly if they were before. -/
theorem plainNames_moveModuleLinks {ms : List DocModule} :
    PlainNames (moveModuleLinks ms) ↔ PlainNames ms := by
  simp only [PlainNames, moveModuleLinks, List.forall_mem_map, names_mapText]
  exact forall₂_congr fun m _ => forall₂_congr fun name _ => not_congr docs_infix_movedText_iff

theorem inOrder_iff_pairwise_map {α : Type} {name : α → String} {xs : List α} :
    InOrder name xs ↔ (xs.map name).Pairwise (· ≤ ·) := by
  rw [InOrder, List.pairwise_map]

theorem map_movedText_of_plain {names : List String}
    (h : ∀ name ∈ names, ¬SiteLink.docs <:+: name.toList) : names.map movedText = names := by
  rw [List.map_congr_left fun name hname => movedText_of_plain (h name hname), List.map_id']

/-- Moving links keeps modules in order whose names are plain. -/
theorem modulesInOrder_moveModuleLinks {ms : List DocModule} (h : ModulesInOrder ms)
    (hplain : PlainNames ms) : ModulesInOrder (moveModuleLinks ms) := by
  have hsymbols : ∀ ss : List Symbol,
      (∀ name ∈ ss.map Symbol.name, ¬SiteLink.docs <:+: name.toList) →
      InOrder Symbol.name ss → InOrder Symbol.name (Symbol.mapTexts movedText ss) := by
    intro ss hnames hss
    rwa [inOrder_iff_pairwise_map, map_name_mapTexts, map_movedText_of_plain hnames,
      ← inOrder_iff_pairwise_map]
  refine ⟨?_, fun m hm => ?_⟩
  · have hnames : (moveModuleLinks ms).map DocModule.name = ms.map DocModule.name := by
      rw [moveModuleLinks, List.map_map]
      refine List.map_congr_left fun m hm => movedText_of_plain (hplain m hm m.name ?_)
      exact List.mem_cons_self
    rw [inOrder_iff_pairwise_map, hnames, ← inOrder_iff_pairwise_map]
    exact h.1
  · obtain ⟨m, hmem, rfl⟩ := List.mem_map.1 hm
    have hnames := hplain m hmem
    obtain ⟨hexports, htypes⟩ := h.2 m hmem
    refine ⟨hsymbols m.exports (fun name hname => hnames name ?_) hexports,
      hsymbols m.types (fun name hname => hnames name ?_) htypes⟩
    · exact List.mem_cons_of_mem _ (List.mem_append_left _ hname)
    · exact List.mem_cons_of_mem _ (List.mem_append_right _ hname)

/-! ## The modules of a package -/

/-- A package whose modules are read gives them in order of name, each with its exports and its
types in order of name, unless one of these names looks like a link. -/
theorem modulesInOrder_packageModules {readers : Readers} {programs : Programs}
    {format : FormatOptions} {p : Package} {t : FileTree} {ms : List DocModule}
    (h : ((packageModules readers programs format p).runOn t).1 = .ok ms) (hplain : PlainNames ms) :
    ModulesInOrder ms := by
  rw [runOn_packageModules] at h
  obtain ⟨-, -, h⟩ := bind_eq_ok_iff.1 h
  obtain ⟨read, hread, h⟩ := bind_eq_ok_iff.1 h
  have hsorted := modulesInOrder_readModules hread
  obtain rfl := Except.ok.inj h
  by_cases hmoves : p.moveLinks
  · rw [if_pos hmoves] at hplain ⊢
    exact modulesInOrder_moveModuleLinks hsorted (plainNames_moveModuleLinks.1 hplain)
  · rwa [if_neg hmoves]

/-- A program that writes a listing. -/
def listingProgram : Generator where
  program := "list"
  directory := ""
  listing := some "kit.json"

/-- A package whose modules are listed, and whose links are moved. -/
def listedPackage : Package where
  name := "kit"
  referenceDir := "reference"
  moveLinks := true
  generator := some listingProgram

theorem plainNames_sortModules {ms : List DocModule} (h : PlainNames ms) :
    PlainNames (sortModules (ms.map DocModule.sort)) := by
  intro m hm name hname
  obtain ⟨m, hmem, rfl⟩ :=
    List.mem_map.1 ((stablySorted_sortByName DocModule.name _).perm.mem_iff.1 hm)
  refine h m hmem name ?_
  have hexports := (stablySorted_sortByName Symbol.name m.exports).perm.map Symbol.name
  have htypes := (stablySorted_sortByName Symbol.name m.types).perm.map Symbol.name
  exact ((hexports.append htypes).cons m.name).mem_iff.1 hname

/-- Programs that end well and do nothing. -/
def idlePrograms : Programs := fun _ _ t => (.ended 0 "", t)

theorem runOn_listingProgram (t : FileTree) :
    (listingProgram.run idlePrograms).runOn t = (.ok (), t) := rfl

/-- The modules that were listed out of order come back in order. -/
theorem modulesInOrder_listedPackage : ∃ t ms,
    readListing Readers.standard "kit.json" "list" t =
        .ok (sortModules (exampleModules.map DocModule.sort)) ∧
      ((packageModules Readers.standard idlePrograms {} listedPackage).runOn t).1 = .ok ms ∧
        ModulesInOrder ms := by
  let t : FileTree :=
    ({} : FileTree).put (Place.ofPath [] "kit.json") (.text (Listing.write exampleModules))
  have hread : readListing Readers.standard "kit.json" "list" t =
      .ok (sortModules (exampleModules.map DocModule.sort)) := by
    have htarget : ({} : FileTree).target? "kit.json" = some (Place.ofPath [] "kit.json") := by
      decide
    refine readListing_of_modules? ?_ (Listing.modules?_write (by decide))
    exact FileTree.readText?_of_write (FileTree.write_whole htarget _)
  have hpath : listingProgram.listingPath? = some "kit.json" := by decide
  have hcommand : listingProgram.commandLine = "list" := by decide
  have hrun : (packageModules Readers.standard idlePrograms {} listedPackage).runOn t = _ :=
    runOn_packageModules_of_read rfl (runOn_listingProgram t) hpath (hcommand ▸ hread)
  have hplain : PlainNames exampleModules := by
    unfold PlainNames
    decide +kernel
  have hok := congrArg Prod.fst hrun
  refine ⟨t, _, hread, hok, modulesInOrder_packageModules hok ?_⟩
  exact plainNames_moveModuleLinks.2 (plainNames_sortModules hplain)

end ReferencePages
