import Mathlib.Data.List.Nodup
import ReferencePages.Proofs.Markers
import ReferencePages.Proofs.Order
import ReferencePages.Proofs.Sync.Inputs
import ReferencePages.Readers.Standard

/-!
# Modules that a marker reaches

A name stands for the first module that has it, and modules are in order of name. Since sorting
is stable, that is the first module in the order of the sources: private types, then fragments by
file name, then the ambient modules of the entry file. So a module is reached exactly if the first
module of its name renders alike (`reaches_assembled`); where the sources give every name once, all
modules are reached.

Nothing makes the names of sources differ. An entry file that declares a module twice hides what
the second declaration adds (`not_reaches_declaredTwice`).
-/

namespace ReferencePages

/-! ## Markers of names -/

/-- A name that a marker can hold: it is on one line, and the end of a marker does not stand in it
behind its first character. -/
structure IsMarkerName (name : List Char) : Prop where
  ne_nil : name ≠ []
  oneLine : '\n' ∉ name
  unclosed : ¬markerClose <:+: name.tail

/-- The marker of a name. -/
def marker (name : String) : String :=
  String.ofList (markerOpen ++ (name.toList ++ markerClose))

/-- The end of a marker does not begin inside what comes before it. -/
theorem not_startsWith_markerClose {s : List Char} (hne : s ≠ []) (h : ¬markerClose <:+: s) :
    startsWith markerClose (s ++ markerClose) = false := by
  rw [← Bool.not_eq_true, startsWith_iff]
  rintro ⟨rest, hrest⟩
  rcases s with _ | ⟨a, _ | ⟨b, _ | ⟨c, _ | ⟨d, s⟩⟩⟩⟩
  · exact hne rfl
  · simp [markerClose] at hrest
  · simp [markerClose] at hrest
  · simp [markerClose] at hrest
  · refine h ⟨[], s, ?_⟩
    simp only [markerClose, List.cons_append] at hrest ⊢
    simp_all

theorem markerName?_append_markerClose {name : List Char} (h : IsMarkerName name) :
    markerName? (name ++ markerClose) = some name := by
  obtain ⟨hne, hline, hclose⟩ := h
  induction name with
  | nil => exact absurd rfl hne
  | cons c name ih =>
    obtain ⟨hc, hname⟩ := List.ne_and_not_mem_of_not_mem_cons hline
    rw [List.cons_append, markerName?, if_neg hc.symm]
    by_cases hnil : name = []
    · subst hnil
      simp [startsWith, dropPrefix?, markerClose]
    · rw [not_startsWith_markerClose hnil hclose, ih hnil hname fun htail =>
        hclose (htail.trans (List.tail_suffix name).isInfix)]
      rfl

/-- A page that is the marker of a name becomes what the name stands for. -/
theorem ReferenceTable.substitute_marker (table : ReferenceTable) {name : String}
    (h : IsMarkerName name.toList) : table.substitute (marker name) = table.resolve name := by
  have hmarker : (marker name).toList = markerOpen ++ (name.toList ++ markerClose) :=
    String.toList_ofList
  have hmatch : includeMarker (marker name).toList =
      some (name.toList, markerOpen.length + name.toList.length + markerClose.length - 1) := by
    rw [hmarker, includeMarker, dropPrefix?_eq_some_iff.2 rfl, Option.bind_eq_bind,
      Option.bind_some, markerName?_append_markerClose h]
    rfl
  have hpieces : pieces includeMarker (marker name).toList = [.hit name.toList] := by
    obtain ⟨c, s, hs⟩ : ∃ c s, (marker name).toList = c :: s :=
      ⟨'<', _, by rw [hmarker]; rfl⟩
    have hlength : (c :: s).length =
        markerOpen.length + name.toList.length + markerClose.length := by
      rw [← hs, hmarker, List.length_append, List.length_append, Nat.add_assoc]
    rw [hs] at hmatch
    rw [hs, pieces_cons_of_some hmatch, ← hlength, List.length_cons, Nat.add_sub_cancel,
      List.drop_length, pieces_nil]
  rw [substitute, hpieces, substitutePieces, String.ofList_toList]
  rcases table.resolve name with e | text
  · rfl
  · show Except.ok (String.ofList (text.toList ++ [])) = _
    rw [List.append_nil, String.ofList_toList]

/-- The name of a module stands for the module, and so does its marker. -/
structure ReferenceTable.Reaches (table : ReferenceTable) (m : DocModule) : Prop where
  resolve : table.resolve m.name = .ok (table.renderer.renderModule m)
  substitute : IsMarkerName m.name.toList →
    table.substitute (marker m.name) = .ok (table.renderer.renderModule m)

/-- The table of some modules, none of whose types are configuration types. -/
def moduleTable (ms : List DocModule) : ReferenceTable := { modules := ms }

theorem resolve_moduleTable {ms : List DocModule} {m first : DocModule}
    (h : ms.find? (·.name = m.name) = some first) :
    (moduleTable ms).resolve m.name = .ok (({} : Renderer).renderModule first) := by
  have hmodule : (moduleTable ms).resolveModule? m.name =
      some (({} : Renderer).renderModule first) := by
    rw [ReferenceTable.resolveModule?, moduleTable, h]
    rfl
  have hconfig : (moduleTable ms).resolveConfig? m.name = none := rfl
  rw [ReferenceTable.resolve, hconfig, hmodule]
  rfl

/-- A module is reached if the first module of its name renders alike. -/
theorem reaches_moduleTable_iff {ms : List DocModule} {m first : DocModule}
    (h : ms.find? (·.name = m.name) = some first) :
    (moduleTable ms).Reaches m ↔
      ({} : Renderer).renderModule first = ({} : Renderer).renderModule m := by
  have hresolve := resolve_moduleTable h
  constructor
  · intro hreach
    exact Except.ok.inj (hresolve.symm.trans hreach.resolve)
  · intro hrender
    rw [hrender] at hresolve
    exact ⟨hresolve, fun hname => (ReferenceTable.substitute_marker _ hname).trans hresolve⟩

/-! ## Names of sources -/

/-- The names of the ambient modules of an entry file, in order. -/
def ambientNames (readers : Readers) (entry : String) (t : FileTree) : List String :=
  match readDeclarationSource readers entry t with
  | .ok source => (source.items.filterMap ambientModule?).map (·.2.1)
  | .error _ => []

/-- The names of the modules of some sources, in the order of the sources. -/
def DeclarationSources.moduleNames (readers : Readers) (sources : DeclarationSources)
    (t : FileTree) : List String :=
  sources.privateTypes.toList.map (fun _ => privateModuleName) ++
    (sources.fragments.toList.map fun directory =>
      ((t.fragmentNames directory).toOption.getD []).map fragmentModuleName).flatten ++
    ambientNames readers sources.entry t

theorem map_eq_of_mapM_eq_ok {α β γ ε : Type} {f : α → Except ε β} {g : β → γ} {k : α → γ}
    {xs : List α} {ys : List β} (h : xs.mapM f = .ok ys) (hg : ∀ x y, f x = .ok y → g y = k x) :
    ys.map g = xs.map k := by
  have hall := forall₂_of_mapM_eq_ok h
  clear h
  induction hall with
  | nil => rfl
  | cons hx _ ih => rw [List.map_cons, List.map_cons, hg _ _ hx, ih]

section

variable {readers : Readers} {o : FormatOptions} {origin : Option String} {path directory : String}
  {fileName : FileName} {t : FileTree} {m : DocModule} {ms : List DocModule}

theorem name_privateModule (h : privateModule readers o path t = .ok m) :
    m.name = privateModuleName := by
  obtain ⟨source, -, h⟩ := bind_eq_ok_iff.1 h
  obtain ⟨e, -, h⟩ := bind_eq_ok_iff.1 h
  exact (congrArg DocModule.name (Except.ok.inj h)).symm

theorem name_fragmentModule (h : fragmentModule origin directory fileName t = .ok m) :
    m.name = fragmentModuleName fileName := by
  obtain ⟨text, -, h⟩ := bind_eq_ok_iff.1 h
  exact (congrArg DocModule.name (Except.ok.inj h)).symm

theorem map_name_fragmentModules (h : fragmentModules origin directory t = .ok ms) :
    ms.map DocModule.name =
      ((t.fragmentNames directory).toOption.getD []).map fragmentModuleName := by
  rw [fragmentModules_eq] at h
  rcases hnames : t.fragmentNames directory with e | names
  · rw [hnames] at h
    cases h
  · rw [hnames] at h
    exact map_eq_of_mapM_eq_ok h fun _ _ => name_fragmentModule

theorem name_entryModule {source : List Char} {site : TypeScript.Site} {name : String}
    {items : List TypeScript.Item} (h : entryModule o origin source site name items = .ok m) :
    m.name = name := by
  obtain ⟨e, -, h⟩ := bind_eq_ok_iff.1 h
  exact (congrArg DocModule.name (Except.ok.inj h)).symm

theorem map_name_entryModules (h : entryModules readers o origin path t = .ok ms) :
    ms.map DocModule.name = ambientNames readers path t := by
  unfold entryModules at h
  unfold ambientNames
  rcases hsource : readDeclarationSource readers path t with e | source
  · rw [hsource] at h
    cases h
  · rw [hsource] at h
    exact map_eq_of_mapM_eq_ok h fun _ _ => name_entryModule

end

/-- The modules of some sources are those of private types, those of fragments, and those of the
entry file, in order of name. -/
theorem assembleModules_eq_ok {readers : Readers} {o : FormatOptions}
    {sources : DeclarationSources} {t : FileTree} {ms : List DocModule}
    (h : assembleModules readers o sources t = .ok ms) :
    ∃ privates fragments entries,
      (sources.privateTypes.toList.mapM fun path => privateModule readers o path t) = .ok privates ∧
      (sources.fragments.toList.mapM fun directory =>
        fragmentModules sources.origin directory t) = .ok fragments ∧
      entryModules readers o sources.origin sources.entry t = .ok entries ∧
      ms = sortModules (privates ++ fragments.flatten ++ entries) := by
  obtain ⟨privates, hprivate, h⟩ := bind_eq_ok_iff.1 h
  obtain ⟨fragments, hfragments, h⟩ := bind_eq_ok_iff.1 h
  obtain ⟨entries, hentry, h⟩ := bind_eq_ok_iff.1 h
  exact ⟨privates, fragments, entries, hprivate, hfragments, hentry, (Except.ok.inj h).symm⟩

theorem exists_found {readers : Readers} {o : FormatOptions} {sources : DeclarationSources}
    {t : FileTree} {ms : List DocModule} (h : assembleModules readers o sources t = .ok ms) :
    ∃ found : List DocModule,
      found.map DocModule.name = sources.moduleNames readers t ∧ ms = sortModules found := by
  obtain ⟨privates, fragments, entries, hprivate, hfragments, hentry, rfl⟩ :=
    assembleModules_eq_ok h
  refine ⟨privates ++ fragments.flatten ++ entries, ?_, rfl⟩
  rw [DeclarationSources.moduleNames, List.map_append, List.map_append, List.map_flatten,
    map_eq_of_mapM_eq_ok hprivate fun _ _ => name_privateModule,
    map_eq_of_mapM_eq_ok hfragments fun _ _ => map_name_fragmentModules,
    map_name_entryModules hentry]

/-! ## Modules of sources -/

theorem find?_of_stablySorted {found ms : List DocModule}
    (h : StablySorted DocModule.name found ms) (name : String) :
    ms.find? (·.name = name) = found.find? (·.name = name) := by
  rw [← List.head?_filter, ← List.head?_filter, h.stable]

/-- The modules that sources give are found in the order of the sources, and each of them is
reached exactly if the first one of its name renders alike. Where no two sources give one name,
each is reached. -/
theorem reaches_assembled (readers : Readers) (o : FormatOptions)
    (sources : DeclarationSources) (t : FileTree) (ms : List DocModule)
    (h : assembleModules readers o sources t = .ok ms) :
    ∃ found : List DocModule, found.map DocModule.name = sources.moduleNames readers t ∧
      StablySorted DocModule.name found ms ∧
      (∀ m ∈ ms, ∃ first, found.find? (·.name = m.name) = some first ∧
        ((moduleTable ms).Reaches m ↔
          ({} : Renderer).renderModule first = ({} : Renderer).renderModule m)) ∧
      ((sources.moduleNames readers t).Nodup → ∀ m ∈ ms, (moduleTable ms).Reaches m) := by
  obtain ⟨found, hnames, rfl⟩ := exists_found h
  have hsorted := stablySorted_sortByName DocModule.name found
  have hfirst : ∀ m ∈ sortModules found, ∃ first, found.find? (·.name = m.name) = some first := by
    intro m hm
    have hsome : (found.find? (·.name = m.name)).isSome :=
      List.find?_isSome.2 ⟨m, hsorted.perm.mem_iff.1 hm, by simp⟩
    exact Option.isSome_iff_exists.1 hsome
  have hreach : ∀ m ∈ sortModules found, ∀ first, found.find? (·.name = m.name) = some first →
      ((moduleTable (sortModules found)).Reaches m ↔
        ({} : Renderer).renderModule first = ({} : Renderer).renderModule m) :=
    fun m _ first hfirst =>
      reaches_moduleTable_iff ((find?_of_stablySorted hsorted m.name).trans hfirst)
  refine ⟨found, hnames, hsorted, fun m hm => ?_, fun hnodup m hm => ?_⟩
  · obtain ⟨first, hfound⟩ := hfirst m hm
    exact ⟨first, hfound, hreach m hm first hfound⟩
  · obtain ⟨first, hfound⟩ := hfirst m hm
    have hname : first.name = m.name := by simpa using List.find?_some hfound
    rw [← hnames] at hnodup
    obtain rfl := List.inj_on_of_nodup_map hnodup (List.mem_of_find?_eq_some hfound)
      (hsorted.perm.mem_iff.1 hm) hname
    exact (hreach first hm first hfound).2 rfl

/-- A tree with a file of private types, a fragment, and an entry file. -/
def threeSourcesTree : FileTree where
  directories := [Place.ofPath [] "fragments"]
  files := Keyed.ofList [
    (Place.ofPath [] "private.d.ts", .text "type A = 1;\n"),
    (Place.ofPath [] "fragments/$env+static.md", .text "Variables.\n"),
    (Place.ofPath [] "types.d.ts", .text "declare module 'kit' \x7b\x7d\n")]

def threeSources : DeclarationSources where
  privateTypes := some "private.d.ts"
  fragments := some "fragments"
  entry := "types.d.ts"

/-- The three sources give every name once, so all modules are reached. -/
theorem reaches_threeSources : ∃ ms,
    assembleModules Readers.standard {} threeSources threeSourcesTree = .ok ms ∧
    threeSources.moduleNames Readers.standard threeSourcesTree =
      ["Private types", "$env/static", "kit"] ∧
    ∀ m ∈ ms, (moduleTable ms).Reaches m := by
  have hsome : (assembleModules Readers.standard {} threeSources
      threeSourcesTree).toOption.isSome = true := by
    decide +kernel
  have hnames : threeSources.moduleNames Readers.standard threeSourcesTree =
      ["Private types", "$env/static", "kit"] := by
    decide +kernel
  rcases h : assembleModules Readers.standard {} threeSources threeSourcesTree with e | ms
  · rw [h] at hsome
    cases hsome
  obtain ⟨-, -, -, -, hreach⟩ :=
    reaches_assembled Readers.standard {} threeSources threeSourcesTree ms h
  exact ⟨ms, rfl, hnames, hreach (by rw [hnames]; decide)⟩

/-! ## A module that is declared twice -/

/-- An entry file that declares a module twice. -/
def declaredTwiceTree : FileTree where
  files := Keyed.ofList [(Place.ofPath [] "types.d.ts",
    .text ("declare module 'a' \x7b\n\texport const x: 1;\n\x7d\n" ++
      "declare module 'a' \x7b\n\texport const y: 2;\n\x7d\n"))]

/-- The rendering of a module with one export and nothing else begins with the heading of the
export. -/
theorem toList_renderModule_singleton {m : DocModule} {s : Symbol} (hcomment : m.comment = "")
    (hexports : m.exports = [s]) (htypes : m.types = []) :
    ∃ rest, (({} : Renderer).renderModule m).toList = "### ".toList ++ s.name.toList ++ rest := by
  refine ⟨"\n\n".toList ++ (({} : Renderer).renderType s).toList, ?_⟩
  simp [Renderer.renderModule, Renderer.entry, Renderer.paragraphs, hcomment, hexports, htypes]

/-- The second declaration of a module is not reached: the name of the module stands for the
first. -/
theorem not_reaches_declaredTwice : ∃ ms,
    assembleModules Readers.standard {} { entry := "types.d.ts" } declaredTwiceTree = .ok ms ∧
    ∃ m ∈ ms, m.exports.map Symbol.name = ["y"] ∧
      (moduleTable ms).resolve m.name ≠ .ok (({} : Renderer).renderModule m) := by
  have hentries :
      (entryModules Readers.standard {} none "types.d.ts" declaredTwiceTree).toOption.map
        (List.map fun m => (m.name, m.comment, m.exports.map Symbol.name, m.types.length)) =
          some [("a", "", ["x"], 0), ("a", "", ["y"], 0)] := by
    decide +kernel
  obtain ⟨entries, hfound, hentries⟩ := Option.map_eq_some_iff.1 hentries
  obtain ⟨m, n, rfl⟩ : ∃ m n, entries = [m, n] := List.length_eq_two.1 (by
    simpa using congrArg List.length hentries)
  simp only [List.map_cons, List.map_nil, List.cons.injEq, Prod.mk.injEq, and_true] at hentries
  obtain ⟨⟨hm, hmcomment, hmexports, hmtypes⟩, hn, hncomment, hnexports, hntypes⟩ := hentries
  have hsort : sortModules [m, n] = [m, n] := sortByName_of_inOrder (by simp [InOrder, hm, hn])
  have hassemble : assembleModules Readers.standard {} { entry := "types.d.ts" } declaredTwiceTree =
      .ok [m, n] := by
    rcases h : entryModules Readers.standard {} none "types.d.ts" declaredTwiceTree with e | ms
    · rw [h] at hfound
      cases hfound
    · rw [h] at hfound
      obtain rfl := Option.some.inj hfound
      unfold assembleModules
      simp only [Option.toList_none, List.mapM_nil, h]
      exact congrArg Except.ok hsort
  obtain ⟨x, hmx⟩ := List.length_eq_one_iff.1 (by simpa using congrArg List.length hmexports)
  obtain ⟨y, hny⟩ := List.length_eq_one_iff.1 (by simpa using congrArg List.length hnexports)
  rw [hmx] at hmexports
  rw [hny] at hnexports
  obtain ⟨rest, hrest⟩ :=
    toList_renderModule_singleton hmcomment hmx (List.eq_nil_of_length_eq_zero hmtypes)
  obtain ⟨rest', hrest'⟩ :=
    toList_renderModule_singleton hncomment hny (List.eq_nil_of_length_eq_zero hntypes)
  refine ⟨[m, n], hassemble, n, by simp, by simpa [hny] using hnexports, ?_⟩
  have hfirst : [m, n].find? (·.name = n.name) = some m := by simp [hm, hn]
  rw [resolve_moduleTable hfirst]
  intro h
  have hrender := congrArg String.toList (Except.ok.inj h)
  simp only [List.map_cons, List.map_nil, List.cons.injEq, and_true] at hmexports hnexports
  rw [hrest, hrest', hmexports, hnexports] at hrender
  simp at hrender

end ReferencePages
