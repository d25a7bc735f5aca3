import ReferencePages.Proofs.Sync.Planning

/-!
# What the modules of a package are made from

A package has its modules from its listing or from its declaration files. Beyond how its program
ends, they depend on nothing in the tree but the files at `Package.inputPaths` and the names of
its fragments. Trees that agree about these (`Package.SameInputs`) therefore make one table
(`fst_runOn_referenceTable_congr`), whatever their pages hold.
-/

namespace ReferencePages

variable {readers : Readers} {programs : Programs} {format : FormatOptions} {t s : FileTree}

/-! ## Inputs -/

/-- The names of the fragments directly inside a directory, in order. -/
def FileTree.fragmentNames (t : FileTree) (directory : String) : Except DocError (List FileName) :=
  match t.locate? directory with
  | some p =>
    if t.isDirectory p then .ok ((t.fileNames p).filter isPageName)
    else if (t.file? p).isSome then .ok []
    else .error .io
  | none => .error .io

theorem fragmentModules_eq (origin : Option String) (directory : String) (t : FileTree) :
    fragmentModules origin directory t = (do
      (← t.fragmentNames directory).mapM fun name => fragmentModule origin directory name t) := by
  unfold fragmentModules FileTree.fragmentNames
  rcases t.locate? directory with _ | p
  · rfl
  · dsimp only
    split_ifs <;> rfl

/-- The declaration files of some sources. -/
def DeclarationSources.paths (sources : DeclarationSources) (t : FileTree) : List String :=
  sources.privateTypes.toList ++
    sources.fragments.toList.flatMap (fun directory =>
      ((t.fragmentNames directory).toOption.getD []).map (Path.join directory ·.val)) ++
    [sources.entry]

/-- The sources of a package that does not have its modules from a listing. -/
def Package.sources? (p : Package) : Option DeclarationSources :=
  if p.usesListing then none else p.declarations

/-- The files that the modules of a package are made from. -/
def Package.inputPaths (p : Package) (t : FileTree) : List String :=
  (p.generator.bind Generator.listingPath?).toList ++ p.sources?.toList.flatMap (·.paths t)

/-- Two trees agree about what the modules of a package are made from. -/
structure Package.SameInputs (p : Package) (t s : FileTree) : Prop where
  /-- They have the same fragments. -/
  fragments : ∀ sources ∈ p.sources?, ∀ directory ∈ sources.fragments,
    s.fragmentNames directory = t.fragmentNames directory
  /-- Every file is in both or in neither, and reads the same. -/
  files : ∀ path ∈ p.inputPaths t,
    s.has path = t.has path ∧ s.readText? path = t.readText? path

theorem DeclarationSources.paths_congr {sources : DeclarationSources}
    (h : ∀ directory ∈ sources.fragments, s.fragmentNames directory = t.fragmentNames directory) :
    sources.paths s = sources.paths t := by
  unfold DeclarationSources.paths
  rcases hfragments : sources.fragments with _ | directory
  · rfl
  · simp [h directory hfragments]

theorem Package.SameInputs.inputPaths_eq {p : Package} (h : p.SameInputs t s) :
    p.inputPaths s = p.inputPaths t := by
  unfold Package.inputPaths
  rcases hsources : p.sources? with _ | sources
  · rfl
  · simp [sources.paths_congr (h.fragments sources hsources)]

theorem Package.SameInputs.trans {p : Package} {r : FileTree} (h : p.SameInputs t s)
    (h' : p.SameInputs s r) : p.SameInputs t r := by
  constructor
  · intro sources hsources directory hdirectory
    rw [h'.fragments sources hsources directory hdirectory,
      h.fragments sources hsources directory hdirectory]
  · intro path hpath
    obtain ⟨hhas, hread⟩ := h'.files path (by rwa [h.inputPaths_eq])
    obtain ⟨hhas', hread'⟩ := h.files path hpath
    exact ⟨hhas.trans hhas', hread.trans hread'⟩

/-! ## Declaration files -/

theorem mapM_congr {α β ε : Type} {f g : α → Except ε β} {xs : List α}
    (h : ∀ x ∈ xs, f x = g x) : xs.mapM f = xs.mapM g := by
  induction xs with
  | nil => rfl
  | cons x xs ih =>
    rw [List.mapM_cons, List.mapM_cons, h x (by simp), ih fun y hy => h y (by simp [hy])]

theorem readDeclarations_congr {path : String}
    (h : s.has path = t.has path ∧ s.readText? path = t.readText? path) :
    readDeclarations path s = readDeclarations path t := by
  simp only [readDeclarations, h.1, h.2]

theorem assembleModules_congr {sources : DeclarationSources}
    (hfragments : ∀ directory ∈ sources.fragments,
      s.fragmentNames directory = t.fragmentNames directory)
    (hfiles : ∀ path ∈ sources.paths t,
      s.has path = t.has path ∧ s.readText? path = t.readText? path) :
    assembleModules readers format sources s = assembleModules readers format sources t := by
  have hread : ∀ path ∈ sources.paths t, readDeclarations path s = readDeclarations path t :=
    fun path hpath => readDeclarations_congr (hfiles path hpath)
  have hprivate : ∀ path ∈ sources.privateTypes.toList,
      privateModule readers format path s = privateModule readers format path t := by
    intro path hpath
    simp only [privateModule, readDeclarationSource,
      hread path (by simp [DeclarationSources.paths, Option.mem_toList.1 hpath])]
  have hfragment : ∀ directory ∈ sources.fragments.toList,
      fragmentModules sources.origin directory s = fragmentModules sources.origin directory t := by
    intro directory hdirectory
    rw [fragmentModules_eq, fragmentModules_eq,
      hfragments directory (Option.mem_toList.1 hdirectory)]
    rcases hnames : t.fragmentNames directory with e | names
    · rfl
    · refine mapM_congr fun name hname => ?_
      have hpath : Path.join directory name ∈ sources.paths t := by
        simp only [DeclarationSources.paths, Option.mem_toList.1 hdirectory, List.mem_append,
          Option.toList_some, List.flatMap_singleton, hnames]
        exact Or.inl (Or.inr (List.mem_map_of_mem hname))
      simp only [fragmentModule, hread _ hpath]
  have hentry : entryModules readers format sources.origin sources.entry s =
      entryModules readers format sources.origin sources.entry t := by
    simp only [entryModules, readDeclarationSource,
      hread sources.entry (by simp [DeclarationSources.paths])]
  unfold assembleModules
  rw [mapM_congr hprivate, mapM_congr hfragment, hentry]

/-! ## Modules and tables -/

/-- How the program of a package ends. -/
def Package.ending? (programs : Programs) (p : Package) (t : FileTree) : Option Ending :=
  p.generator.map fun g => (programs g.directory (g.program :: g.args) t).1

theorem readModules_congr {p : Package} (h : p.SameInputs t s) :
    p.readModules readers format s = p.readModules readers format t := by
  have hdeclared : p.usesListing = false →
      p.declaredModules readers format s = p.declaredModules readers format t := by
    intro hlisting
    unfold Package.declaredModules
    rcases hdeclarations : p.declarations with _ | sources
    · rfl
    · have hsources : p.sources? = some sources := by
        simp [Package.sources?, hlisting, hdeclarations]
      refine assembleModules_congr (h.fragments sources hsources) fun path hpath => ?_
      exact h.files path (by simp [Package.inputPaths, hsources, hpath])
  unfold Package.readModules
  rcases hg : p.generator with _ | g
  · exact hdeclared (by simp [Package.usesListing, hg])
  · rcases hpath : g.listingPath? with _ | path
    · have hlisting : g.listing = none := by simpa [Generator.listingPath?] using hpath
      simpa [hpath] using hdeclared (by simp [Package.usesListing, hg, hlisting])
    · obtain ⟨-, hread⟩ := h.files path (by simp [Package.inputPaths, hg, hpath])
      simp only [hpath, readListing, hread]

/-- Programs that end alike and leave the same inputs give a package the same table. -/
theorem fst_runOn_referenceTable_congr {p : Package}
    (hending : p.ending? programs s = p.ending? programs t)
    (hinputs : p.SameInputs (p.runProgram programs t) (p.runProgram programs s)) :
    ((referenceTable readers programs format p).runOn s).1 =
      ((referenceTable readers programs format p).runOn t).1 := by
  have houtcome : p.outcome programs s = p.outcome programs t := by
    unfold Package.ending? at hending
    unfold Package.outcome
    rcases hg : p.generator with _ | g
    · rfl
    · simp only [hg, Option.map_some, Option.some.injEq] at hending
      simp only [hending]
  unfold referenceTable
  refine TreeStep.fst_runOn_bind_congr ?_ fun ms r r' => ?_
  · simp only [runOn_packageModules, houtcome, readModules_congr hinputs]
  · rcases p.configTypes with _ | names
    · rfl
    · simp only [bind_pure_comp, TreeStep.runOn_map, TreeStep.runOn_ofExcept]

end ReferencePages
