import ReferencePages.Proofs.Results
import ReferencePages.Proofs.Sync.Place
import ReferencePages.Proofs.Sync.Step
import ReferencePages.Sync.Pages

/-!
# Planning writes nothing

The pages of a run are planned package by package. All that happens to the tree meanwhile is
what the outside programs of the packages do to it: a plan that is made leaves the tree that the
programs of all packages leave (`runOn_planPackages_ok`), one that fails the tree that the
programs up to the failing package leave (`runOn_planPackages_error`).

The modules of a package are read once its program has ended well (`runOn_packageModules`). The
writes that are planned for it are its pages with their markers replaced, one for each page that is
there (`runOn_planPackage_ok`).
-/

namespace ReferencePages

variable {readers : Readers} {programs : Programs} {format : FormatOptions} {t s : FileTree}
  {e : DocError}

/-! ## What programs do to the tree -/

/-- The tree that the program of a package leaves. -/
def Package.runProgram (programs : Programs) (p : Package) (t : FileTree) : FileTree :=
  match p.generator with
  | some g => (programs g.directory (g.program :: g.args) t).2
  | none => t

/-- The tree that the programs of some packages leave, one after the other. -/
def runPrograms (programs : Programs) (ps : List Package) (t : FileTree) : FileTree :=
  ps.foldl (fun t p => p.runProgram programs t) t

@[simp] theorem runPrograms_nil (t : FileTree) : runPrograms programs [] t = t :=
  rfl

@[simp] theorem runPrograms_cons (p : Package) (ps : List Package) (t : FileTree) :
    runPrograms programs (p :: ps) t = runPrograms programs ps (p.runProgram programs t) :=
  rfl

@[simp] theorem runPrograms_append (ps qs : List Package) (t : FileTree) :
    runPrograms programs (ps ++ qs) t = runPrograms programs qs (runPrograms programs ps t) :=
  List.foldl_append ..

/-! ## The modules of a package -/

/-- What a program that ends in a way means for the run. -/
def Generator.outcome (g : Generator) : Ending → Except DocError Unit
  | .notStarted => .error (.generator g.commandLine .notStarted)
  | .ended 0 _ => .ok ()
  | .ended status errors =>
    .error (.generator g.commandLine (.exited status (String.ofList (trim errors.toList))))

theorem Generator.runOn_run (g : Generator) (t : FileTree) :
    (g.run programs).runOn t =
      (g.outcome (programs g.directory (g.program :: g.args) t).1,
        (programs g.directory (g.program :: g.args) t).2) := by
  unfold Generator.run
  rw [TreeStep.runOn_bind_of_ok (TreeStep.runOn_get t)]
  rcases programs g.directory (g.program :: g.args) t with ⟨ending, s⟩
  rw [TreeStep.runOn_bind_of_ok (TreeStep.runOn_set s t)]
  rcases ending with _ | ⟨_ | status, errors⟩ <;> rfl

/-- What a program lists is told by how it ends and by the listing that it leaves. -/
theorem Generator.runOn_modules? (g : Generator) (t : FileTree) :
    (g.modules? readers programs).runOn t =
      (do
        g.outcome (programs g.directory (g.program :: g.args) t).1
        g.listingPath?.mapM fun path =>
          readListing readers path g.commandLine (programs g.directory (g.program :: g.args) t).2,
        (programs g.directory (g.program :: g.args) t).2) := by
  unfold Generator.modules?
  rw [TreeStep.runOn_bind, g.runOn_run]
  rcases g.outcome (programs g.directory (g.program :: g.args) t).1 with e | ⟨⟩
  · rfl
  · rcases g.listingPath? with _ | path
    · rfl
    · simp only [TreeStep.runOn_map, TreeStep.runOn_reading]
      rfl

/-- The modules of the sources of a package in a tree that its program has left. -/
def Package.declaredModules (readers : Readers) (format : FormatOptions) (p : Package)
    (t : FileTree) : Except DocError (List DocModule) :=
  match p.declarations with
  | some sources => assembleModules readers format sources t
  | none => .error (.config (.noModuleSource p.name))

/-- The modules of a package in a tree that its program has left. -/
def Package.readModules (readers : Readers) (format : FormatOptions) (p : Package)
    (t : FileTree) : Except DocError (List DocModule) :=
  match p.generator with
  | some g =>
    match g.listingPath? with
    | some path => readListing readers path g.commandLine t
    | none => p.declaredModules readers format t
  | none => p.declaredModules readers format t

/-- What the ending of the program of a package means for the run. -/
def Package.outcome (programs : Programs) (p : Package) (t : FileTree) : Except DocError Unit :=
  match p.generator with
  | some g => g.outcome (programs g.directory (g.program :: g.args) t).1
  | none => .ok ()

/-- The modules of a package are read once its program has ended well. -/
theorem runOn_packageModules (p : Package) (t : FileTree) :
    (packageModules readers programs format p).runOn t =
      (do
        p.outcome programs t
        let ms ← p.readModules readers format (p.runProgram programs t)
        return if p.moveLinks then moveModuleLinks ms else ms,
        p.runProgram programs t) := by
  have hreading : ∀ (sources : DeclarationSources) (f : List DocModule → List DocModule)
      (s : FileTree), (TreeStep.reading (assembleModules readers format sources) >>= fun ms =>
        pure (f ms)).runOn s = (f <$> assembleModules readers format sources s, s) := by
    intro sources f s
    rw [bind_pure_comp, TreeStep.runOn_map, TreeStep.runOn_reading]
    rfl
  unfold packageModules Package.outcome Package.readModules Package.runProgram
    Package.declaredModules
  rcases p.generator with _ | g
  · rcases p.declarations with _ | sources
    · rfl
    · exact hreading sources (fun ms => if p.moveLinks then moveModuleLinks ms else ms) t
  · dsimp only
    rw [TreeStep.runOn_bind, g.runOn_modules?]
    rcases g.outcome (programs g.directory (g.program :: g.args) t).1 with e | ⟨⟩
    · rfl
    · rcases g.listingPath? with _ | path
      · rcases p.declarations with _ | sources
        · rfl
        · exact hreading sources (fun ms => if p.moveLinks then moveModuleLinks ms else ms) _
      · dsimp only [Option.mapM]
        rcases readListing readers path g.commandLine
          (programs g.directory (g.program :: g.args) t).2 with e | ms <;> rfl

/-! ## The writes of a package -/

theorem snd_runOn_referenceTable (p : Package) (t : FileTree) :
    ((referenceTable readers programs format p).runOn t).2 = p.runProgram programs t := by
  unfold referenceTable
  rw [TreeStep.snd_runOn_bind, runOn_packageModules]
  intro ms s
  split
  · rfl
  · rw [TreeStep.snd_runOn_bind _ fun _ _ => rfl, TreeStep.runOn_ofExcept]

theorem snd_runOn_planPackage (p : Package) (t : FileTree) :
    ((planPackage readers programs format p).runOn t).2 = p.runProgram programs t := by
  unfold planPackage
  rw [TreeStep.snd_runOn_bind, snd_runOn_referenceTable]
  intro table s
  rw [TreeStep.runOn_reading]

/-! ## The pages of a package -/

theorem referencePages_eq_ok {directory : String} {paths : List String} :
    referencePages directory t = .ok paths ↔ ∃ d, t.locate? directory = some d ∧
      t.isDirectory d = true ∧ ((t.fileNames d).filter isPageName).map (Path.join directory ·.val) =
        paths := by
  unfold referencePages
  rcases t.locate? directory with _ | d
  · simp
  · by_cases hd : t.isDirectory d <;> simp [hd]

theorem planPage_eq_ok {table : ReferenceTable} {path : String} {w : PlannedWrite}
    (h : planPage table path t = .ok w) :
    w.path = path ∧ ∃ text, t.readText? path = some text ∧ table.substitute text = .ok w.content ∧
      w.changed = decide (w.content ≠ text) := by
  unfold planPage at h
  split at h
  · cases h
  · next text htext =>
    rcases hs : table.substitute text with e | content
    · rw [hs] at h
      cases h
    · rw [hs] at h
      cases h
      exact ⟨rfl, text, htext, hs, rfl⟩

/-- The place of a page of a package: directly inside its directory, under the name of a page. -/
def Package.IsPage (p : Package) (base place : Place) : Prop :=
  ∃ name, isPageName name = true ∧ place = Place.ofPath base p.referenceDir ++ [name]

/-- A planned write puts the text of a page with its markers replaced in the stead of the page. -/
structure PlannedWrite.Replaces (w : PlannedWrite) (p : Package) (table : ReferenceTable)
    (t : FileTree) (name : FileName) : Prop where
  isPageName : isPageName name = true
  path : w.path = Path.join p.referenceDir name
  place : Place.ofPath t.directory w.path = Place.ofPath t.directory p.referenceDir ++ [name]
  content : ∃ text,
    t.file? (Place.ofPath t.directory p.referenceDir ++ [name]) = some (.text text) ∧
    table.substitute text = .ok w.content ∧ w.changed = decide (w.content ≠ text)

/-- Trees that agree about a page agree about what replaces it. -/
theorem PlannedWrite.Replaces.congr {w : PlannedWrite} {p : Package} {table : ReferenceTable}
    {name : FileName} (h : w.Replaces p table s name) (hdir : s.directory = t.directory)
    (hfile : s.file? (Place.ofPath t.directory p.referenceDir ++ [name]) =
      t.file? (Place.ofPath t.directory p.referenceDir ++ [name])) : w.Replaces p table t name := by
  obtain ⟨hname, hpath, hplace, text, htext, hcontent⟩ := h
  rw [hdir] at hplace htext
  exact ⟨hname, hpath, hplace, text, hfile ▸ htext, hcontent⟩

/-- The writes that are planned for a package replace its pages, and none is left out. -/
theorem runOn_planPackage_ok {p : Package} {ws : List PlannedWrite}
    (h : (planPackage readers programs format p).runOn t = (.ok ws, s)) :
    ∃ table, ((referenceTable readers programs format p).runOn t).1 = .ok table ∧
      (∀ name, isPageName name = true →
        (s.file? (Place.ofPath s.directory p.referenceDir ++ [name])).isSome →
          ∃ w ∈ ws, w.Replaces p table s name) ∧
      ∀ w ∈ ws, ∃ name, w.Replaces p table s name := by
  obtain ⟨table, r, htable, h⟩ := TreeStep.runOn_bind_eq_ok h
  rw [TreeStep.runOn_reading] at h
  obtain ⟨hws, rfl⟩ := Prod.mk.inj h
  rcases hpages : referencePages p.referenceDir r with e | paths
  · rw [hpages] at hws
    cases hws
  replace hws : paths.mapM (fun path => planPage table path r) = .ok ws := by rwa [hpages] at hws
  obtain ⟨d, hd, hdir, rfl⟩ := referencePages_eq_ok.1 hpages
  obtain ⟨hall, hback⟩ := exists_of_mapM_eq_ok hws
  have hd' := FileTree.locate?_eq_some hd
  -- The page of a name is planned from the text that its path leads to.
  have hreplaces : ∀ (name : FileName) w, isPageName name = true →
      planPage table (Path.join p.referenceDir name) r = .ok w → w.Replaces p table r name := by
    intro name w hpage hw
    have hlocate := name.locate?_join hd hdir
    obtain ⟨hpath, text, htext, hcontent⟩ := planPage_eq_ok hw
    refine ⟨hpage, hpath, ?_, text, ?_, hcontent⟩
    · rw [hpath, ← FileTree.locate?_eq_some hlocate, hd']
    rw [FileTree.readText?, FileTree.read?, hlocate, Option.bind_some] at htext
    obtain ⟨c, hc, hctext⟩ := Option.bind_eq_some_iff.1 htext
    cases c with
    | text x => cases hctext; rw [← hd', hc]
    | binary bytes => cases hctext
  refine ⟨table, by rw [htable], fun name hpage hfile => ?_, fun w hw => ?_⟩
  · rw [← hd'] at hfile
    have hmem := List.mem_filter.2 ⟨FileTree.mem_fileNames.2 hfile, hpage⟩
    obtain ⟨w, hw, hplan⟩ := hall (Path.join p.referenceDir name)
      (List.mem_map.2 ⟨name, hmem, rfl⟩)
    exact ⟨w, hw, hreplaces name w hpage hplan⟩
  · obtain ⟨path, hpath, hplan⟩ := hback w hw
    obtain ⟨name, hname, rfl⟩ := List.mem_map.1 hpath
    obtain ⟨-, hpage⟩ := List.mem_filter.1 hname
    exact ⟨name, hreplaces name w hpage hplan⟩

/-! ## Planning all packages -/

/-- A plan that fails has run the programs of the packages up to the one that failed. -/
theorem runOn_planPackages_error {ps : List Package}
    (h : (planPackages readers programs format ps).runOn t = (.error e, s)) :
    ∃ done, done <+: ps ∧ s = runPrograms programs done t := by
  induction ps generalizing t with
  | nil => cases h
  | cons p rest ih =>
    have hp : ((planPackage readers programs format p).runOn t).2 = _ := snd_runOn_planPackage p t
    rcases TreeStep.runOn_bind_eq_error h with h | ⟨ws, r, hws, h⟩
    · rw [h] at hp
      exact ⟨[p], by simp, hp⟩
    · rw [hws] at hp
      rcases TreeStep.runOn_bind_eq_error h with h | ⟨rest', r', -, h⟩
      · obtain ⟨done, hdone, hs⟩ := ih h
        exact ⟨p :: done, by simpa using hdone, by rw [hs, runPrograms_cons, ← hp]⟩
      · cases h

/-- The writes that are planned for one package out of several, once the programs of the packages
before it have run. -/
def PlannedFor (readers : Readers) (programs : Programs) (format : FormatOptions) (t : FileTree)
    (ps : List Package) (p : Package) (ws : List PlannedWrite) : Prop :=
  ∃ done rest, ps = done ++ p :: rest ∧
    (planPackage readers programs format p).runOn (runPrograms programs done t) =
      (.ok ws, runPrograms programs (done ++ [p]) t)

theorem PlannedFor.cons {ps : List Package} {p q : Package} {ws : List PlannedWrite}
    (h : PlannedFor readers programs format (p.runProgram programs t) ps q ws) :
    PlannedFor readers programs format t (p :: ps) q ws := by
  obtain ⟨done, rest, hps, hq⟩ := h
  exact ⟨p :: done, rest, by simp [hps], hq⟩

/-- A plan that is made has run the programs of all packages, and consists of the writes that are
planned for each. -/
theorem runOn_planPackages_ok {ps : List Package} {ws : List PlannedWrite}
    (h : (planPackages readers programs format ps).runOn t = (.ok ws, s)) :
    s = runPrograms programs ps t ∧
      (∀ p ∈ ps, ∃ own, PlannedFor readers programs format t ps p own ∧ ∀ w ∈ own, w ∈ ws) ∧
      ∀ w ∈ ws, ∃ p ∈ ps, ∃ own, PlannedFor readers programs format t ps p own ∧ w ∈ own := by
  induction ps generalizing t ws with
  | nil =>
    cases h
    simp
  | cons p rest ih =>
    have hp : ((planPackage readers programs format p).runOn t).2 = _ := snd_runOn_planPackage p t
    obtain ⟨own, r, hown, h⟩ := TreeStep.runOn_bind_eq_ok h
    obtain ⟨others, r', hothers, h⟩ := TreeStep.runOn_bind_eq_ok h
    cases h
    rw [hown] at hp
    obtain rfl : r = p.runProgram programs t := hp
    obtain ⟨hs, hall, hback⟩ := ih hothers
    have hfirst : PlannedFor readers programs format t (p :: rest) p own := ⟨[], rest, rfl, hown⟩
    refine ⟨hs, fun q hq => ?_, fun w hw => ?_⟩
    · rcases List.mem_cons.1 hq with rfl | hq
      · exact ⟨own, hfirst, fun w hw => List.mem_append_left _ hw⟩
      · obtain ⟨ws, hws, hmem⟩ := hall q hq
        exact ⟨ws, hws.cons, fun w hw => List.mem_append_right _ (hmem w hw)⟩
    · rcases List.mem_append.1 hw with hw | hw
      · exact ⟨p, by simp, own, hfirst, hw⟩
      · obtain ⟨q, hq, ws, hws, hmem⟩ := hback w hw
        exact ⟨q, by simp [hq], ws, hws.cons, hmem⟩

end ReferencePages
