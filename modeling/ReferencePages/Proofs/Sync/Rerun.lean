import ReferencePages.Proofs.Markers
import ReferencePages.Proofs.Sync.DryRun
import ReferencePages.Proofs.Sync.SameButPages

/-!
# Running again

A run behind a run that succeeded, and left no marker in the pages, finds nothing to change
(`sync_again`). The first run has written to pages only, and no page is an input; so each package
has the table that it had, its pages are the same files, and none of them has a marker.

The outside programs do again what they have done: behind the first round of all of them they end
as they did, leave each package the inputs that it had, and in the end every file as it was
(`Programs.Repeat`). On the way they may differ: two packages may share a listing.
-/

namespace ReferencePages

variable {readers : Readers} {programs : Programs} {storage : Storage} {format : FormatOptions}
  {c : Config} {names : List String} {t s u : FileTree} {ps : List Package} {ws : List PlannedWrite}

/-! ## Programs and pages -/

/-- The programs of some packages do not look at the pages of the packages. -/
structure Programs.IgnorePages (programs : Programs) (base : Place) (ps : List Package) :
    Prop where
  ending? : ∀ p ∈ ps, ∀ t s, SameButPages base ps t s →
    p.ending? programs s = p.ending? programs t
  tree : ∀ p ∈ ps, ∀ t s, SameButPages base ps t s →
    SameButPages base ps (p.runProgram programs t) (p.runProgram programs s)

/-- A second round of the programs of some packages, behind the first, is like the first. -/
structure Programs.Repeat (programs : Programs) (ps : List Package) (t : FileTree) : Prop where
  /-- Each program ends as it did. -/
  ending? : ∀ before p after, ps = before ++ p :: after →
    p.ending? programs (runPrograms programs (ps ++ before) t) =
      p.ending? programs (runPrograms programs before t)
  /-- Each package finds the inputs that it found. -/
  inputs : ∀ before p after, ps = before ++ p :: after →
    p.SameInputs (runPrograms programs (before ++ [p]) t)
      (runPrograms programs (ps ++ (before ++ [p])) t)
  /-- The directory of its pages is where it was. -/
  referenceDir : ∀ before p after, ps = before ++ p :: after →
    ∀ d, (runPrograms programs (before ++ [p]) t).locate? p.referenceDir = some d →
      (runPrograms programs (before ++ [p]) t).isDirectory d = true →
        (runPrograms programs (ps ++ (before ++ [p])) t).locate? p.referenceDir = some d ∧
          (runPrograms programs (ps ++ (before ++ [p])) t).isDirectory d = true
  /-- Every file is as the first round has left it. -/
  file? : ∀ place, (runPrograms programs (ps ++ ps) t).file? place =
    (runPrograms programs ps t).file? place

/-- No page of some packages is an input of their modules. -/
def PagesNotRead (programs : Programs) (ps : List Package) (t : FileTree) : Prop :=
  ∀ before p after, ps = before ++ p :: after →
    ∀ path ∈ p.inputPaths (runPrograms programs (before ++ [p]) t),
      ∀ q ∈ ps, ¬q.IsPage t.directory (Place.ofPath t.directory path)

/-- No page of some packages has a marker. -/
def NoMarkerLeft (base : Place) (ps : List Package) (s : FileTree) : Prop :=
  ∀ p ∈ ps, ∀ place text, p.IsPage base place → s.file? place = some (.text text) →
    hasMarkers text = false

theorem Programs.IgnorePages.runPrograms {base : Place} {qs : List Package}
    (h : programs.IgnorePages base ps) (hqs : ∀ q ∈ qs, q ∈ ps) (hts : SameButPages base ps t s) :
    SameButPages base ps (runPrograms programs qs t) (runPrograms programs qs s) := by
  induction qs generalizing t s with
  | nil => exact hts
  | cons q qs ih =>
    exact ih (fun q hq => hqs q (by simp [hq])) (h.tree q (hqs q (by simp)) t s hts)

/-! ## Pages without markers -/

theorem ReferenceTable.substitute_of_not_hasMarkers (table : ReferenceTable) {text : String}
    (h : hasMarkers text = false) : table.substitute text = .ok text := by
  have hchars : ∀ cs : List Char, table.substitutePieces (cs.map .char) = .ok cs := by
    intro cs
    induction cs with
    | nil => rfl
    | cons c cs ih =>
      rw [List.map_cons, substitutePieces, ih]
      rfl
  rw [substitute, pieces_of_not_hasMatch h, hchars]
  exact congrArg Except.ok String.ofList_toList

/-- A page without markers is planned as it is. -/
theorem planPage_of_not_hasMarkers (table : ReferenceTable) {path text : String}
    (hread : t.readText? path = some text) (h : hasMarkers text = false) :
    planPage table path t = .ok { path, content := text, changed := false } := by
  unfold planPage
  rw [hread]
  dsimp only
  rw [table.substitute_of_not_hasMarkers h]
  simp [bind, Except.bind]
  rfl

/-- Pages without markers are planned as they are, one write for each. -/
theorem mapM_planPage_of_not_hasMarkers (table : ReferenceTable) {paths : List String}
    (h : ∀ path ∈ paths, ∃ text, t.readText? path = some text ∧ hasMarkers text = false) :
    ∃ ws, paths.mapM (fun path => planPage table path t) = .ok ws ∧ ws.length = paths.length ∧
      ∀ w ∈ ws, w.changed = false := by
  have hplan : paths.mapM (fun path => planPage table path t) = .ok (paths.map fun path =>
      { path, content := (t.readText? path).getD "", changed := false }) := by
    refine (mapM_congr fun path hpath => ?_).trans (List.mapM_pure ..)
    obtain ⟨text, hread, hmarkers⟩ := h path hpath
    rw [planPage_of_not_hasMarkers table hread hmarkers, hread]
    rfl
  exact ⟨_, hplan, List.length_map .., by simp⟩

/-! ## What the first run leaves -/

/-- A tree that a run for some packages has left, with no marker in the pages. -/
structure LeftClean (programs : Programs) (ps : List Package) (t s : FileTree) : Prop where
  same : SameButPages t.directory ps (runPrograms programs ps t) s
  page : ∀ p ∈ ps, ∀ place, p.IsPage t.directory place → (t.file? place).isSome →
    ∃ text, s.file? place = some (.text text) ∧ hasMarkers text = false

/-- A run that succeeds has performed the writes that it has planned as changed. -/
theorem leftBy_of_sync {p : Plan} {report : SyncReport}
    (hplan : (plan readers programs c names).runOn t = (.ok p, u))
    (hrun : (sync readers programs storage c names false).runOn t = (.ok report, s)) :
    report = p.report false ∧ LeftBy (p.writes.filter (·.changed)) u s := by
  unfold sync at hrun
  rw [TreeStep.runOn_bind_of_ok hplan] at hrun
  obtain ⟨_, r, hcommit, hreturn⟩ := TreeStep.runOn_bind_eq_ok hrun
  obtain ⟨hreport, rfl⟩ := Prod.mk.inj hreturn
  refine ⟨(Except.ok.inj hreport).symm, ?_⟩
  have hmap : ((fun _ => ()) <$> commit storage p.writes).runOn u = (.ok (), r) := hcommit
  rw [← bind_pure_comp] at hmap
  obtain ⟨n, r', hwritten, hreturn⟩ := TreeStep.runOn_bind_eq_ok hmap
  obtain ⟨-, rfl⟩ := Prod.mk.inj hreturn
  exact runOn_commit_eq_ok hwritten

/-- Whatever is written is written to a page that is there. -/
theorem exists_isPage_of_written {place : Place} {text : String}
    (hspare : programs.SparePages t.directory ps)
    (hws : (planPackages readers programs format ps).runOn t = (.ok ws, s))
    (hlast : lastText? (runPrograms programs ps t) place (ws.filter (·.changed)) = some text) :
    ∃ q ∈ ps, q.IsPage t.directory place ∧ (t.file? place).isSome := by
  obtain ⟨w, hw, hplace, -⟩ := exists_of_lastText?_eq_some hlast
  obtain ⟨q, hq, name, -, -, table, -, -, hname, -, hpage, text', htext, -⟩ :=
    exists_isPlanned_of_mem hspare hws (List.mem_filter.1 hw).1
  have hlocated := FileTree.locate?_eq_some hplace
  rw [hspare.directory_runPrograms (fun _ h => h) t] at hlocated
  rw [hlocated]
  exact ⟨q, hq, ⟨name, hname, hpage⟩, by rw [hpage, htext]; rfl⟩

/-- What a run that succeeds leaves: the files as they were but for the pages, and pages without
markers. -/
theorem leftClean_of_sync {report : SyncReport}
    (hspare : programs.SparePages t.directory (c.selected names))
    (hrun : (sync readers programs storage c names false).runOn t = (.ok report, s))
    (hclean : NoMarkerLeft t.directory (c.selected names) s) :
    LeftClean programs (c.selected names) t s := by
  rcases hplan : (plan readers programs c names).runOn t with ⟨e | p, u⟩
  · rw [sync, TreeStep.runOn_bind_of_error hplan] at hrun
    cases hrun
  have hws := runOn_plan_ok hplan
  obtain ⟨rfl, -, -⟩ := runOn_planPackages_ok hws
  obtain ⟨-, hleft⟩ := leftBy_of_sync hplan hrun
  have hpages : ∀ q ∈ c.selected names, ∀ place, q.IsPage t.directory place →
      (runPrograms programs (c.selected names) t).file? place = t.file? place :=
    fun q hq place hplace => hspare.file?_runPrograms (fun _ h => h) hq hplace t
  refine ⟨⟨hleft.directory, hleft.isDirectory_eq, fun place => ?_, fun place hplace => ?_⟩, ?_⟩
  · rw [hleft.file?]
    rcases hlast : lastText? (runPrograms programs (c.selected names) t) place
        (p.writes.filter (·.changed)) with _ | text
    · rfl
    · obtain ⟨q, hq, hpage, hsome⟩ := exists_isPage_of_written hspare hws hlast
      rw [hpages q hq place hpage, hsome]
      rfl
  · rw [hleft.file?]
    rcases hlast : lastText? (runPrograms programs (c.selected names) t) place
        (p.writes.filter (·.changed)) with _ | text
    · rfl
    · obtain ⟨q, hq, hpage, -⟩ := exists_isPage_of_written hspare hws hlast
      exact absurd hpage (hplace q hq)
  · rintro q hq place ⟨name, hname, rfl⟩ hsome
    obtain ⟨before, after, table, -, -, hreplaces⟩ := exists_replaces_of_page hspare hws hq
    obtain ⟨w, -, -, -, -, text, htext, -⟩ := hreplaces name hname hsome
    have htexts : ∃ text, s.file? (Place.ofPath t.directory q.referenceDir ++ [name]) =
        some (.text text) := by
      rw [hleft.file?, hpages q hq _ ⟨name, hname, rfl⟩, htext]
      rcases lastText? (runPrograms programs (c.selected names) t)
        (Place.ofPath t.directory q.referenceDir ++ [name]) (p.writes.filter (·.changed)) with
        _ | last
      · exact ⟨text, rfl⟩
      · exact ⟨last, rfl⟩
    obtain ⟨left, htext⟩ := htexts
    exact ⟨left, htext, hclean q hq _ left ⟨name, hname, rfl⟩ htext⟩

/-! ## The second run -/

section

variable (hspare : programs.SparePages t.directory ps)
  (hignore : programs.IgnorePages t.directory ps) (hrepeat : programs.Repeat ps t)
  (hleft : LeftClean programs ps t s)
include hspare hignore hrepeat hleft

/-- The programs leave every file as the first run has left it. -/
theorem file?_runPrograms_again (place : Place) :
    (runPrograms programs ps s).file? place = s.file? place := by
  by_cases hplace : ∃ p ∈ ps, p.IsPage t.directory place
  · obtain ⟨p, hp, hpage⟩ := hplace
    exact hspare.file?_runPrograms (fun _ h => h) hp hpage s
  · have hplace : ∀ p ∈ ps, ¬p.IsPage t.directory place := by simpa using hplace
    rw [(hignore.runPrograms (fun _ h => h) hleft.same).file? place hplace, ← runPrograms_append,
      hrepeat.file? place, hleft.same.file? place hplace]

omit hspare hrepeat in
/-- The second round is the one behind the first, up to the pages. -/
theorem sameButPages_again {done : List Package} (hdone : ∀ q ∈ done, q ∈ ps) :
    SameButPages t.directory ps
      (runPrograms programs (ps ++ done) t) (runPrograms programs done s) := by
  rw [runPrograms_append]
  exact hignore.runPrograms hdone hleft.same

variable (hread : PagesNotRead programs ps t)
variable {p : Package} {before after : List Package} (hps : ps = before ++ p :: after)
include hps

include hread in
/-- A package has the table that it had. -/
theorem runOn_referenceTable_again {table : ReferenceTable}
    (htable : ((referenceTable readers programs format p).runOn (runPrograms programs before t)).1 =
      .ok table) :
    (referenceTable readers programs format p).runOn (runPrograms programs before s) =
      (.ok table, runPrograms programs (before ++ [p]) s) := by
  have hbefore : ∀ q ∈ before, q ∈ ps := by simp +contextual [hps]
  have hdone : ∀ q ∈ before ++ [p], q ∈ ps := by simp +contextual [hps, or_imp]
  have hending : p.ending? programs (runPrograms programs before s) =
      p.ending? programs (runPrograms programs before t) := by
    have hsame := sameButPages_again hignore hleft hbefore
    rw [hignore.ending? p (by simp [hps]) _ _ hsame, hrepeat.ending? before p after hps]
  have hinputs : p.SameInputs (runPrograms programs (before ++ [p]) t)
      (runPrograms programs (before ++ [p]) s) := by
    have hsame := sameButPages_again hignore hleft hdone
    have hrepeated := hrepeat.inputs before p after hps
    have hdir := hspare.directory_runPrograms
      (by simpa [or_imp, forall_and] using hdone : ∀ q ∈ ps ++ (before ++ [p]), q ∈ ps) t
    refine hrepeated.trans (hsame.sameInputs fun path hpath => ?_)
    rw [hdir]
    exact hread before p after hps path (by rwa [← hrepeated.inputPaths_eq])
  refine Prod.ext ?_ ?_
  · rw [← htable]
    exact fst_runOn_referenceTable_congr hending (by simpa using hinputs)
  · rw [snd_runOn_referenceTable, runPrograms_append, runPrograms_cons, runPrograms_nil]

/-- A package has the pages that it had, and no marker in them. -/
theorem referencePages_again {paths : List String}
    (hpages : referencePages p.referenceDir (runPrograms programs (before ++ [p]) t) = .ok paths) :
    referencePages p.referenceDir (runPrograms programs (before ++ [p]) s) = .ok paths ∧
      ∀ path ∈ paths, ∃ text, (runPrograms programs (before ++ [p]) s).readText? path = some text ∧
        hasMarkers text = false := by
  have hdone : ∀ q ∈ before ++ [p], q ∈ ps := by simp +contextual [hps, or_imp]
  have hp : p ∈ ps := by simp [hps]
  have hsame := sameButPages_again hignore hleft hdone
  obtain ⟨d, hd, hisdir, rfl⟩ := referencePages_eq_ok.1 hpages
  obtain ⟨hd₂, hisdir₂⟩ := hrepeat.referenceDir before p after hps d hd hisdir
  rw [← hsame.locate?_eq] at hd₂
  rw [← hsame.isDirectory] at hisdir₂
  have hplace := FileTree.locate?_eq_some hd
  rw [hspare.directory_runPrograms hdone t] at hplace
  have hpage : ∀ name, isPageName name = true → p.IsPage t.directory (d ++ [name]) :=
    fun name hname => ⟨name, hname, by rw [hplace]⟩
  have hfile₁ : ∀ name, isPageName name = true →
      (runPrograms programs (before ++ [p]) t).file? (d ++ [name]) = t.file? (d ++ [name]) :=
    fun name hname => hspare.file?_runPrograms hdone hp (hpage name hname) t
  have hfile₂ : ∀ name, isPageName name = true →
      (runPrograms programs (before ++ [p]) s).file? (d ++ [name]) = s.file? (d ++ [name]) :=
    fun name hname => hspare.file?_runPrograms hdone hp (hpage name hname) s
  constructor
  · refine referencePages_eq_ok.2 ⟨d, hd₂, hisdir₂, ?_⟩
    rw [FileTree.filter_fileNames_eq fun name hname => ?_]
    rw [hfile₁ name hname, hfile₂ name hname, hleft.same.isSome_file?,
      hspare.file?_runPrograms (fun _ h => h) hp (hpage name hname)]
  · intro path hpath
    obtain ⟨name, hname, rfl⟩ := List.mem_map.1 hpath
    obtain ⟨hmem, hname⟩ := List.mem_filter.1 hname
    rw [FileTree.mem_fileNames, hfile₁ name hname] at hmem
    obtain ⟨text, htext, hmarkers⟩ := hleft.page p hp _ (hpage name hname) hmem
    refine ⟨text, ?_, hmarkers⟩
    rw [FileTree.readText?, FileTree.read?, name.locate?_join hd₂ hisdir₂,
      Option.bind_some, hfile₂ name hname, htext]
    rfl

include hread in
/-- A package for which a plan was made has a plan again, with as many pages and no change. -/
theorem runOn_planPackage_again
    (hplan : (planPackage readers programs format p).runOn (runPrograms programs before t) =
      (.ok ws, runPrograms programs (before ++ [p]) t)) :
    ∃ ws', (planPackage readers programs format p).runOn (runPrograms programs before s) =
        (.ok ws', runPrograms programs (before ++ [p]) s) ∧
      ws'.length = ws.length ∧ ∀ w ∈ ws', w.changed = false := by
  obtain ⟨table, r, htable, hws⟩ := TreeStep.runOn_bind_eq_ok hplan
  rw [TreeStep.runOn_reading] at hws
  obtain ⟨hws, rfl⟩ := Prod.mk.inj hws
  rcases hpages : referencePages p.referenceDir (runPrograms programs (before ++ [p]) t) with
    e | paths
  · rw [hpages] at hws
    cases hws
  rw [hpages] at hws
  have hrun := runOn_referenceTable_again hspare hignore hrepeat hleft hread hps
    (congrArg Prod.fst htable)
  obtain ⟨hpages₂, hclean⟩ := referencePages_again hspare hignore hrepeat hleft hps hpages
  obtain ⟨ws', hws', hlen, hunchanged⟩ := mapM_planPage_of_not_hasMarkers table hclean
  refine ⟨ws', ?_, by rw [hlen, (forall₂_of_mapM_eq_ok hws).length_eq], hunchanged⟩
  unfold planPackage
  rw [TreeStep.runOn_bind_of_ok hrun, TreeStep.runOn_reading, hpages₂]
  exact congrArg (·, _) hws'

end

/-- What has been planned is planned again, with as many pages and no change. -/
theorem runOn_planPackages_again (before : List Package) {rest : List Package}
    (hspare : programs.SparePages t.directory ps)
    (hignore : programs.IgnorePages t.directory ps) (hrepeat : programs.Repeat ps t)
    (hread : PagesNotRead programs ps t) (hleft : LeftClean programs ps t s)
    (hps : ps = before ++ rest)
    (hplan : (planPackages readers programs format rest).runOn (runPrograms programs before t) =
      (.ok ws, runPrograms programs ps t)) :
    ∃ ws', (planPackages readers programs format rest).runOn (runPrograms programs before s) =
        (.ok ws', runPrograms programs ps s) ∧
      ws'.length = ws.length ∧ ∀ w ∈ ws', w.changed = false := by
  induction rest generalizing before ws with
  | nil =>
    obtain rfl : ps = before := by simpa using hps
    cases hplan
    exact ⟨[], rfl, rfl, by simp⟩
  | cons p rest ih =>
    have hstep : ((planPackage readers programs format p).runOn (runPrograms programs before t)).2 =
        p.runProgram programs (runPrograms programs before t) := snd_runOn_planPackage p _
    obtain ⟨own, r, hown, hplan⟩ := TreeStep.runOn_bind_eq_ok hplan
    rw [hown] at hstep
    obtain rfl : r = runPrograms programs (before ++ [p]) t := by simpa using hstep
    obtain ⟨others, r', hothers, hreturn⟩ := TreeStep.runOn_bind_eq_ok hplan
    obtain ⟨hws, rfl⟩ := Prod.mk.inj hreturn
    obtain rfl := Except.ok.inj hws
    obtain ⟨own', hown', hlen, hsame⟩ :=
      runOn_planPackage_again hspare hignore hrepeat hleft hread hps hown
    obtain ⟨others', hothers', hlens, hsames⟩ := ih (before ++ [p]) (by simp [hps]) hothers
    refine ⟨own' ++ others', ?_, by simp [hlen, hlens], ?_⟩
    · unfold planPackages
      rw [TreeStep.runOn_bind_of_ok hown', TreeStep.runOn_bind_of_ok hothers']
      rfl
    · intro w hw
      exact (List.mem_append.1 hw).elim (hsame w) (hsames w)

/-- A plan can be made again where the writes for its packages can be planned again. -/
theorem runOn_plan_again {p : Plan} {r : FileTree}
    (hplan : (plan readers programs c names).runOn t = (.ok p, u))
    (hws : (planPackages readers programs c.format (c.selected names)).runOn s = (.ok ws, r)) :
    (plan readers programs c names).runOn s = (.ok { p with writes := ws }, r) := by
  unfold plan at hplan ⊢
  obtain ⟨ps, t', hps, hplan⟩ := TreeStep.runOn_bind_eq_ok hplan
  rw [TreeStep.runOn_ofExcept] at hps
  obtain ⟨hselect, rfl⟩ := Prod.mk.inj hps
  obtain ⟨_, u', -, hreturn⟩ := TreeStep.runOn_bind_eq_ok hplan
  cases hreturn
  rw [Config.selected, hselect] at hws
  rw [TreeStep.runOn_bind_of_ok (by rw [TreeStep.runOn_ofExcept, hselect]),
    TreeStep.runOn_bind_of_ok hws]
  rfl

/-- A run behind a run that has left no marker in the pages succeeds, looks at as many pages and
changes none, and leaves every file as it was. -/
theorem sync_again (readers : Readers) (programs : Programs) (storage storage' : Storage)
    (c : Config) (names : List String) (t s : FileTree) (report : SyncReport)
    (hspare : programs.SparePages t.directory (c.selected names))
    (hignore : programs.IgnorePages t.directory (c.selected names))
    (hrepeat : programs.Repeat (c.selected names) t)
    (hread : PagesNotRead programs (c.selected names) t)
    (hrun : (sync readers programs storage c names false).runOn t = (.ok report, s))
    (hclean : NoMarkerLeft t.directory (c.selected names) s) :
    ∃ r, (sync readers programs storage' c names false).runOn s =
        (.ok { report with changed := 0 }, r) ∧
      ∀ place, r.file? place = s.file? place := by
  have hleft := leftClean_of_sync hspare hrun hclean
  rcases hplan : (plan readers programs c names).runOn t with ⟨e | p, u⟩
  · rw [sync, TreeStep.runOn_bind_of_error hplan] at hrun
    cases hrun
  obtain ⟨rfl, -⟩ := leftBy_of_sync hplan hrun
  have hws := runOn_plan_ok hplan
  obtain ⟨rfl, -, -⟩ := runOn_planPackages_ok hws
  obtain ⟨ws', hws', hlen, hunchanged⟩ :=
    runOn_planPackages_again [] hspare hignore hrepeat hread hleft rfl hws
  have hagain := runOn_plan_again (s := s) hplan hws'
  have hnone : ws'.filter (·.changed) = [] := by simpa using hunchanged
  have hwritable : Plan.Writable { p with writes := ws' } storage'
      (runPrograms programs (c.selected names) s) := by
    rw [Plan.Writable, hnone]
    exact taken_nil
  obtain ⟨r, hr, hwritten⟩ := runOn_sync_false hagain hwritable
  refine ⟨r, ?_, fun place => ?_⟩
  · rw [hr]
    simp [Plan.report, hlen, hnone]
  · rw [hwritten.file?]
    dsimp only
    rw [hnone]
    exact file?_runPrograms_again hspare hignore hrepeat hleft place

/-! ## A package that is named twice, again -/

/-- Programs that keep a log leave the same tree, however often they run. -/
theorem runPrograms_logPrograms (hps : ∀ p ∈ ps, p.generator.isSome) (hne : ps ≠ [])
    (t : FileTree) : runPrograms logPrograms ps t = t.put logPlace (.text "done") := by
  induction ps generalizing t with
  | nil => exact absurd rfl hne
  | cons p ps ih =>
    have hp : p.runProgram logPrograms t = t.put logPlace (.text "done") := by
      obtain ⟨g, hg⟩ := Option.isSome_iff_exists.1 (hps p (by simp))
      simp [Package.runProgram, hg, logPrograms]
    rw [runPrograms_cons, hp]
    rcases ps with _ | ⟨q, ps⟩
    · rfl
    · rw [ih (fun r hr => hps r (by simp [hr])) (by simp)]
      rw [FileTree.put_put]

theorem ending?_logPrograms (p : Package) (t s : FileTree) :
    p.ending? logPrograms s = p.ending? logPrograms t :=
  rfl

theorem ignorePages_logPrograms (base : Place) (ps : List Package) :
    logPrograms.IgnorePages base ps where
  ending? p _ t s _ := ending?_logPrograms p t s
  tree p _ t s h := by
    unfold Package.runProgram
    split
    · exact h.put logPlace (.text "done")
    · exact h

theorem repeat_logPrograms (hps : ∀ p ∈ ps, p.generator.isSome) (t : FileTree) :
    logPrograms.Repeat ps t := by
  have hround : ∀ before p after, ps = before ++ p :: after →
      runPrograms logPrograms (ps ++ (before ++ [p])) t =
        runPrograms logPrograms (before ++ [p]) t := by
    intro before p after hsplit
    rw [runPrograms_logPrograms (by simp_all [or_imp]) (by simp),
      runPrograms_logPrograms (by simp_all [or_imp]) (by simp)]
  refine ⟨fun before p after _ => ending?_logPrograms p _ _, fun before p after hsplit => ?_,
    fun before p after hsplit d hd hdir => ?_, fun place => ?_⟩
  · rw [hround before p after hsplit]
    exact ⟨fun _ _ _ _ => rfl, fun _ _ => ⟨rfl, rfl⟩⟩
  · rw [hround before p after hsplit]
    exact ⟨hd, hdir⟩
  · rcases ps with _ | ⟨p, ps⟩
    · rfl
    · have hboth : ∀ q ∈ (p :: ps) ++ (p :: ps), q.generator.isSome := fun q hq =>
        (List.mem_append.1 hq).elim (hps q) (hps q)
      rw [runPrograms_logPrograms hboth (by simp), runPrograms_logPrograms hps (by simp)]

theorem length_kitDirectory :
    (Place.ofPath kitTree.directory (examplePackage "kit").referenceDir).length = 1 := by
  decide

theorem pagesNotRead_kitTree :
    PagesNotRead logPrograms (kitConfig.selected ["kit", "kit"]) kitTree := by
  intro before p after hsplit path hpath q hq
  have hkit : ∀ r ∈ kitConfig.selected ["kit", "kit"], r = examplePackage "kit" := by
    simp [selected_kitConfig]
  obtain rfl := hkit p (by simp [hsplit])
  obtain rfl := hkit q hq
  obtain rfl : path = "./kit.json" := by
    have hpaths : (examplePackage "kit").inputPaths
        (runPrograms logPrograms (before ++ [examplePackage "kit"]) kitTree) = ["./kit.json"] := rfl
    rw [hpaths] at hpath
    simpa using hpath
  -- The listing is at the root, the pages are one directory below.
  rintro ⟨name, -, hplace⟩
  have hlength := congrArg List.length hplace
  rw [List.length_append, length_kitDirectory, List.length_singleton] at hlength
  have hlisting : (Place.ofPath kitTree.directory "./kit.json").length = 1 := by decide
  omega

/-- The second run for the package, named twice, finds its page unchanged, twice; what the disk does
in that run does not matter. -/
theorem sync_again_kitTree : ∃ s r,
    (sync Readers.standard logPrograms Storage.ample kitConfig ["kit", "kit"] false).runOn kitTree =
      (.ok { packages := ["kit", "kit"], pages := 2, changed := 2, dryRun := false }, s) ∧
    (sync Readers.standard logPrograms (fun _ => .refused) kitConfig ["kit", "kit"] false).runOn s =
      (.ok { packages := ["kit", "kit"], pages := 2, changed := 0, dryRun := false }, r) ∧
    ∀ place, r.file? place = s.file? place := by
  rcases hrun : (sync Readers.standard logPrograms Storage.ample kitConfig ["kit", "kit"]
    false).runOn kitTree with ⟨outcome, s⟩
  have houtcome : ((sync Readers.standard logPrograms Storage.ample kitConfig ["kit", "kit"]
      false).runOn kitTree).1.toOption =
        some { packages := ["kit", "kit"], pages := 2, changed := 2, dryRun := false } := by
    decide +kernel
  have hpages : (((sync Readers.standard logPrograms Storage.ample kitConfig ["kit", "kit"]
      false).runOn kitTree).2.files.entries.all fun file =>
        file.1.length ≠ 2 || file.2.text?.all fun text => !hasMarkers text) = true := by
    decide +kernel
  rw [hrun] at houtcome hpages
  rcases outcome with e | report
  · cases houtcome
  obtain rfl := Option.some.inj houtcome
  have hclean : NoMarkerLeft kitTree.directory (kitConfig.selected ["kit", "kit"]) s := by
    rintro p hp place text ⟨name, -, rfl⟩ htext
    obtain rfl : p = examplePackage "kit" := by simpa [selected_kitConfig] using hp
    have hlength : (Place.ofPath kitTree.directory (examplePackage "kit").referenceDir ++
        [name]).length = 2 := by
      rw [List.length_append, length_kitDirectory, List.length_singleton]
    have hpage := List.all_eq_true.1 hpages _ (Keyed.get?_eq_some_iff.1 htext)
    simpa [hlength, Content.text?] using hpage
  obtain ⟨r, hr, hfiles⟩ := sync_again Readers.standard logPrograms Storage.ample
    (fun _ => .refused) kitConfig ["kit", "kit"] kitTree s _ sparePages_kitTree
    (ignorePages_logPrograms _ _) (repeat_logPrograms (by decide) _) pagesNotRead_kitTree hrun
    hclean
  exact ⟨s, r, rfl, hr, hfiles⟩

end ReferencePages
