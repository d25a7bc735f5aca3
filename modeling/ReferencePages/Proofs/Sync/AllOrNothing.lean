import Mathlib.Data.List.Basic
import ReferencePages.Proofs.Sync.Commit
import ReferencePages.Proofs.Sync.Planning
import ReferencePages.Readers.Standard

/-!
# A run is all or nothing

A run that fails has written nothing: the tree it leaves is the one that the outside programs it
has started leave. A run that succeeds, and is not only tried, has replaced the markers of every
page of the selected packages and has left every other file as the programs left it
(`sync_all_or_nothing`).

The selected packages have directories of their own for their pages, the programs leave the pages
alone (`Programs.SparePages`), and a page that can be read can be written (`PagesWritable`).
-/

namespace ReferencePages

variable {readers : Readers} {programs : Programs} {storage : Storage} {c : Config}
  {names : List String} {t s : FileTree}

/-- The packages that a run is for; none where a name is not known. -/
def Config.selected (c : Config) (names : List String) : List Package :=
  match c.select names with
  | .ok ps => ps
  | .error _ => []

/-- No two packages have their pages in one directory. -/
def SeparatePages (base : Place) (ps : List Package) : Prop :=
  ps.Pairwise fun p q => Place.ofPath base p.referenceDir ≠ Place.ofPath base q.referenceDir

/-- A page that can be read before the programs of some packages run can be written behind them:
there is a place for it, and the disk takes it in whole. -/
structure PagesWritable (programs : Programs) (storage : Storage) (ps : List Package)
    (t : FileTree) : Prop where
  place : ∀ p ∈ ps, ∀ name : FileName, isPageName name = true → ∀ text,
    t.file? (Place.ofPath t.directory p.referenceDir ++ [name]) = some (.text text) →
      ((runPrograms programs ps t).target? (Path.join p.referenceDir name)).isSome
  disk : ∀ n, storage n = .whole

/-- The programs of some packages stay in the working directory and leave the pages of the
packages alone. -/
structure Programs.SparePages (programs : Programs) (base : Place) (ps : List Package) : Prop where
  directory : ∀ p ∈ ps, ∀ t, (p.runProgram programs t).directory = t.directory
  file? : ∀ p ∈ ps, ∀ q ∈ ps, ∀ place, q.IsPage base place →
    ∀ t, (p.runProgram programs t).file? place = t.file? place

namespace Programs.SparePages

variable {base : Place} {ps qs : List Package} (h : programs.SparePages base ps)
include h

theorem directory_runPrograms (hqs : ∀ q ∈ qs, q ∈ ps) (t : FileTree) :
    (runPrograms programs qs t).directory = t.directory := by
  induction qs generalizing t with
  | nil => rfl
  | cons q qs ih =>
    rw [runPrograms_cons, ih fun q hq => hqs q (by simp [hq])]
    exact h.directory q (hqs q (by simp)) t

theorem file?_runPrograms (hqs : ∀ q ∈ qs, q ∈ ps) {p : Package} (hp : p ∈ ps) {place : Place}
    (hplace : p.IsPage base place) (t : FileTree) :
    (runPrograms programs qs t).file? place = t.file? place := by
  induction qs generalizing t with
  | nil => rfl
  | cons q qs ih =>
    rw [runPrograms_cons, ih fun q hq => hqs q (by simp [hq])]
    exact h.file? q (hqs q (by simp)) p hp place hplace t

end Programs.SparePages

/-! ## The parts of a run -/

/-- A plan that fails has run the programs of some packages. -/
theorem runOn_plan_error {e : DocError}
    (h : (plan readers programs c names).runOn t = (.error e, s)) :
    ∃ ps, ps <+: c.selected names ∧ s = runPrograms programs ps t := by
  unfold plan at h
  rcases TreeStep.runOn_bind_eq_error h with h | ⟨ps, r, hps, h⟩
  · rw [TreeStep.runOn_ofExcept] at h
    exact ⟨[], List.nil_prefix, (Prod.mk.inj h).2.symm⟩
  · rw [TreeStep.runOn_ofExcept] at hps
    obtain ⟨hselect, rfl⟩ := Prod.mk.inj hps
    rcases TreeStep.runOn_bind_eq_error h with h | ⟨ws, r, -, h⟩
    · rw [Config.selected, hselect]
      exact runOn_planPackages_error h
    · cases h

/-- A plan that is made holds the writes of the selected packages. -/
theorem runOn_plan_ok {p : Plan} (h : (plan readers programs c names).runOn t = (.ok p, s)) :
    (planPackages readers programs c.format (c.selected names)).runOn t = (.ok p.writes, s) := by
  unfold plan at h
  obtain ⟨ps, r, hps, h⟩ := TreeStep.runOn_bind_eq_ok h
  rw [TreeStep.runOn_ofExcept] at hps
  obtain ⟨hselect, rfl⟩ := Prod.mk.inj hps
  obtain ⟨ws, r, hws, h⟩ := TreeStep.runOn_bind_eq_ok h
  cases h
  rw [Config.selected, hselect]
  exact hws

/-! ## What is planned for the pages -/

/-- A planned write of a package, and the table of the package, which is made from the tree that
the programs of the packages before it leave. -/
def PlannedWrite.IsPlanned (readers : Readers) (programs : Programs) (format : FormatOptions)
    (ps : List Package) (t : FileTree) (p : Package) (name : FileName) (w : PlannedWrite) : Prop :=
  ∃ before after table, ps = before ++ p :: after ∧
    ((referenceTable readers programs format p).runOn (runPrograms programs before t)).1 =
      .ok table ∧
    w.Replaces p table t name

variable {format : FormatOptions} {ps : List Package} {ws : List PlannedWrite}

/-- The writes that are planned for a package replace its pages as they were before any program
ran. -/
theorem PlannedFor.replaces {p : Package} (hprograms : programs.SparePages t.directory ps)
    (h : PlannedFor readers programs format t ps p ws) :
    ∃ before after table, ps = before ++ p :: after ∧
      ((referenceTable readers programs format p).runOn (runPrograms programs before t)).1 =
        .ok table ∧
      (∀ name, isPageName name = true →
        (t.file? (Place.ofPath t.directory p.referenceDir ++ [name])).isSome →
          ∃ w ∈ ws, w.Replaces p table t name) ∧
      ∀ w ∈ ws, ∃ name, w.Replaces p table t name := by
  obtain ⟨before, after, rfl, hplan⟩ := h
  have hsub : ∀ q ∈ before ++ [p], q ∈ before ++ p :: after := by simp +contextual [or_imp]
  have hdir := hprograms.directory_runPrograms hsub t
  have hfile : ∀ name, isPageName name = true →
      (runPrograms programs (before ++ [p]) t).file?
          (Place.ofPath t.directory p.referenceDir ++ [name]) =
        t.file? (Place.ofPath t.directory p.referenceDir ++ [name]) := fun name hname =>
    hprograms.file?_runPrograms hsub (by simp) ⟨name, hname, rfl⟩ t
  obtain ⟨table, htable, hall, hback⟩ := runOn_planPackage_ok hplan
  rw [hdir] at hall
  refine ⟨before, after, table, rfl, htable, fun name hname hsome => ?_, fun w hw => ?_⟩
  · obtain ⟨w, hw, hreplaces⟩ := hall name hname (by rwa [hfile name hname])
    exact ⟨w, hw, hreplaces.congr hdir (hfile name hname)⟩
  · obtain ⟨name, hreplaces⟩ := hback w hw
    exact ⟨name, hreplaces.congr hdir (hfile name hreplaces.isPageName)⟩

/-- Where no two packages share a directory, the directory tells the package and those before
it. -/
theorem eq_of_referenceDir_eq {base : Place} {p q : Package}
    {before before' after after' : List Package}
    (hdirs : SeparatePages base (before ++ p :: after))
    (hps : before ++ p :: after = before' ++ q :: after')
    (hpq : Place.ofPath base p.referenceDir = Place.ofPath base q.referenceDir) :
    before = before' ∧ p = q := by
  obtain ⟨-, hafter, hbefore⟩ := List.pairwise_append.1 hdirs
  have hq₁ : q ∉ before := fun hq => hbefore q hq p (by simp) hpq.symm
  have hq₂ : q ∉ after := fun hq => (List.pairwise_cons.1 hafter).1 q hq hpq
  obtain ⟨h₁, h₂, -⟩ := (List.append_cons_inj_of_notMem hq₁ hq₂).1 hps
  exact ⟨h₁, h₂⟩

/-- Where no two packages share a directory, two planned writes of one page are the same. -/
theorem PlannedWrite.IsPlanned.content_eq {p q : Package} {name name' : FileName}
    {w w' : PlannedWrite}
    (hdirs : SeparatePages t.directory ps)
    (hw : w.IsPlanned readers programs format ps t p name)
    (hw' : w'.IsPlanned readers programs format ps t q name')
    (hplace : Place.ofPath t.directory w'.path = Place.ofPath t.directory w.path) :
    w'.content = w.content ∧ w'.changed = w.changed := by
  obtain ⟨before, after, table, rfl, htable, -, -, hplace₁, text, htext, hcontent, hchanged⟩ := hw
  obtain ⟨before', after', table', hps, htable', -, -, hplace₂, text', htext', hcontent',
    hchanged'⟩ := hw'
  rw [hplace₁, hplace₂] at hplace
  obtain ⟨hdir, hname⟩ := List.append_inj' hplace rfl
  obtain ⟨rfl, rfl⟩ := eq_of_referenceDir_eq hdirs hps hdir.symm
  rw [htable, Except.ok.injEq] at htable'
  rw [hdir, hname, htext, Option.some.injEq, Content.text.injEq] at htext'
  subst htable' htext'
  rw [hcontent, Except.ok.injEq] at hcontent'
  exact ⟨hcontent'.symm, by rw [hchanged, hchanged', hcontent']⟩

/-- A tree holds the pages of one of some packages as they were in another tree, with their
markers replaced by what the table of the package gives for them. -/
def Package.PagesReplaced (readers : Readers) (programs : Programs) (format : FormatOptions)
    (ps : List Package) (t s : FileTree) (p : Package) : Prop :=
  ∃ before after table, ps = before ++ p :: after ∧
    ((referenceTable readers programs format p).runOn (runPrograms programs before t)).1 =
      .ok table ∧
    ∀ place content, p.IsPage t.directory place → t.file? place = some content →
      ∃ text out, content = .text text ∧ table.substitute text = .ok out ∧
        s.file? place = some (.text out)

section

variable {u : FileTree} (hprograms : programs.SparePages t.directory ps)
  (hplan : (planPackages readers programs format ps).runOn t = (.ok ws, u))
include hprograms hplan

/-- Every write of a plan is planned for a page of a package. -/
theorem exists_isPlanned_of_mem {w : PlannedWrite} (hw : w ∈ ws) :
    ∃ p ∈ ps, ∃ name, w.IsPlanned readers programs format ps t p name := by
  obtain ⟨-, -, hback⟩ := runOn_planPackages_ok hplan
  obtain ⟨p, hp, own, hown, hmem⟩ := hback w hw
  obtain ⟨before, after, table, hps, htable, -, hreplaces⟩ := hown.replaces hprograms
  obtain ⟨name, hname⟩ := hreplaces w hmem
  exact ⟨p, hp, name, before, after, table, hps, htable, hname⟩

/-- A plan holds a write for every page of every package. -/
theorem exists_replaces_of_page {p : Package} (hp : p ∈ ps) :
    ∃ before after table, ps = before ++ p :: after ∧
      ((referenceTable readers programs format p).runOn (runPrograms programs before t)).1 =
        .ok table ∧
      ∀ name, isPageName name = true →
        (t.file? (Place.ofPath t.directory p.referenceDir ++ [name])).isSome →
          ∃ w ∈ ws, w.Replaces p table t name := by
  obtain ⟨-, hall, -⟩ := runOn_planPackages_ok hplan
  obtain ⟨own, hown, hmem⟩ := hall p hp
  obtain ⟨before, after, table, hps, htable, hreplaces, -⟩ := hown.replaces hprograms
  refine ⟨before, after, table, hps, htable, fun name hname hsome => ?_⟩
  obtain ⟨w, hw, hwname⟩ := hreplaces name hname hsome
  exact ⟨w, hmem w hw, hwname⟩

/-- There is a place for the pages that are planned for once the programs have run. -/
theorem fits_of_mem (hwrite : PagesWritable programs storage ps t) {w : PlannedWrite}
    (hw : w ∈ ws) : w.Fits (runPrograms programs ps t) := by
  obtain ⟨p, hp, name, -, -, table, -, -, hname, hpath, -, text, htext, -⟩ :=
    exists_isPlanned_of_mem hprograms hplan hw
  rw [PlannedWrite.Fits, hpath]
  exact hwrite.place p hp name hname text htext

/-- The writes of a plan are taken once the programs have run. -/
theorem taken_of_plan (hwrite : PagesWritable programs storage ps t) :
    Taken storage (ws.filter (·.changed)) (runPrograms programs ps t) where
  fits _ hw := fits_of_mem hprograms hplan hwrite (List.mem_filter.1 hw).1
  whole n _ := hwrite.disk n

/-- The path of a planned write leads to the place that it spells. -/
theorem locate?_of_mem (hwrite : PagesWritable programs storage ps t) {w : PlannedWrite}
    (hw : w ∈ ws) :
    (runPrograms programs ps t).locate? w.path = some (Place.ofPath t.directory w.path) := by
  rw [(fits_of_mem hprograms hplan hwrite hw).locate?_eq,
    hprograms.directory_runPrograms (fun q hq => hq) t]

/-- Committing a plan replaces the pages of all packages and changes no other file. -/
theorem runOn_commit_of_plan (hdirs : SeparatePages t.directory ps)
    (hwrite : PagesWritable programs storage ps t) :
    ∃ n s, (commit storage ws).runOn u = (.ok n, s) ∧
      (∀ p ∈ ps, p.PagesReplaced readers programs format ps t s) ∧
      ∀ place, (∀ p ∈ ps, p.IsPage t.directory place → t.file? place = none) →
        s.file? place = u.file? place := by
  obtain ⟨rfl, -, -⟩ := runOn_planPackages_ok hplan
  have hlocate : ∀ w ∈ ws, (runPrograms programs ps t).locate? w.path =
      some (Place.ofPath t.directory w.path) := fun w hw =>
    locate?_of_mem hprograms hplan hwrite hw
  obtain ⟨s, hs, hleft⟩ := runOn_commit_of_taken (taken_of_plan hprograms hplan hwrite)
  refine ⟨_, s, hs, ?_, ?_⟩
  · intro p hp
    obtain ⟨before, after, table, hps, htable, hreplaces⟩ :=
      exists_replaces_of_page hprograms hplan hp
    refine ⟨before, after, table, hps, htable, ?_⟩
    rintro place content ⟨name, hname, rfl⟩ hcontent
    obtain ⟨w, hw, hwname⟩ := hreplaces name hname (by simp [hcontent])
    have hplanned : w.IsPlanned readers programs format ps t p name :=
      ⟨before, after, table, hps, htable, hwname⟩
    obtain ⟨-, -, hplace, text, htext, hout, hchanged⟩ := hwname
    rw [hcontent, Option.some.injEq] at htext
    refine ⟨text, w.content, htext, hout, ?_⟩
    -- All writes to this place put the same text, and all or none of them are performed.
    have hsame : ∀ w' ∈ ws, (runPrograms programs ps t).locate? w'.path =
        some (Place.ofPath t.directory p.referenceDir ++ [name]) →
          w'.content = w.content ∧ w'.changed = w.changed := by
      intro w' hw' hlocated
      obtain ⟨q, hq, name', hplanned'⟩ := exists_isPlanned_of_mem hprograms hplan hw'
      rw [hlocate w' hw', Option.some.injEq, ← hplace] at hlocated
      exact hplanned.content_eq hdirs hplanned' hlocated
    rw [hleft.file?]
    cases hw' : w.changed with
    | true =>
      rw [lastText?_eq_some (List.mem_filter.2 ⟨hw, hw'⟩)
        ((hlocate w hw).trans (congrArg some hplace)) fun w' hw' hlocated =>
          (hsame w' (List.mem_filter.1 hw').1 hlocated).1]
      rfl
    | false =>
      rw [lastText?_eq_none, hprograms.file?_runPrograms (fun q hq => hq) hp ⟨name, hname, rfl⟩]
      · have heq : w.content = text := by simpa [hw'] using hchanged
        rw [hcontent, htext, heq]
        rfl
      · intro w' hmem' hlocated
        obtain ⟨hmem', hchanged'⟩ := List.mem_filter.1 hmem'
        rw [(hsame w' hmem' hlocated).2, hw'] at hchanged'
        cases hchanged'
  · intro place hplace
    rw [hleft.file?, lastText?_eq_none]
    · rfl
    · intro w hw hlocated
      have hw := (List.mem_filter.1 hw).1
      rw [hlocate w hw, Option.some.injEq] at hlocated
      obtain ⟨p, hp, name, -, -, table, -, -, hname, -, hwplace, text, htext, -⟩ :=
        exists_isPlanned_of_mem hprograms hplan hw
      have hpage : p.IsPage t.directory place := ⟨name, hname, hlocated ▸ hwplace⟩
      rw [← hwplace, hlocated, hplace p hp hpage] at htext
      cases htext

end

/-- What a run for a plan reports. -/
def Plan.report (p : Plan) (dryRun : Bool) : SyncReport where
  packages := p.packages
  pages := p.writes.length
  changed := (p.writes.filter (·.changed)).length
  dryRun := dryRun

/-- A run that is only tried ends with its plan. -/
theorem runOn_sync_true (storage : Storage) {p : Plan}
    (hplan : (plan readers programs c names).runOn t = (.ok p, s)) :
    (sync readers programs storage c names true).runOn t = (.ok (p.report true), s) :=
  TreeStep.runOn_bind_of_ok hplan

/-- A run that is not only tried writes what is planned. -/
theorem runOn_sync_of_plan {p : Plan} {n : Nat} {r : FileTree}
    (hplan : (plan readers programs c names).runOn t = (.ok p, s))
    (hcommit : (commit storage p.writes).runOn s = (.ok n, r)) :
    (sync readers programs storage c names false).runOn t = (.ok (p.report false), r) := by
  unfold sync
  rw [TreeStep.runOn_bind_of_ok hplan]
  have hdiscard : (discard (commit storage p.writes)).runOn s = (.ok (), r) := by
    show ((fun _ => ()) <$> commit storage p.writes).runOn s = (.ok (), r)
    rw [TreeStep.runOn_map, hcommit]
    rfl
  exact (TreeStep.runOn_bind_of_ok hdiscard).trans (TreeStep.runOn_pure _ _)

/-! ## The whole run -/

/-- The outcome of a run for some packages, and the tree it leaves, where the run was all or
nothing. -/
structure AllOrNothing (readers : Readers) (programs : Programs) (format : FormatOptions)
    (ps : List Package) (dryRun : Bool) (t : FileTree)
    (outcome : Except DocError SyncReport × FileTree) : Prop where
  /-- A run that failed leaves the tree that the programs it has started leave. -/
  failed : ∀ e s, outcome = (.error e, s) → ∃ done, done <+: ps ∧ s = runPrograms programs done t
  /-- So does a run that is only tried. -/
  tried : dryRun = true → ∀ report s, outcome = (.ok report, s) → s = runPrograms programs ps t
  /-- A run that succeeded has replaced the markers of every page of the packages. -/
  pages : dryRun = false → ∀ report s, outcome = (.ok report, s) →
    ∀ p ∈ ps, p.PagesReplaced readers programs format ps t s
  /-- It leaves every other file as the programs leave it. -/
  others : dryRun = false → ∀ report s, outcome = (.ok report, s) →
    ∀ place, (∀ p ∈ ps, p.IsPage t.directory place → t.file? place = none) →
      s.file? place = (runPrograms programs ps t).file? place

/-- Every run is all or nothing, whatever it fails of. -/
theorem sync_all_or_nothing (readers : Readers) (programs : Programs) (storage : Storage)
    (c : Config) (names : List String) (dryRun : Bool) (t : FileTree)
    (hdirs : SeparatePages t.directory (c.selected names))
    (hprograms : programs.SparePages t.directory (c.selected names))
    (hwrite : PagesWritable programs storage (c.selected names) t) :
    AllOrNothing readers programs c.format (c.selected names) dryRun t
      ((sync readers programs storage c names dryRun).runOn t) := by
  rcases hplan : (plan readers programs c names).runOn t with ⟨e | p, u⟩
  · have hsync : (sync readers programs storage c names dryRun).runOn t = (.error e, u) :=
      TreeStep.runOn_bind_of_error hplan
    rw [hsync]
    refine ⟨fun e' s h => ?_, by simp, by simp, by simp⟩
    obtain ⟨-, rfl⟩ := Prod.mk.inj h
    exact runOn_plan_error hplan
  · have hws := runOn_plan_ok hplan
    obtain ⟨rfl, -, -⟩ := runOn_planPackages_ok hws
    cases dryRun with
    | true =>
      rw [runOn_sync_true storage hplan]
      exact ⟨by simp, fun _ report' s h => (Prod.mk.inj h).2.symm, by simp, by simp⟩
    | false =>
      obtain ⟨n, s, hcommit, hpages, hothers⟩ :=
        runOn_commit_of_plan hprograms hws hdirs hwrite
      rw [runOn_sync_of_plan hplan hcommit]
      refine ⟨by simp, by simp, fun _ report' s' h => ?_, fun _ report' s' h => ?_⟩
      · obtain ⟨-, rfl⟩ := Prod.mk.inj h
        exact hpages
      · obtain ⟨-, rfl⟩ := Prod.mk.inj h
        exact hothers

/-! ## A run of two packages -/

/-- A tree with the pages of two packages and their listings. -/
def exampleTree : FileTree where
  directories := [Place.ofPath [] "kit", Place.ofPath [] "svelte"]
  files := Keyed.ofList [
    (Place.ofPath [] "kit/paths.md", .text "# Paths\n\n<!-- @include $app/paths -->"),
    (Place.ofPath [] "kit/notes", .text "<!-- @include missing -->"),
    (Place.ofPath [] "svelte/store.md", .text "<!-- @include svelte/store -->"),
    (Place.ofPath [] "kit.json",
      .text "\x7b\"modules\":[\x7b\"name\":\"$app/paths\"\x7d]\x7d"),
    (Place.ofPath [] "svelte.json",
      .text "\x7b\"modules\":[\x7b\"name\":\"svelte/store\"\x7d]\x7d")]

/-- A package whose program writes its listing. -/
def examplePackage (name : String) : Package where
  name := name
  referenceDir := name
  generator := some { program := "generate", directory := ".", listing := some (name ++ ".json") }

def exampleConfig : Config where
  packages := [examplePackage "kit", examplePackage "svelte"]

def logPlace : Place := [⟨"log", by decide⟩]

/-- Programs that keep a log. -/
def logPrograms : Programs := fun _ _ t => (.ended 0 "", t.put logPlace (.text "done"))

theorem sparePages_logPrograms {base : Place} {ps : List Package}
    (h : ∀ p ∈ ps, Place.ofPath base p.referenceDir ≠ []) : logPrograms.SparePages base ps where
  directory p _ t := by
    unfold Package.runProgram
    split <;> rfl
  file? p _ q hq place hplace t := by
    obtain ⟨name, -, rfl⟩ := hplace
    have hne : Place.ofPath base q.referenceDir ++ [name] ≠ logPlace := fun hlog =>
      h q hq (List.append_inj_left' (hlog.trans (List.nil_append _).symm) rfl)
    unfold Package.runProgram
    split
    · exact (FileTree.file?_put _ _ _ _).trans (if_neg hne)
    · rfl

/-- Whether pages can be written is told by the places of the files that there are. -/
theorem PagesWritable.of_keys {ps : List Package} (hdisk : ∀ n, storage n = .whole)
    (h : ∀ p ∈ ps, ∀ place ∈ t.files.keys, ∀ name ∈ place.getLast?,
      place.dropLast = Place.ofPath t.directory p.referenceDir → isPageName name = true →
        ((runPrograms programs ps t).target? (Path.join p.referenceDir name)).isSome) :
    PagesWritable programs storage ps t where
  place p hp name hname _ htext :=
    h p hp _ (Keyed.mem_keys_of_get? htext) name (by simp) (by simp) hname
  disk := hdisk

/-- The tree of the two packages meets what a run relies on, and a run is all or nothing. -/
theorem sync_exampleTree :
    SeparatePages exampleTree.directory (exampleConfig.selected []) ∧
    logPrograms.SparePages exampleTree.directory (exampleConfig.selected []) ∧
    PagesWritable logPrograms Storage.ample (exampleConfig.selected []) exampleTree ∧
    AllOrNothing Readers.standard logPrograms exampleConfig.format (exampleConfig.selected []) false
      exampleTree ((sync Readers.standard logPrograms Storage.ample exampleConfig [] false).runOn
        exampleTree) := by
  have hdirs : SeparatePages exampleTree.directory (exampleConfig.selected []) := by
    unfold SeparatePages
    decide
  have hprograms : logPrograms.SparePages exampleTree.directory (exampleConfig.selected []) :=
    sparePages_logPrograms (by decide)
  have hwrite : PagesWritable logPrograms Storage.ample (exampleConfig.selected []) exampleTree :=
    .of_keys (fun _ => rfl) (by decide +kernel)
  exact ⟨hdirs, hprograms, hwrite, sync_all_or_nothing Readers.standard logPrograms Storage.ample
    exampleConfig [] false exampleTree hdirs hprograms hwrite⟩

end ReferencePages
