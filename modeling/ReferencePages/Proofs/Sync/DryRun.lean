import ReferencePages.Proofs.Sync.AllOrNothing

/-!
# What a tried run foretells

Both kinds of run make one plan, and only the writes come after it. So a run that is only tried
fails as the real run does, reports what the real run reports, and writes nothing; and the pages
that are planned as changed are the files in which the trees of the two runs differ
(`dry_run_predicts`). That holds for pages that several packages share, too: whichever write to a
page comes last, it is the write of a text that the page did not have.

The pages that are planned for can be written. Only where the pages matter are the outside
programs to leave them alone.
-/

namespace ReferencePages

variable {readers : Readers} {programs : Programs} {storage : Storage} {c : Config}
  {names : List String} {t s : FileTree}

/-- The writes of a plan that change their pages are taken. -/
def Plan.Writable (p : Plan) (storage : Storage) (s : FileTree) : Prop :=
  Taken storage (p.writes.filter (·.changed)) s

/-- What is planned as changed can be written once the programs have run. -/
def PlanWritable (readers : Readers) (programs : Programs) (storage : Storage) (c : Config)
    (names : List String) (t : FileTree) : Prop :=
  ∀ p s, (plan readers programs c names).runOn t = (.ok p, s) → p.Writable storage s

/-- Pages that can be written make plans that can be written. -/
theorem PagesWritable.planWritable
    (hprograms : programs.SparePages t.directory (c.selected names))
    (hwrite : PagesWritable programs storage (c.selected names) t) :
    PlanWritable readers programs storage c names t := by
  intro p s hplan
  have hws := runOn_plan_ok hplan
  obtain ⟨rfl, -, -⟩ := runOn_planPackages_ok hws
  exact taken_of_plan hprograms hws hwrite

/-- Writing what changed out of a plan leaves each file as the last write to its place puts it. -/
theorem runOn_sync_false {p : Plan}
    (hplan : (plan readers programs c names).runOn t = (.ok p, s)) (hwrite : p.Writable storage s) :
    ∃ r, (sync readers programs storage c names false).runOn t = (.ok (p.report false), r) ∧
      LeftBy (p.writes.filter (·.changed)) s r := by
  obtain ⟨r, hcommit, hleft⟩ := runOn_commit_of_taken hwrite
  exact ⟨r, runOn_sync_of_plan hplan hcommit, hleft⟩

/-- A planned write that changes its page has another text than the file at its place, once the
programs have run. -/
theorem file?_ne_of_changed {p : Plan} {w : PlannedWrite}
    (hprograms : programs.SparePages t.directory (c.selected names))
    (hplan : (plan readers programs c names).runOn t = (.ok p, s)) (hw : w ∈ p.writes)
    (hchanged : w.changed = true) :
    s.file? (Place.ofPath t.directory w.path) ≠ some (.text w.content) := by
  have hws := runOn_plan_ok hplan
  obtain ⟨rfl, -, -⟩ := runOn_planPackages_ok hws
  obtain ⟨q, hq, name, -, -, table, -, -, hname, -, hplace, text, htext, -, hdiff⟩ :=
    exists_isPlanned_of_mem hprograms hws hw
  have hpage : q.IsPage t.directory (Place.ofPath t.directory w.path) := ⟨name, hname, hplace⟩
  rw [hprograms.file?_runPrograms (fun _ h => h) hq hpage, hplace, htext]
  have hne : w.content ≠ text := by simpa [hchanged] using hdiff
  simpa using hne.symm

/-- The real run alters the files at the places of the changed writes, and no others. -/
theorem file?_ne_iff_exists_changed {p : Plan} {r : FileTree}
    (hprograms : programs.SparePages t.directory (c.selected names))
    (hplan : (plan readers programs c names).runOn t = (.ok p, s))
    (hwrite : p.Writable storage s) (hleft : LeftBy (p.writes.filter (·.changed)) s r)
    (place : Place) :
    r.file? place ≠ s.file? place ↔
      ∃ w ∈ p.writes, w.changed = true ∧ Place.ofPath t.directory w.path = place := by
  have hdir : s.directory = t.directory := by
    obtain ⟨rfl, -, -⟩ := runOn_planPackages_ok (runOn_plan_ok hplan)
    exact hprograms.directory_runPrograms (fun _ h => h) t
  have hlocate : ∀ w ∈ p.writes, w.changed = true →
      s.locate? w.path = some (Place.ofPath t.directory w.path) := by
    intro w hw hchanged
    rw [(hwrite.fits w (List.mem_filter.2 ⟨hw, hchanged⟩)).locate?_eq, hdir]
  constructor
  · intro hne
    cases htext : lastText? s place (p.writes.filter (·.changed)) with
    | none => simp [hleft.file?, htext] at hne
    | some text =>
      obtain ⟨w, hw, hplace, -⟩ := exists_of_lastText?_eq_some htext
      obtain ⟨hw, hchanged⟩ := List.mem_filter.1 hw
      rw [hlocate w hw hchanged, Option.some.injEq] at hplace
      exact ⟨w, hw, hchanged, hplace⟩
  · rintro ⟨w, hw, hchanged, rfl⟩
    obtain ⟨text, htext⟩ := Option.isSome_iff_exists.1
      (isSome_lastText? (List.mem_filter.2 ⟨hw, hchanged⟩) (hlocate w hw hchanged))
    -- The write that comes last need not be this one, but it changes the same page.
    obtain ⟨last, hlast, hplace, rfl⟩ := exists_of_lastText?_eq_some htext
    obtain ⟨hlast, hlastChanged⟩ := List.mem_filter.1 hlast
    rw [hlocate last hlast hlastChanged, Option.some.injEq] at hplace
    have hne := file?_ne_of_changed hprograms hplan hlast hlastChanged
    rw [hplace] at hne
    simpa [hleft.file?, htext] using hne.symm

/-! ## The two runs -/

/-- A run that is only tried foretells the real run from the same tree. -/
structure DryRunPredicts (readers : Readers) (programs : Programs) (storage : Storage) (c : Config)
    (names : List String) (t : FileTree) : Prop where
  /-- The one fails exactly if the other does, of the same fault. -/
  error_iff : ∀ e, ((sync readers programs storage c names true).runOn t).1 = .error e ↔
    ((sync readers programs storage c names false).runOn t).1 = .error e
  /-- They report the same packages and the same numbers of pages and of changes. -/
  report : ∀ tried real, ((sync readers programs storage c names true).runOn t).1 = .ok tried →
    ((sync readers programs storage c names false).runOn t).1 = .ok real →
      tried.packages = real.packages ∧ tried.pages = real.pages ∧ tried.changed = real.changed
  /-- The tried run leaves the tree as the programs that it has started leave it. -/
  tree : ∃ done, done <+: c.selected names ∧
    ((sync readers programs storage c names true).runOn t).2 = runPrograms programs done t
  /-- It leaves every page as it was. -/
  pages : programs.SparePages t.directory (c.selected names) →
    ∀ p ∈ c.selected names, ∀ place, p.IsPage t.directory place →
      ((sync readers programs storage c names true).runOn t).2.file? place = t.file? place
  /-- The real run alters the files that are planned as changed, and no others. -/
  altered : programs.SparePages t.directory (c.selected names) →
    ∀ p s, (plan readers programs c names).runOn t = (.ok p, s) → ∀ place,
      ((sync readers programs storage c names false).runOn t).2.file? place ≠
          ((sync readers programs storage c names true).runOn t).2.file? place ↔
        ∃ w ∈ p.writes, w.changed = true ∧ Place.ofPath t.directory w.path = place

theorem exists_runPrograms_of_sync_true (readers : Readers) (programs : Programs)
    (storage : Storage) (c : Config) (names : List String) (t : FileTree) :
    ∃ done, done <+: c.selected names ∧
      ((sync readers programs storage c names true).runOn t).2 = runPrograms programs done t := by
  rcases hplan : (plan readers programs c names).runOn t with ⟨e | p, s⟩
  · have hsync : (sync readers programs storage c names true).runOn t = (.error e, s) :=
      TreeStep.runOn_bind_of_error hplan
    rw [hsync]
    exact runOn_plan_error hplan
  · obtain ⟨hs, -, -⟩ := runOn_planPackages_ok (runOn_plan_ok hplan)
    rw [runOn_sync_true storage hplan]
    exact ⟨c.selected names, List.prefix_rfl, hs⟩

/-- Trying a run foretells it, wherever what is planned can be written. -/
theorem dry_run_predicts (readers : Readers) (programs : Programs) (storage : Storage) (c : Config)
    (names : List String) (t : FileTree)
    (hwrite : PlanWritable readers programs storage c names t) :
    DryRunPredicts readers programs storage c names t := by
  obtain ⟨done, hdone, htree⟩ :=
    exists_runPrograms_of_sync_true readers programs storage c names t
  have hpages : programs.SparePages t.directory (c.selected names) →
      ∀ p ∈ c.selected names, ∀ place, p.IsPage t.directory place →
        ((sync readers programs storage c names true).runOn t).2.file? place = t.file? place := by
    intro hprograms p hp place hplace
    rw [htree, hprograms.file?_runPrograms (fun q hq => hdone.subset hq) hp hplace]
  rcases hplan : (plan readers programs c names).runOn t with ⟨e | p, s⟩
  · have hsync : ∀ dryRun, (sync readers programs storage c names dryRun).runOn t =
        (.error e, s) := fun _ => TreeStep.runOn_bind_of_error hplan
    exact ⟨by simp [hsync], by simp [hsync], ⟨done, hdone, htree⟩, hpages, by simp [hplan]⟩
  · obtain ⟨r, hr, hleft⟩ := runOn_sync_false hplan (hwrite p s hplan)
    have ht := runOn_sync_true storage hplan
    refine ⟨by simp [hr, ht], ?_, ⟨done, hdone, htree⟩, hpages, ?_⟩
    · intro tried real htried hreal
      simp only [hr, ht, Except.ok.injEq] at htried hreal
      subst htried hreal
      exact ⟨rfl, rfl, rfl⟩
    · intro hprograms p' s' hplan' place
      obtain ⟨hp, rfl⟩ := Prod.mk.inj (hplan.symm.trans hplan')
      obtain rfl := Except.ok.inj hp
      rw [hr, ht]
      exact file?_ne_iff_exists_changed hprograms hplan (hwrite p s hplan) hleft place

/-! ## A package that is named twice -/

/-- A tree with one page of a package, and its listing. -/
def kitTree : FileTree where
  directories := [Place.ofPath [] "kit"]
  files := Keyed.ofList [
    (Place.ofPath [] "kit/paths.md", .text "# Paths\n\n<!-- @include $app/paths -->"),
    (Place.ofPath [] "kit.json", .text "\x7b\"modules\":[\x7b\"name\":\"$app/paths\"\x7d]\x7d")]

def kitConfig : Config where
  packages := [examplePackage "kit"]

theorem selected_kitConfig :
    kitConfig.selected ["kit", "kit"] = [examplePackage "kit", examplePackage "kit"] :=
  rfl

theorem sparePages_kitTree :
    logPrograms.SparePages kitTree.directory (kitConfig.selected ["kit", "kit"]) :=
  sparePages_logPrograms (by decide)

/-- A tried run for the package, named twice, foretells the real one: its page is looked at twice
and written twice. -/
theorem dry_run_predicts_kitTree :
    PlanWritable Readers.standard logPrograms Storage.ample kitConfig ["kit", "kit"] kitTree ∧
    logPrograms.SparePages kitTree.directory (kitConfig.selected ["kit", "kit"]) ∧
    ((sync Readers.standard logPrograms Storage.ample kitConfig ["kit", "kit"] true).runOn
        kitTree).1.toOption =
      some { packages := ["kit", "kit"], pages := 2, changed := 2, dryRun := true } ∧
    DryRunPredicts Readers.standard logPrograms Storage.ample kitConfig ["kit", "kit"] kitTree := by
  have hpages : PagesWritable logPrograms Storage.ample (kitConfig.selected ["kit", "kit"])
      kitTree := .of_keys (fun _ => rfl) (by decide +kernel)
  have hwrite : PlanWritable Readers.standard logPrograms Storage.ample kitConfig ["kit", "kit"]
      kitTree := hpages.planWritable sparePages_kitTree
  exact ⟨hwrite, sparePages_kitTree, by decide +kernel,
    dry_run_predicts Readers.standard logPrograms Storage.ample kitConfig ["kit", "kit"] kitTree
      hwrite⟩

end ReferencePages
