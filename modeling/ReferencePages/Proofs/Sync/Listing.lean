import ReferencePages.Proofs.Listing
import ReferencePages.Proofs.Sync.Planning
import ReferencePages.Readers.Standard
import ReferencePages.Sync.Command

/-!
# Listings in files

The modules that are written as a listing come back when the file is read, in the order of names
(`listing_round_trip`). So a package whose program leaves such a file where its listing belongs
has the modules that were written.
-/

namespace ReferencePages

variable {readers : Readers} {programs : Programs} {storage : Storage} {t s : FileTree}

/-- A file that was written in whole is read back. -/
theorem FileTree.readText?_of_write {storing : Storing} {path text : String}
    (h : t.write storing path (.text text) = (true, s)) : s.readText? path = some text := by
  obtain ⟨-, p, hp, rfl⟩ := FileTree.write_eq_true_iff.1 h
  obtain ⟨hp, -⟩ := FileTree.target?_eq_some_iff.1 hp
  rw [FileTree.readText?, FileTree.read?, FileTree.locate?_put, hp, Option.bind_some,
    FileTree.file?_put, if_pos rfl]
  rfl

/-- The listing in a file whose text is read. -/
theorem readListing_of_modules? {path command text : String} {ms : List DocModule}
    (htext : t.readText? path = some text) (hread : readers.modules? text = some ms) :
    readListing readers path command t = .ok (sortModules (ms.map DocModule.sort)) := by
  simp only [readListing, htext, hread]

/-! ## Commands -/

namespace Command

variable {α β : Type} {x : Command α} {f : α → Command β} {r : FileTree}

theorem run_bind_of_ok {a : α} (h : (ExceptT.run x).run t = (.ok a, r)) :
    (ExceptT.run (x >>= f)).run t = (ExceptT.run (f a)).run r := by
  rw [ExceptT.run_bind, StateT.run_bind, h]
  rfl

theorem run_bind_of_error {e : CommandFailure} (h : (ExceptT.run x).run t = (.error e, r)) :
    (ExceptT.run (x >>= f)).run t = (.error e, r) := by
  rw [ExceptT.run_bind, StateT.run_bind, h]
  rfl

/-- A command that writes a listing writes the modules of the package. -/
theorem run_extract_ok {configPath name output : String}
    (h : (ExceptT.run (extract readers programs storage configPath name output)).run t =
      (.ok (), s)) :
    ∃ ms r, (ExceptT.run (modules readers programs configPath name)).run t = (.ok ms, r) ∧
      r.write (storage 0) output (.text (Listing.write ms)) = (true, s) := by
  unfold extract at h
  rcases hms : (ExceptT.run (modules readers programs configPath name)).run t with ⟨e | ms, r⟩
  · rw [run_bind_of_error hms] at h
    cases h
  · have hget : (ExceptT.run (get : Command FileTree)).run r = (.ok r, r) := rfl
    rw [run_bind_of_ok hms, run_bind_of_ok hget] at h
    refine ⟨ms, r, rfl, ?_⟩
    rcases hwrite : r.write (storage 0) output (.text (Listing.write ms)) with ⟨_ | _, s'⟩
    · rw [hwrite] at h
      cases h
    · rw [hwrite] at h
      cases h
      rfl

end Command

/-! ## The round trip -/

/-- The modules that a program leaves in its listing are those of its package, up to the links
that the package moves. -/
theorem runOn_packageModules_of_read {format : FormatOptions} {p : Package} {g : Generator}
    {path : String} {ms : List DocModule} (hp : p.generator = some g)
    (hrun : (g.run programs).runOn t = (.ok (), s)) (hpath : g.listingPath? = some path)
    (hread : readListing readers path g.commandLine s = .ok ms) :
    (packageModules readers programs format p).runOn t =
      (.ok (if p.moveLinks then moveModuleLinks ms else ms), s) := by
  rw [g.runOn_run] at hrun
  obtain ⟨houtcome, rfl⟩ := Prod.mk.inj hrun
  simp only [runOn_packageModules, Package.outcome, Package.readModules, Package.runProgram, hp,
    hpath, houtcome, hread]
  rfl

/-- Modules come back from a listing in the order of names, with all that belongs to them; those
that are in order already come back exactly. Where the listing was written for one package, a
package whose program leaves it as its own listing has the same modules, up to the links that it
moves. -/
theorem listing_round_trip (readers : Readers) (hreaders : readers.modules? = Listing.modules?)
    (ms : List DocModule) (hlevels : ∀ m ∈ ms, m.levels ≤ 60) :
    ∃ read, ListedAs ms read ∧ (ModulesInOrder ms → read = ms) ∧
      (∀ (storing : Storing) (t s : FileTree) (path command : String),
        t.write storing path (.text (Listing.write ms)) = (true, s) →
          readListing readers path command s = .ok read) ∧
      ∀ (programs : Programs) (storage : Storage) (configPath name output : String)
        (t r s u : FileTree) (format : FormatOptions) (p : Package) (g : Generator) (path : String),
        (ExceptT.run (Command.modules readers programs configPath name)).run t = (.ok ms, r) →
        (ExceptT.run (Command.extract readers programs storage configPath name output)).run t =
          (.ok (), s) →
        p.generator = some g → (g.run programs).runOn s = (.ok (), u) →
        g.listingPath? = some path → u.readText? path = s.readText? output →
          (packageModules readers programs format p).runOn s =
            (.ok (if p.moveLinks then moveModuleLinks read else read), u) := by
  have hread : readers.modules? (Listing.write ms) = some ms := by
    rw [hreaders, Listing.modules?_write hlevels]
  refine ⟨_, listedAs_sortModules ms, sortModules_of_inOrder, ?_, ?_⟩
  · intro storing t s path command hwrite
    exact readListing_of_modules? (FileTree.readText?_of_write hwrite) hread
  · intro programs storage configPath name output t r s u format p g path hmodules hextract hp hrun
      hpath hkept
    obtain ⟨ms', r', hmodules', hwrite⟩ := Command.run_extract_ok hextract
    rw [hmodules] at hmodules'
    obtain ⟨hms, rfl⟩ := Prod.mk.inj hmodules'
    cases hms
    refine runOn_packageModules_of_read hp hrun hpath (readListing_of_modules? ?_ hread)
    rw [hkept, FileTree.readText?_of_write hwrite]

/-- Two modules out of order, with symbols out of order. -/
def exampleModules : List DocModule := [
  { name := "kit", comment := "Says \"hi\".\n\x07",
    exports := [
      { name := "load", children := [{ name := "url" }, { name := "params" }] },
      { name := "goto", deprecated := some "", bullets := ["throws"] }] },
  { name := "app", exempt := true }]

/-- The two modules come back from a file. -/
theorem readListing_exampleModules :
    (∀ m ∈ exampleModules, m.levels ≤ 60) ∧
      ∃ read, ListedAs exampleModules read ∧ ∀ command,
        readListing Readers.standard "kit.json" command
          (({} : FileTree).put (Place.ofPath [] "kit.json")
            (.text (Listing.write exampleModules))) = .ok read := by
  have hlevels : ∀ m ∈ exampleModules, m.levels ≤ 60 := by decide
  obtain ⟨read, hlisted, -, hread, -⟩ :=
    listing_round_trip Readers.standard rfl exampleModules hlevels
  have htarget : ({} : FileTree).target? "kit.json" = some (Place.ofPath [] "kit.json") := by decide
  refine ⟨hlevels, read, hlisted, fun command => hread .whole {} _ "kit.json" command ?_⟩
  exact FileTree.write_whole htarget _

end ReferencePages
