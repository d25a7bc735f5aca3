import Mathlib.Data.List.Infix
import ReferencePages.Proofs.Sync.Place
import ReferencePages.Proofs.Sync.Step
import ReferencePages.Sync.Pages

/-!
# Writing pages

Writes are performed in order, up to the first that fails: one that leads to no place for a file, or
that the disk does not take in whole. A file ends as the last of them to its place leaves it, and a
file to whose place nothing is written stays (`LeftBy`). The page of the write that fails may be cut
short (`PlannedWrite.CutShort`, `runOn_performAll_cases`). Where a path leads does not depend on the
files of a tree, so writes that succeed one by one succeed all.

Nothing is taken back: where one of the pages that changed cannot be written, those before it are
written (`runOn_commit`).
-/

namespace ReferencePages

variable {storage : Storage} {storing : Storing} {t s r : FileTree} {w : PlannedWrite}
  {ws : List PlannedWrite}

/-! ## What writes leave -/

/-- The text that the last of some writes to a place leaves there. -/
def lastText? (t : FileTree) (place : Place) (ws : List PlannedWrite) : Option String :=
  (ws.filter fun w => t.locate? w.path = some place).getLast?.map PlannedWrite.content

/-- What some writes leave of a tree: in each file to which one of them leads, the text that the
last such write puts there, and all else as it was. -/
structure LeftBy (ws : List PlannedWrite) (t s : FileTree) : Prop where
  directory : s.directory = t.directory
  directories : s.directories = t.directories
  file? : ∀ place, s.file? place = ((lastText? t place ws).map Content.text).or (t.file? place)

/-- There is a place for the page of a write. -/
def PlannedWrite.Fits (w : PlannedWrite) (t : FileTree) : Prop := (t.target? w.path).isSome

/-- What a write that fails leaves of a tree, by what the disk does: all as it was, or only a
beginning of its text in the file to which it leads. -/
inductive PlannedWrite.CutShort (w : PlannedWrite) (t : FileTree) : Storing → FileTree → Prop
  | noPlace {storing : Storing} (hplace : ¬w.Fits t) : w.CutShort t storing t
  | refused : w.CutShort t .refused t
  | cut {p : Place} {kept : Nat} (hp : t.target? w.path = some p) :
      w.CutShort t (.cut kept) (t.put p (.ofBytes ((Content.text w.content).bytes.take kept)))

/-- There is a place for the page of each write, and the disk takes it in whole. -/
structure Taken (storage : Storage) (ws : List PlannedWrite) (t : FileTree) : Prop where
  fits : ∀ w ∈ ws, w.Fits t
  whole : ∀ n < ws.length, storage n = .whole

/-- What writes of which one fails leave of a tree: what those before it leave, but for the page of
the one that fails. -/
inductive StoppedShort (storage : Storage) (t : FileTree) : List PlannedWrite → FileTree → Prop
  | intro (done rest : List PlannedWrite) {w : PlannedWrite} {r s : FileTree}
      (hdone : Taken storage done t) (hstop : ¬Taken storage (done ++ [w]) t)
      (hleft : LeftBy done t r) (hcut : w.CutShort r (storage done.length) s) :
      StoppedShort storage t (done ++ w :: rest) s

theorem PlannedWrite.fits_put (p : Place) (c : Content) : w.Fits (t.put p c) ↔ w.Fits t := by
  rw [Fits, Fits, FileTree.target?_put]

/-- Where there is a place for a page, its path leads to the place that it spells. -/
theorem PlannedWrite.Fits.locate?_eq (h : w.Fits t) :
    t.locate? w.path = some (Place.ofPath t.directory w.path) := by
  obtain ⟨p, hp⟩ := Option.isSome_iff_exists.1 h
  obtain ⟨hlocate, -⟩ := FileTree.target?_eq_some_iff.1 hp
  rw [hlocate, FileTree.locate?_eq_some hlocate]

theorem taken_nil : Taken storage [] t := ⟨by simp, by simp⟩

theorem taken_cons : Taken storage (w :: ws) t ↔
    (w.Fits t ∧ storage 0 = .whole) ∧ Taken (Storage.tail storage) ws t := by
  constructor
  · rintro ⟨hfits, hwhole⟩
    obtain ⟨hw, hws⟩ := List.forall_mem_cons.1 hfits
    exact ⟨⟨hw, hwhole 0 (Nat.succ_pos _)⟩, hws, fun n hn => hwhole (n + 1) (Nat.succ_lt_succ hn)⟩
  · rintro ⟨⟨hw, hfirst⟩, hws, hrest⟩
    refine ⟨List.forall_mem_cons.2 ⟨hw, hws⟩, fun n hn => ?_⟩
    cases n with
    | zero => exact hfirst
    | succ n => exact hrest n (Nat.lt_of_succ_lt_succ hn)

theorem Taken.of_prefix {done : List PlannedWrite} (h : Taken storage ws t) (hdone : done <+: ws) :
    Taken storage done t :=
  ⟨fun w hw => h.fits w (hdone.subset hw), fun n hn => h.whole n (hn.trans_le hdone.length_le)⟩

theorem taken_put (p : Place) (c : Content) :
    Taken storage ws (t.put p c) ↔ Taken storage ws t := by
  constructor
  · exact fun h => ⟨fun w hw => (w.fits_put p c).1 (h.fits w hw), h.whole⟩
  · exact fun h => ⟨fun w hw => (w.fits_put p c).2 (h.fits w hw), h.whole⟩

/-- All files are as they were but for that of the write which fails. -/
theorem PlannedWrite.CutShort.file?_of_ne (h : w.CutShort t storing s) {place : Place}
    (hplace : t.locate? w.path ≠ some place) : s.file? place = t.file? place := by
  cases h with
  | noPlace => rfl
  | refused => rfl
  | cut hp =>
    rw [FileTree.file?_put, if_neg]
    rintro rfl
    exact hplace (FileTree.target?_eq_some_iff.1 hp).1

theorem lastText?_put (p place : Place) (c : Content) (ws : List PlannedWrite) :
    lastText? (t.put p c) place ws = lastText? t place ws := by
  simp only [lastText?, FileTree.locate?_put]

theorem lastText?_cons (place : Place) (w : PlannedWrite) (ws : List PlannedWrite) :
    lastText? t place (w :: ws) =
      (lastText? t place ws).or
        (if t.locate? w.path = some place then some w.content else none) := by
  unfold lastText?
  rw [List.filter_cons]
  split_ifs with h h' h'
  · rw [List.getLast?_cons]
    cases (ws.filter fun w => t.locate? w.path = some place).getLast? <;> simp
  · exact absurd (of_decide_eq_true h) h'
  · exact absurd (decide_eq_true h') h
  · simp

theorem LeftBy.nil (t : FileTree) : LeftBy [] t t := ⟨rfl, rfl, fun _ => rfl⟩

theorem LeftBy.isDirectory_eq (h : LeftBy ws t s) (p : Place) :
    s.isDirectory p = t.isDirectory p := by
  rw [FileTree.isDirectory, FileTree.isDirectory, h.directories]

/-- One write, and behind it some others. -/
theorem LeftBy.cons {p : Place} (hp : t.target? w.path = some p)
    (h : LeftBy ws (t.put p (.text w.content)) s) : LeftBy (w :: ws) t s := by
  refine ⟨h.directory, h.directories, fun place => ?_⟩
  rw [h.file?, lastText?_put, lastText?_cons, FileTree.file?_put,
    (FileTree.target?_eq_some_iff.1 hp).1]
  cases lastText? t place ws with
  | some text => rfl
  | none => by_cases hplace : place = p <;> simp [hplace, Ne.symm]

/-- One write, and behind it some others of which one fails. -/
theorem StoppedShort.cons {p : Place} (hp : t.target? w.path = some p) (hw : storage 0 = .whole)
    (h : StoppedShort (Storage.tail storage) (t.put p (.text w.content)) ws s) :
    StoppedShort storage t (w :: ws) s := by
  have hfirst : w.Fits t ∧ storage 0 = .whole := ⟨by rw [PlannedWrite.Fits, hp]; rfl, hw⟩
  obtain ⟨done, rest, hdone, hstop, hleft, hcut⟩ := h
  rw [taken_put] at hdone hstop
  exact .intro (w :: done) rest (taken_cons.2 ⟨hfirst, hdone⟩) (fun h => hstop (taken_cons.1 h).2)
    (hleft.cons hp) hcut

/-- Each file to which the write that fails does not lead is as the writes before it leave it. -/
theorem StoppedShort.exists_file?_eq (h : StoppedShort storage t ws s) :
    ∃ done w rest, ws = done ++ w :: rest ∧ ∀ place, t.locate? w.path ≠ some place →
      s.file? place = ((lastText? t place done).map Content.text).or (t.file? place) := by
  obtain ⟨done, rest, -, -, hleft, hcut⟩ := h
  refine ⟨done, _, rest, rfl, fun place hplace => ?_⟩
  rw [← FileTree.locate?_congr hleft.directory hleft.isDirectory_eq] at hplace
  rw [hcut.file?_of_ne hplace, hleft.file?]

/-! ## Performing writes -/

theorem runOn_perform (w : PlannedWrite) (storing : Storing) (t : FileTree) :
    (w.perform storing).runOn t =
      (if (t.write storing w.path (.text w.content)).1 then .ok () else .error .io,
        (t.write storing w.path (.text w.content)).2) := by
  unfold PlannedWrite.perform
  rw [TreeStep.runOn_bind_of_ok (TreeStep.runOn_get t)]
  rcases t.write storing w.path (.text w.content) with ⟨_ | _, s⟩ <;> rfl

/-- A write puts its page where its path leads if there is a place and the disk takes the page in
whole. If not, it fails. -/
theorem runOn_perform_cases (w : PlannedWrite) (storing : Storing) (t : FileTree) :
    (∃ p, t.target? w.path = some p ∧ storing = .whole ∧
      (w.perform storing).runOn t = (.ok (), t.put p (.text w.content))) ∨
    ∃ s, (w.perform storing).runOn t = (.error .io, s) ∧ ¬(w.Fits t ∧ storing = .whole) ∧
      w.CutShort t storing s := by
  rw [runOn_perform]
  unfold FileTree.write
  rcases hp : t.target? w.path with _ | p
  · have hplace : ¬w.Fits t := by simp [PlannedWrite.Fits, hp]
    exact Or.inr ⟨t, rfl, fun h => hplace h.1, .noPlace hplace⟩
  · cases storing with
    | whole => exact Or.inl ⟨p, rfl, rfl, rfl⟩
    | cut kept => exact Or.inr ⟨_, rfl, by simp, .cut hp⟩
    | refused => exact Or.inr ⟨t, rfl, by simp, .refused⟩

/-- Writes are performed up to the first that fails. -/
theorem runOn_performAll_cases (storage : Storage) (ws : List PlannedWrite) (t : FileTree) :
    ∃ s, ((performAll storage ws).runOn t = (.ok (), s) ∧ Taken storage ws t ∧ LeftBy ws t s) ∨
      ((performAll storage ws).runOn t = (.error .io, s) ∧ StoppedShort storage t ws s) := by
  induction ws generalizing storage t with
  | nil => exact ⟨t, Or.inl ⟨rfl, taken_nil, .nil t⟩⟩
  | cons w ws ih =>
    rcases runOn_perform_cases w (storage 0) t with ⟨p, hp, hwhole, hrun⟩ | ⟨s, hrun, hstop, hcut⟩
    · have hbind : (performAll storage (w :: ws)).runOn t =
          (performAll (Storage.tail storage) ws).runOn (t.put p (.text w.content)) :=
        TreeStep.runOn_bind_of_ok hrun
      have hfirst : w.Fits t ∧ storage 0 = .whole := ⟨by rw [PlannedWrite.Fits, hp]; rfl, hwhole⟩
      obtain ⟨s, ⟨hrest, htaken, hleft⟩ | ⟨hrest, hstopped⟩⟩ :=
        ih (Storage.tail storage) (t.put p (.text w.content))
      · have htaken := taken_cons.2 ⟨hfirst, (taken_put p _).1 htaken⟩
        exact ⟨s, Or.inl ⟨hbind.trans hrest, htaken, hleft.cons hp⟩⟩
      · exact ⟨s, Or.inr ⟨hbind.trans hrest, hstopped.cons hp hwhole⟩⟩
    · refine ⟨s, Or.inr ⟨TreeStep.runOn_bind_of_error hrun, ?_⟩⟩
      exact .intro [] ws taken_nil (fun h => hstop (taken_cons.1 h).1) (.nil t) hcut

/-- Writes that are taken succeed. -/
theorem runOn_performAll (h : Taken storage ws t) :
    ∃ s, (performAll storage ws).runOn t = (.ok (), s) ∧ LeftBy ws t s := by
  obtain ⟨s, ⟨hrun, -, hleft⟩ | ⟨-, hstopped⟩⟩ := runOn_performAll_cases storage ws t
  · exact ⟨s, hrun, hleft⟩
  · obtain ⟨done, rest, -, hstop, -, -⟩ := hstopped
    exact absurd (h.of_prefix ⟨rest, (List.append_cons ..).symm⟩) hstop

/-- Writes that succeed are taken. -/
theorem runOn_performAll_eq_ok (h : (performAll storage ws).runOn t = (.ok (), s)) :
    Taken storage ws t ∧ LeftBy ws t s := by
  obtain ⟨r, ⟨hrun, htaken, hleft⟩ | ⟨hrun, -⟩⟩ := runOn_performAll_cases storage ws t
  · obtain ⟨-, rfl⟩ := Prod.mk.inj (hrun.symm.trans h)
    exact ⟨htaken, hleft⟩
  · cases hrun.symm.trans h

theorem lastText?_eq_none {place : Place} (h : ∀ w ∈ ws, t.locate? w.path ≠ some place) :
    lastText? t place ws = none := by
  unfold lastText?
  rw [List.filter_eq_nil_iff.2 (by simpa using h)]
  rfl

/-- The text that some writes leave at a place is that of one of them. -/
theorem exists_of_lastText?_eq_some {place : Place} {text : String}
    (h : lastText? t place ws = some text) :
    ∃ w ∈ ws, t.locate? w.path = some place ∧ w.content = text := by
  obtain ⟨w, hlast, hcontent⟩ := Option.map_eq_some_iff.1 h
  obtain ⟨hw, hplace⟩ := List.mem_filter.1 (List.mem_of_getLast? hlast)
  exact ⟨w, hw, of_decide_eq_true hplace, hcontent⟩

/-- Where there is a write to a place, some text is left there. -/
theorem isSome_lastText? {place : Place} (hw : w ∈ ws) (hplace : t.locate? w.path = some place) :
    (lastText? t place ws).isSome := by
  have hne : (ws.filter fun w => t.locate? w.path = some place) ≠ [] :=
    List.ne_nil_of_mem (List.mem_filter.2 ⟨hw, decide_eq_true hplace⟩)
  rw [lastText?, List.getLast?_eq_some_getLast hne]
  rfl

/-- Where all writes to a place agree and there is one, they leave their text. -/
theorem lastText?_eq_some {place : Place} {text : String} (hw : w ∈ ws)
    (hplace : t.locate? w.path = some place)
    (h : ∀ w ∈ ws, t.locate? w.path = some place → w.content = text) :
    lastText? t place ws = some text := by
  obtain ⟨last, hlast⟩ := Option.isSome_iff_exists.1 (isSome_lastText? hw hplace)
  obtain ⟨w', hw', hplace', rfl⟩ := exists_of_lastText?_eq_some hlast
  rw [hlast, h w' hw' hplace']

/-! ## The changed pages -/

variable {n : Nat}

theorem runOn_commit_of_taken (h : Taken storage (ws.filter (·.changed)) t) :
    ∃ s, (commit storage ws).runOn t = (.ok (ws.filter (·.changed)).length, s) ∧
      LeftBy (ws.filter (·.changed)) t s := by
  obtain ⟨s, hrun, hleft⟩ := runOn_performAll h
  exact ⟨s, TreeStep.runOn_bind_of_ok hrun, hleft⟩

theorem runOn_commit_eq_ok (h : (commit storage ws).runOn t = (.ok n, s)) :
    LeftBy (ws.filter (·.changed)) t s := by
  obtain ⟨⟨⟩, r, hrun, hreturn⟩ := TreeStep.runOn_bind_eq_ok h
  obtain ⟨-, rfl⟩ := Prod.mk.inj hreturn
  exact (runOn_performAll_eq_ok hrun).2

/-- Where all pages that changed are taken, their number is returned, and each file has what the
last write to it puts there. Where they are not, the pages before the first that is not taken are
written, and that one may be cut short. -/
theorem runOn_commit (storage : Storage) (ws : List PlannedWrite) (t : FileTree) :
    ∃ s,
      ((commit storage ws).runOn t = (.ok (ws.filter (·.changed)).length, s) ∧
        Taken storage (ws.filter (·.changed)) t ∧ LeftBy (ws.filter (·.changed)) t s) ∨
      ((commit storage ws).runOn t = (.error .io, s) ∧
        StoppedShort storage t (ws.filter (·.changed)) s) := by
  unfold commit
  obtain ⟨s, ⟨hrun, htaken, hleft⟩ | ⟨hrun, hstopped⟩⟩ :=
    runOn_performAll_cases storage (ws.filter (·.changed)) t
  · exact ⟨s, Or.inl ⟨TreeStep.runOn_bind_of_ok hrun, htaken, hleft⟩⟩
  · exact ⟨s, Or.inr ⟨TreeStep.runOn_bind_of_error hrun, hstopped⟩⟩

/-- A page is written before one whose directory is missing. -/
theorem runOn_commit_missingDirectory :
    let place := Place.ofPath [] "a.md"
    let t : FileTree := { files := Keyed.ofList [(place, .text "old")] }
    let ws : List PlannedWrite := [⟨"a.md", "new", true⟩, ⟨"missing/b.md", "b", true⟩]
    ∃ s, (commit Storage.ample ws).runOn t = (.error .io, s) ∧
      t.file? place = some (.text "old") ∧ s.file? place = some (.text "new") :=
  ⟨_, rfl, rfl, rfl⟩

/-- A page is lost where the disk fails once it is emptied. -/
example :
    let place := Place.ofPath [] "a.md"
    let t : FileTree := { files := Keyed.ofList [(place, .text "old")] }
    let ws : List PlannedWrite := [⟨"a.md", "new", true⟩]
    ∃ s, (commit (fun _ => .cut 0) ws).runOn t = (.error .io, s) ∧
      s.file? place = some (.text "") :=
  ⟨_, rfl, rfl⟩

end ReferencePages
