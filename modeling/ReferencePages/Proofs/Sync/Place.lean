import Mathlib.Tactic.SplitIfs
import ReferencePages.Proofs.Keyed
import ReferencePages.Sync.FileTree

/-!
# Where paths lead

A tree decides whether a path leads anywhere, but not where: a path that leads to a place leads
to the one that its steps spell (`locate?_eq_some`). Two trees with one working directory thus
never disagree about the place of a path, and the path of a name inside a directory leads to
that name below the directory (`FileName.locate?_join`).
-/

namespace ReferencePages

/-! ## The place that a path spells -/

/-- The place that a path spells from a working directory. -/
def Place.ofPath (directory : Place) (path : String) : Place :=
  (Path.steps path).foldl Place.move (if Path.isAbsolute path then [] else directory)

namespace FileTree

theorem walk_append (t : FileTree) (p : Place) (xs ys : List Step) :
    t.walk p (xs ++ ys) = (t.walk p xs).bind fun q => t.walk q ys := by
  induction xs generalizing p with
  | nil => rfl
  | cons step rest ih =>
    rw [List.cons_append, walk, walk]
    split_ifs
    · exact ih _
    · rfl

theorem walk_eq_some {t : FileTree} {p q : Place} {steps : List Step}
    (h : t.walk p steps = some q) : q = steps.foldl Place.move p := by
  induction steps generalizing p with
  | nil => exact (Option.some.inj h).symm
  | cons step rest ih =>
    rw [walk] at h
    split_ifs at h
    exact ih h

/-- A path that leads to a place leads to the one that it spells. -/
theorem locate?_eq_some {t : FileTree} {path : String} {p : Place} (h : t.locate? path = some p) :
    p = Place.ofPath t.directory path := by
  unfold locate? locateFrom? at h
  split at h
  · simp at h
  · exact walk_eq_some h

end FileTree

/-! ## Paths of names -/

namespace FileName

variable (name : FileName)

theorem stepOfText : Step.ofText name = .down name := dif_pos name.property

theorem isAbsolute_eq_false : Path.isAbsolute name = false := by
  unfold Path.isAbsolute
  cases hs : name.val.toList with
  | nil => rfl
  | cons c s =>
    have hc : c ≠ '/' := fun hc => name.property.noSlash (by simp [hs, hc])
    simpa using hc

theorem parts_eq : Path.parts name = [name.val] := by
  rw [Path.parts, List.splitOn_eq_singleton name.property.noSlash]
  simp

theorem walk_singleton (t : FileTree) (p : Place) :
    t.walk p [.down name] = if t.isDirectory p then some (p ++ [name]) else none := by
  rfl

/-- Joining puts the name behind the parts of the directory, up to an empty part at their end. -/
theorem parts_join {directory : String} (hd : directory ≠ "") :
    ∃ init, (Path.parts directory = init ∨ Path.parts directory = init ++ [""]) ∧
      Path.parts (Path.join directory name) = init ++ [name.val] := by
  have hempty : directory.isEmpty = false := by simpa using hd
  unfold Path.join
  rw [if_neg (by simp [name.isAbsolute_eq_false, hempty])]
  split
  · next hlast =>
    have hlast : directory.toList.getLast? = some '/' := by simpa using hlast
    obtain ⟨init, hinit⟩ := List.getLast?_eq_some_iff.1 hlast
    refine ⟨(init.splitOn '/').map String.ofList, Or.inr ?_, ?_⟩
    · rw [Path.parts, hinit, List.splitOn_append_cons_self]
      simp
    · rw [Path.parts, String.toList_append, hinit, List.append_assoc, List.singleton_append,
        List.splitOn_append_cons_self, List.map_append]
      exact congrArg _ name.parts_eq
  · refine ⟨Path.parts directory, Or.inl rfl, ?_⟩
    have hslash : (directory ++ "/" ++ name.val).toList =
        directory.toList ++ '/' :: name.val.toList := by
      simp [String.toList_append]
    rw [Path.parts, hslash, List.splitOn_append_cons_self, List.map_append]
    exact congrArg _ name.parts_eq

/-- Joining puts a step to the name behind the steps to the directory. -/
theorem steps_join {directory : String} (hd : directory ≠ "") :
    ∃ init, (Path.steps directory = init ∨ Path.steps directory = init ++ [.stay]) ∧
      Path.steps (Path.join directory name) = init ++ [.down name] := by
  obtain ⟨init, hparts, hjoin⟩ := name.parts_join hd
  refine ⟨init.map Step.ofText, hparts.imp (congrArg _) fun h => ?_, ?_⟩
  · rw [Path.steps, h, List.map_append]
    rfl
  · rw [Path.steps, hjoin, List.map_append, List.map_singleton, name.stepOfText]

theorem join_ne_empty {directory : String} (hd : directory ≠ "") :
    Path.join directory name ≠ "" := by
  intro hj
  obtain ⟨init, -, hparts⟩ := name.parts_join hd
  rw [hj] at hparts
  have hlast := congrArg List.getLast? hparts
  simp only [Path.parts, String.toList_empty, List.splitOn_nil, List.map_cons, List.map_nil,
    List.getLast?_singleton, List.getLast?_append, Option.some_or, Option.some.injEq] at hlast
  exact name.property.ne_empty hlast.symm

theorem isAbsolute_join {directory : String} (hd : directory ≠ "") :
    Path.isAbsolute (Path.join directory name) = Path.isAbsolute directory := by
  have hempty : directory.isEmpty = false := by simpa using hd
  have hne : directory.toList ≠ [] := by simpa using hd
  obtain ⟨c, s, hs⟩ := List.exists_cons_of_ne_nil hne
  unfold Path.join
  rw [if_neg (by simp [name.isAbsolute_eq_false, hempty])]
  split <;> simp [Path.isAbsolute, String.toList_append, hs]

/-- The path of a name inside a directory leads to that name below the directory. -/
theorem locate?_join {t : FileTree} {directory : String} {d : Place}
    (hd : t.locate? directory = some d) (hdir : t.isDirectory d = true) :
    t.locate? (Path.join directory name) = some (d ++ [name]) := by
  have hne : directory ≠ "" := by
    rintro rfl
    simp [FileTree.locate?, FileTree.locateFrom?] at hd
  obtain ⟨init, hsteps, hjoin⟩ := name.steps_join hne
  unfold FileTree.locate? FileTree.locateFrom? at hd ⊢
  rw [if_neg (by simpa using hne)] at hd
  rw [if_neg (by simpa using name.join_ne_empty hne), hjoin, name.isAbsolute_join hne,
    FileTree.walk_append]
  have hinit : t.walk (if Path.isAbsolute directory then [] else t.directory) init = some d := by
    rcases hsteps with hp | hp
    · exact hp ▸ hd
    · -- The empty part behind a slash at the end leads from a directory to itself.
      simp only [hp, FileTree.walk_append] at hd
      obtain ⟨q, hq, hqd⟩ := Option.bind_eq_some_iff.1 hd
      rw [FileTree.walk] at hqd
      split at hqd
      · exact hq.trans hqd
      · cases hqd
  rw [hinit, Option.bind_some, name.walk_singleton, if_pos hdir]

end FileName

/-! ## Files of a tree -/

namespace FileTree

theorem mem_fileNames {t : FileTree} {d : Place} {name : FileName} :
    name ∈ t.fileNames d ↔ (t.file? (d ++ [name])).isSome := by
  unfold fileNames file?
  rw [List.mem_mergeSort, Keyed.isSome_get?_iff, List.mem_filterMap]
  constructor
  · rintro ⟨p, hp, hname⟩
    split at hname
    · next hd =>
      obtain ⟨above, rfl⟩ := List.getLast?_eq_some_iff.1 hname
      rw [List.dropLast_concat] at hd
      rwa [← hd]
    · cases hname
  · exact fun hp => ⟨d ++ [name], hp, by simp⟩

/-- No name is listed twice, since no two files are at one place. -/
theorem nodup_fileNames (t : FileTree) (d : Place) : (t.fileNames d).Nodup := by
  unfold fileNames
  rw [List.nodup_mergeSort]
  refine List.Nodup.filterMap (fun p q name hp hq => ?_) t.files.nodup
  -- The name and the directory that it is in give the place back.
  have hplace : ∀ r : Place, name ∈ (if r.dropLast = d then r.getLast? else none) →
      r = d ++ [name] := by
    intro r hr
    split_ifs at hr with hd
    · obtain ⟨above, rfl⟩ := List.getLast?_eq_some_iff.1 hr
      simp at hd
      rw [hd]
    · simp at hr
  rw [hplace p hp, hplace q hq]

/-- Putting a file at a place changes that file and no other. -/
theorem file?_put (t : FileTree) (p q : Place) (c : Content) :
    (t.put p c).file? q = if q = p then some c else t.file? q :=
  t.files.get?_insert q p c

theorem put_put (t : FileTree) (p : Place) (c d : Content) : (t.put p c).put p d = t.put p d := by
  simp only [put, Keyed.insert_insert]

/-- Where a path leads is told by the directories of a tree. -/
theorem locate?_congr {s t : FileTree} (hdirectory : s.directory = t.directory)
    (hdirs : ∀ p, s.isDirectory p = t.isDirectory p) (path : String) :
    s.locate? path = t.locate? path := by
  have hwalk : ∀ (steps : List Step) (p : Place), s.walk p steps = t.walk p steps := by
    intro steps
    induction steps with
    | nil => exact fun _ => rfl
    | cons step rest ih =>
      intro p
      simp only [walk, hdirs, ih]
  unfold locate? locateFrom?
  simp only [hwalk, hdirectory]

@[simp] theorem locate?_put (t : FileTree) (p : Place) (c : Content) (path : String) :
    (t.put p c).locate? path = t.locate? path := by
  have hdirectory : (t.put p c).directory = t.directory := rfl
  exact locate?_congr hdirectory (fun _ => rfl) path

/-! ## Files that are written -/

/-- Where a path can be written to has nothing to do with the files of the tree. -/
@[simp] theorem target?_put (t : FileTree) (p : Place) (c : Content) (path : String) :
    (t.put p c).target? path = t.target? path := by
  unfold target?
  rw [locate?_put]
  rfl

theorem target?_eq_some_iff {t : FileTree} {path : String} {p : Place} :
    t.target? path = some p ↔ t.locate? path = some p ∧ t.isDirectory p = false := by
  rw [target?, Option.filter_eq_some_iff, Bool.not_eq_true']

theorem write_whole {t : FileTree} {path : String} {p : Place} (h : t.target? path = some p)
    (c : Content) : t.write .whole path c = (true, t.put p c) := by
  unfold write
  rw [h]

/-- A file that is written in whole is put where its path leads. -/
theorem write_eq_true_iff {t s : FileTree} {storing : Storing} {path : String} {c : Content} :
    t.write storing path c = (true, s) ↔
      storing = .whole ∧ ∃ p, t.target? path = some p ∧ s = t.put p c := by
  unfold write
  rcases t.target? path with _ | p
  · simp
  · cases storing <;> simp [eq_comm]

end FileTree

end ReferencePages
