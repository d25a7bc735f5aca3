import Mathlib.Data.List.Nodup
import ReferencePages.Proofs.Order
import ReferencePages.Proofs.Sync.Inputs

/-!
# Trees that differ in their pages only

A run writes to pages that exist, so the tree that it leaves has the same directories and a file
at the same places, and the files that are no pages hold the same (`SameButPages`). Nothing that
lists files can tell such trees apart; and neither can the reading of modules, as long as no page is
among the inputs (`SameButPages.sameInputs`).
-/

namespace ReferencePages

variable {t s : FileTree}

/-- Trees that agree about which files of a kind there are in a directory list them alike. -/
theorem FileTree.filter_fileNames_eq {P : FileName → Bool} {d : Place}
    (h : ∀ name, P name = true →
      (s.file? (d ++ [name])).isSome = (t.file? (d ++ [name])).isSome) :
    (s.fileNames d).filter P = (t.fileNames d).filter P := by
  have hmem : ∀ name, name ∈ (s.fileNames d).filter P ↔ name ∈ (t.fileNames d).filter P := by
    intro name
    simp only [List.mem_filter, mem_fileNames]
    refine and_congr_left fun hname => ?_
    rw [h name hname]
  have hperm := (List.perm_ext_iff_of_nodup ((s.nodup_fileNames d).filter P)
    ((t.nodup_fileNames d).filter P)).2 hmem
  have hsorted : ∀ r : FileTree, InOrder Subtype.val ((r.fileNames d).filter P) := fun r =>
    (stablySorted_sortByName Subtype.val _).inOrder.filter P
  have hnodup := ((s.nodup_fileNames d).filter P).map Subtype.val_injective
  exact (hsorted s).eq_of_perm (hsorted t) hperm hnodup

/-! ## Trees that differ in their pages -/

/-- Two trees have the same directories, and files at the same places; the files that are no pages
of some packages hold the same. -/
structure SameButPages (base : Place) (ps : List Package) (t s : FileTree) : Prop where
  directory : s.directory = t.directory
  isDirectory : ∀ place, s.isDirectory place = t.isDirectory place
  isSome_file? : ∀ place, (s.file? place).isSome = (t.file? place).isSome
  file? : ∀ place, (∀ p ∈ ps, ¬p.IsPage base place) → s.file? place = t.file? place

namespace SameButPages

variable {base : Place} {ps : List Package} (h : SameButPages base ps t s)
include h

theorem put (p : Place) (c : Content) : SameButPages base ps (t.put p c) (s.put p c) where
  directory := h.directory
  isDirectory := h.isDirectory
  isSome_file? place := by
    rw [FileTree.file?_put, FileTree.file?_put]
    split
    · rfl
    · exact h.isSome_file? place
  file? place hplace := by
    rw [FileTree.file?_put, FileTree.file?_put, h.file? place hplace]

theorem locate?_eq (path : String) : s.locate? path = t.locate? path :=
  FileTree.locate?_congr h.directory h.isDirectory path

theorem has_eq (path : String) : s.has path = t.has path := by
  unfold FileTree.has
  simp only [h.locate?_eq, h.isDirectory, h.isSome_file?]

theorem readText?_eq {path : String}
    (hpath : ∀ p ∈ ps, ¬p.IsPage base (Place.ofPath t.directory path)) :
    s.readText? path = t.readText? path := by
  unfold FileTree.readText? FileTree.read?
  rw [h.locate?_eq]
  rcases hplace : t.locate? path with _ | place
  · rfl
  · obtain rfl := FileTree.locate?_eq_some hplace
    rw [Option.bind_some, Option.bind_some, h.file? _ hpath]

theorem fragmentNames_eq (directory : String) :
    s.fragmentNames directory = t.fragmentNames directory := by
  unfold FileTree.fragmentNames
  rw [h.locate?_eq]
  rcases t.locate? directory with _ | d
  · rfl
  · simp only [h.isDirectory, h.isSome_file?,
      FileTree.filter_fileNames_eq fun name _ => h.isSome_file? (d ++ [name])]

/-- Where no page is an input of a package, the trees agree about its inputs. -/
theorem sameInputs {p : Package}
    (hinputs : ∀ path ∈ p.inputPaths t, ∀ q ∈ ps, ¬q.IsPage base (Place.ofPath t.directory path)) :
    p.SameInputs t s where
  fragments _ _ directory _ := h.fragmentNames_eq directory
  files path hpath := ⟨h.has_eq path, h.readText?_eq (hinputs path hpath)⟩

end SameButPages

end ReferencePages
