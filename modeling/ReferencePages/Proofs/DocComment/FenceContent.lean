import ReferencePages.Proofs.DocComment.Sections

/-!
# What stands between two fences

Lines between two fence lines are text, whatever they look like. So a comment with a fenced block is
the sections before the block, the block as it is written, and the sections behind it
(`splitSections_block`). Other lines in the block change nothing else, and no tag comes or goes
(`splitSections_fencedBlock`).
-/

namespace ReferencePages

variable {A B B' C : List (List Char)} {f g s s' : List Char}

/-- A block begins and ends with a fence line and has no other one. -/
structure IsBlock (f : List Char) (content : List (List Char)) (g : List Char) : Prop where
  opening : isFenceLine f = true
  closing : isFenceLine g = true
  content : ∀ l ∈ content, isFenceLine l = false

namespace IsBlock

/-- No fence is open behind a block. -/
theorem fenceAfter_eq_false (h : IsBlock f B g) : fenceAfter false (f :: B ++ [g]) = false := by
  have hB : B.countP isFenceLine = 0 := by simpa using h.content
  rw [fenceAfter_eq, List.countP_append, List.countP_cons, List.countP_singleton, hB, h.opening,
    h.closing]
  decide

theorem atsFenced (h : IsBlock f B g) : atsFenced false (f :: B ++ [g]) = true := by
  have hclosing : ReferencePages.atsFenced true [g] = true := by
    rw [ReferencePages.atsFenced, if_pos h.closing]
    rfl
  have hcontent : ∀ ls, (∀ l ∈ ls, isFenceLine l = false) →
      ReferencePages.atsFenced true (ls ++ [g]) = true := by
    intro ls hls
    induction ls with
    | nil => exact hclosing
    | cons l ls ih =>
      obtain ⟨hl, hls⟩ := List.forall_mem_cons.1 hls
      rw [List.cons_append, ReferencePages.atsFenced, hl, ih hls]
      rfl
  rw [List.cons_append, ReferencePages.atsFenced, if_pos h.opening]
  exact hcontent B h.content

/-- A block is text as it is written. -/
theorem sectionsOf_eq (h : IsBlock f B g) :
    sectionsOf (f :: B ++ [g]) = (joinLines (f :: B ++ [g]), []) := by
  have htexts := collect_texts (f :: B ++ [g]) []
  rw [List.append_nil] at htexts
  rw [sectionsOf, chunksOfLines_of_atsFenced h.atsFenced, htexts]
  simp [collect]

end IsBlock

/-- The sections of lines that follow others: the line feed between is text. -/
def sectionsBehind (ls : List (List Char)) : Sections :=
  if ls = [] then ([], []) else ('\n' :: (sectionsOf ls).1, (sectionsOf ls).2)

/-- What stands between some lines and those that follow. -/
def feedBehind (ls : List (List Char)) : List Char := if ls = [] then [] else ['\n']

theorem IsBlock.sectionsOf_append (h : IsBlock f B g) (C : List (List Char)) :
    sectionsOf (f :: B ++ [g] ++ C) =
      (joinLines (f :: B ++ [g]) ++ (sectionsBehind C).1, (sectionsBehind C).2) := by
  by_cases hC : C = []
  · rw [hC, List.append_nil, h.sectionsOf_eq, sectionsBehind, if_pos rfl, List.append_nil]
  · rw [ReferencePages.sectionsOf_append (by simp) hC h.fenceAfter_eq_false, h.sectionsOf_eq,
      Sections.addText_append, sectionsBehind, if_neg hC]
    rfl

/-- A comment with a block: the block belongs to the last tag before it, or to the description. -/
theorem splitSections_block (hA : Even (A.countP isFenceLine)) (h : IsBlock f B g)
    (hs : lines s = A ++ (f :: B ++ [g]) ++ C) :
    splitSections s = ((sectionsOf A).addText (feedBehind A ++ joinLines (f :: B ++ [g]))).append
      (sectionsBehind C) := by
  have hclosed : fenceAfter false A = false := by
    rw [fenceAfter_eq]
    simpa using hA
  rw [splitSections_eq, hs, List.append_assoc, feedBehind]
  by_cases hnil : A = []
  · rw [hnil, List.nil_append, h.sectionsOf_append, if_pos rfl]
    rfl
  · rw [sectionsOf_append hnil (by simp) hclosed, h.sectionsOf_append, if_neg hnil,
      Sections.addText_append, Sections.addText_append, List.append_assoc]

/-- Two comments that differ in the content of a block have the same tags, and differ in the place
of the block only: there each content stands as it is written. -/
theorem splitSections_fencedBlock (hA : Even (A.countP isFenceLine)) (hblock : IsBlock f B g)
    (hblock' : IsBlock f B' g) (hs : lines s = A ++ (f :: B ++ [g]) ++ C)
    (hs' : lines s' = A ++ (f :: B' ++ [g]) ++ C) :
    (splitSections s).2.map Prod.fst = (splitSections s').2.map Prod.fst ∧
      splitSections s = ((sectionsOf A).addText
        (feedBehind A ++ joinLines (f :: B ++ [g]))).append (sectionsBehind C) ∧
      splitSections s' = ((sectionsOf A).addText
        (feedBehind A ++ joinLines (f :: B' ++ [g]))).append (sectionsBehind C) := by
  have heq := splitSections_block hA hblock hs
  have heq' := splitSections_block hA hblock' hs'
  refine ⟨?_, heq, heq'⟩
  calc (splitSections s).2.map Prod.fst
      = Sections.names (splitSections s) := rfl
    _ = (sectionsOf A).names ++ (sectionsBehind C).names := by
      rw [heq, Sections.names_append, Sections.names_addText]
    _ = Sections.names (splitSections s') := by
      rw [heq', Sections.names_append, Sections.names_addText]

/-- The lines of a comment with a tag, a block and another tag. -/
def blockLines (content : List (List Char)) : List (List Char) :=
  ["Reads.".toList, "@param x the name".toList] ++
    ("  ```js".toList :: content ++ ["```".toList]) ++ ["@default 1".toList]

/-- What looks like tags and like the beginning of inline code. -/
def tagLikeLines : List (List Char) := ["@returns y".toList, "` @param".toList]

/-- Lines that look like tags in a block belong to the tag before it, as plain lines do. -/
theorem splitSections_fencedBlock_param :
    Even (["Reads.".toList, "@param x the name".toList].countP isFenceLine) ∧
      IsBlock "  ```js".toList tagLikeLines "```".toList ∧
      IsBlock "  ```js".toList [[]] "```".toList ∧
      lines (joinLines (blockLines tagLikeLines)) = blockLines tagLikeLines ∧
      lines (joinLines (blockLines [[]])) = blockLines [[]] ∧
      (splitSections (joinLines (blockLines tagLikeLines))).2.map Prod.fst =
        (splitSections (joinLines (blockLines [[]]))).2.map Prod.fst := by
  have hA : Even (["Reads.".toList, "@param x the name".toList].countP isFenceLine) := by decide
  have hblock : IsBlock "  ```js".toList tagLikeLines "```".toList :=
    ⟨by decide, by decide, by decide⟩
  have hblock' : IsBlock "  ```js".toList [[]] "```".toList := ⟨by decide, by decide, by decide⟩
  have hs : lines (joinLines (blockLines tagLikeLines)) = blockLines tagLikeLines := by decide
  have hs' : lines (joinLines (blockLines [[]])) = blockLines [[]] := by decide
  exact ⟨hA, hblock, hblock', hs, hs', (splitSections_fencedBlock hA hblock hblock' hs hs').1⟩

end ReferencePages
