import Mathlib.Algebra.Ring.Parity
import Mathlib.Data.List.ModifyLast
import ReferencePages.DocComment.Sections
import ReferencePages.Proofs.Text.Lines

/-!
# Parts of a cleaned comment

A cleaned comment is read line by line, and what is read of lines that follow one another is put
together from what is read of each part: their chunks (`chunksOfLines_append`), the text and tags of
a line (`cutTags_append`), and the sections of all chunks (`collect_append`). The text that stands
before the first tag of a later part belongs to the last tag of the part before
(`sectionsOf_append`).
-/

namespace ReferencePages

/-! ## Fences -/

/-- Whether a fence is open behind some lines. -/
def fenceAfter (inFence : Bool) : List (List Char) → Bool
  | [] => inFence
  | l :: ls => fenceAfter (if isFenceLine l then !inFence else inFence) ls

/-- Whether every at sign stands in a fenced block. -/
def atsFenced (inFence : Bool) : List (List Char) → Bool
  | [] => true
  | l :: ls =>
    if isFenceLine l then atsFenced (!inFence) ls
    else (inFence || !l.contains '@') && atsFenced inFence ls

/-- A fence is open behind an odd number of fence lines. -/
theorem fenceAfter_eq (inFence : Bool) (ls : List (List Char)) :
    fenceAfter inFence ls = (inFence ^^ decide (Odd (ls.countP isFenceLine))) := by
  induction ls generalizing inFence with
  | nil => simp [fenceAfter]
  | cons l ls ih =>
    rw [fenceAfter, ih, List.countP_cons]
    split
    · by_cases hodd : Odd (ls.countP isFenceLine) <;> simp [Nat.odd_add_one, hodd]
    · rw [Nat.add_zero]

theorem chunksOfLines_append (inFence : Bool) (xs ys : List (List Char)) :
    chunksOfLines inFence (xs ++ ys) =
      chunksOfLines inFence xs ++ chunksOfLines (fenceAfter inFence xs) ys := by
  induction xs generalizing inFence with
  | nil => rfl
  | cons l ls ih =>
    rw [List.cons_append, chunksOfLines, chunksOfLines, fenceAfter]
    split
    · rw [ih, List.cons_append]
    · split
      · rw [ih, List.cons_append]
      · rw [ih, List.cons_append]

theorem chunksOfLines_ne_nil {ls : List (List Char)} (hls : ls ≠ []) (inFence : Bool) :
    chunksOfLines inFence ls ≠ [] := by
  obtain ⟨l, ls, rfl⟩ := List.exists_cons_of_ne_nil hls
  rw [chunksOfLines]
  split
  · exact List.cons_ne_nil _ _
  · split <;> exact List.cons_ne_nil _ _

/-! ## Tags of a line -/

theorem not_blank_of_isTagChar {c : Char} (h : isTagChar c = true) : isBlank c = false := by
  have hrange : 48 ≤ c.toNat ∧ c.toNat ≤ 122 := by
    simp only [isTagChar, isAsciiLetter, isDigit, Bool.or_eq_true, Bool.and_eq_true,
      decide_eq_true_eq, beq_iff_eq, Char.le_def, UInt32.le_iff_toNat_le] at h
    rcases h with ((h | h) | h) | rfl
    · exact ⟨le_trans (by decide) h.1, le_trans h.2 (by decide)⟩
    · exact ⟨le_trans (by decide) h.1, le_trans h.2 (by decide)⟩
    · exact ⟨le_trans (by decide) h.1, le_trans h.2 (by decide)⟩
    · decide
  simp only [isBlank, Bool.or_eq_false_iff, Bool.and_eq_false_iff, beq_eq_false_iff_ne,
    decide_eq_false_iff_not]
  omega

/-- The position behind some text. -/
def LinePosition.behind (p : LinePosition) (s : List Char) : LinePosition :=
  s.foldl LinePosition.next p

theorem LinePosition.behind_concat (p : LinePosition) (s : List Char) (c : Char) :
    p.behind (s ++ [c]) = (p.behind s).next c := by
  rw [behind, List.foldl_append]
  rfl

/-- A text without an at sign stands before what is cut behind it. -/
theorem cutTags_append {a : List Char} (h : '@' ∉ a) (p : LinePosition) (s : List Char) :
    cutTags p (a ++ s) = (a ++ (cutTags (p.behind a) s).1, (cutTags (p.behind a) s).2) := by
  induction a generalizing p with
  | nil => rfl
  | cons c a ih =>
    obtain ⟨hc, ha⟩ := not_or.1 (List.mem_cons.not.1 h)
    have hnone : startsTag? p c (a ++ s) = none := if_neg fun hat => hc hat.1.symm
    rw [List.cons_append, cutTags, ih ha, hnone]
    rfl

theorem cutTags_of_not_mem {s : List Char} (h : '@' ∉ s) (p : LinePosition) :
    cutTags p s = (s, []) := by
  have hcut := cutTags_append h p []
  rwa [List.append_nil, cutTags, List.append_nil] at hcut

theorem atsFenced_of_not_mem {ls : List (List Char)} (h : ∀ l ∈ ls, '@' ∉ l) (inFence : Bool) :
    atsFenced inFence ls = true := by
  induction ls generalizing inFence with
  | nil => rfl
  | cons l ls ih =>
    have hl : l.contains '@' = false := by simpa using h l List.mem_cons_self
    have hls := ih fun k hk => h k (List.mem_cons_of_mem l hk)
    rw [atsFenced, hls, hls, hl]
    simp

/-- Lines without an at sign outside fenced blocks are text. -/
theorem chunksOfLines_of_atsFenced {inFence : Bool} {ls : List (List Char)}
    (h : atsFenced inFence ls = true) :
    chunksOfLines inFence ls = ls.map fun l => [Chunk.text l] := by
  induction ls generalizing inFence with
  | nil => rfl
  | cons l ls ih =>
    rw [atsFenced] at h
    rw [chunksOfLines, List.map_cons]
    split at h
    · next hfence => rw [if_pos hfence, ih h]
    · next hfence =>
      obtain ⟨hat, hls⟩ := Bool.and_eq_true_iff.1 h
      rw [if_neg hfence, ih hls]
      split
      · rfl
      · next hout =>
        have hl : '@' ∉ l := by simpa [hout] using hat
        rw [lineChunks, cutTags_of_not_mem hl]
        rfl

/-! ## Sections -/

/-- A description and the tags behind it with their contents. -/
abbrev Sections := List Char × List (List Char × List Char)

namespace Sections

/-- Sections with more text at their end: it belongs to the last tag, or to the description where
there is no tag. -/
def addText (sections : Sections) (text : List Char) : Sections :=
  match sections.2 with
  | [] => (sections.1 ++ text, [])
  | tags => (sections.1, tags.modifyLast fun tag => (tag.1, tag.2 ++ text))

/-- Sections behind others. -/
def append (sections more : Sections) : Sections :=
  ((sections.addText more.1).1, (sections.addText more.1).2 ++ more.2)

/-- The names of the tags. -/
def names (sections : Sections) : List (List Char) := sections.2.map Prod.fst

theorem addText_nil (d text : List Char) : addText (d, []) text = (d ++ text, []) :=
  rfl

theorem addText_concat (d text : List Char) (tags : List (List Char × List Char))
    (tag : List Char × List Char) :
    addText (d, tags ++ [tag]) text = (d, tags ++ [(tag.1, tag.2 ++ text)]) := by
  rw [← List.modifyLast_concat (fun tag => (tag.1, tag.2 ++ text))]
  cases tags <;> rfl

theorem addText_addText (sections : Sections) (s t : List Char) :
    (sections.addText s).addText t = sections.addText (s ++ t) := by
  obtain ⟨d, tags⟩ := sections
  rcases List.eq_nil_or_concat' tags with rfl | ⟨tags, tag, rfl⟩
  · simp only [addText_nil, List.append_assoc]
  · simp only [addText_concat, List.append_assoc]

/-- More text adds no tag. -/
theorem names_addText (sections : Sections) (text : List Char) :
    (sections.addText text).names = sections.names := by
  obtain ⟨d, tags⟩ := sections
  rcases List.eq_nil_or_concat' tags with rfl | ⟨tags, tag, rfl⟩
  · rfl
  · simp only [addText_concat, names, List.map_append, List.map_cons]

theorem names_append (sections more : Sections) :
    (sections.append more).names = sections.names ++ more.names := by
  rw [← names_addText sections more.1]
  exact List.map_append

theorem addText_append (sections more : Sections) (text : List Char) :
    (sections.addText text).append more = sections.append (text ++ more.1, more.2) := by
  simp only [append, addText_addText]

theorem append_text (s d : List Char) (tags : List (List Char × List Char)) (more : Sections) :
    append (s ++ d, tags) more = (s ++ (append (d, tags) more).1, (append (d, tags) more).2) := by
  rcases List.eq_nil_or_concat' tags with rfl | ⟨tags, tag, rfl⟩
  · simp only [append, addText_nil, List.append_assoc]
  · simp only [append, addText_concat]

theorem append_tag (name content d : List Char) (tags : List (List Char × List Char))
    (more : Sections) : append ([], (name, content ++ d) :: tags) more =
      ([], (name, content ++ (append (d, tags) more).1) :: (append (d, tags) more).2) := by
  rcases List.eq_nil_or_concat' tags with rfl | ⟨tags, tag, rfl⟩
  · have hadd := addText_concat [] more.1 [] (name, content ++ d)
    rw [List.nil_append] at hadd
    simp only [append, hadd, addText_nil, List.nil_append, List.singleton_append,
      List.append_assoc]
  · have hadd := addText_concat [] more.1 ((name, content ++ d) :: tags) tag
    rw [List.cons_append] at hadd
    simp only [append, hadd, addText_concat, List.cons_append]

end Sections

/-- The sections of chunks are those of the first ones with those of the rest behind them. -/
theorem collect_append (xs ys : List Chunk) :
    collect (xs ++ ys) = Sections.append (collect xs) (collect ys) := by
  induction xs with
  | nil => rfl
  | cons x xs ih =>
    cases x with
    | text s => rw [List.cons_append, collect, ih, collect, Sections.append_text]
    | tag name content => rw [List.cons_append, collect, ih, collect, Sections.append_tag]

theorem collect_texts (ls : List (List Char)) (rest : List Chunk) :
    collect ([Chunk.text ['\n']].intercalate (ls.map fun l => [Chunk.text l]) ++ rest) =
      (joinLines ls ++ (collect rest).1, (collect rest).2) := by
  induction ls with
  | nil => rfl
  | cons l ls ih =>
    by_cases hls : ls = []
    · subst hls
      simp [joinLines, joinWith, collect]
    · have hmap : (ls.map fun l => [Chunk.text l]) ≠ [] := by simpa using hls
      rw [List.map_cons, List.intercalate_cons_of_ne_nil hmap, joinLines_cons hls]
      simp only [List.append_assoc, List.cons_append, List.nil_append, collect, ih]

/-- The sections of a comment of the given lines. -/
def sectionsOf (ls : List (List Char)) : Sections :=
  collect ([Chunk.text ['\n']].intercalate (chunksOfLines false ls))

theorem splitSections_eq (s : List Char) : splitSections s = sectionsOf (lines s) :=
  rfl

/-- Lines that follow others are read as such, with a line feed between, unless a fence is open. -/
theorem sectionsOf_append {xs ys : List (List Char)} (hxs : xs ≠ []) (hys : ys ≠ [])
    (hclosed : fenceAfter false xs = false) :
    sectionsOf (xs ++ ys) = ((sectionsOf xs).addText ['\n']).append (sectionsOf ys) := by
  rw [sectionsOf, chunksOfLines_append, hclosed, intercalate_append _ (chunksOfLines_ne_nil hxs _)
    (chunksOfLines_ne_nil hys _), List.append_assoc, collect_append, collect_append,
    Sections.addText_append]
  rfl

end ReferencePages
