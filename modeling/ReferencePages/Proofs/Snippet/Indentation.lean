import Mathlib.Data.List.Induction
import ReferencePages.Proofs.Text.Blank
import ReferencePages.Proofs.Text.Lines
import ReferencePages.Snippet.Layout

/-!
# Indentation

A line is indented by units, of a tab or of two spaces, and the lines of a comment by a space more
(`exists_indentLine`). Two indentations are alike if they differ in their units alone (`Indents`),
and then they have the same width. So a text behind the one and behind the other looks the same
(`Reindented`).
-/

namespace ReferencePages

/-! ## Units -/

section

variable {o : FormatOptions} {c : Char}

theorem mem_unit (hc : c ∈ o.unit) : c = ' ' ∨ c = '\t' := by
  unfold FormatOptions.unit at hc
  split at hc
  · exact Or.inr (List.mem_singleton.1 hc)
  · exact Or.inl (by simpa using hc)

theorem mem_repeated_unit {n : Nat} (hc : c ∈ repeated n o.unit) : c = ' ' ∨ c = '\t' := by
  obtain ⟨s, hs, hc⟩ := List.mem_flatten.1 hc
  obtain rfl := List.eq_of_mem_replicate hs
  exact mem_unit hc

theorem isBlank_of_indent {pre : List Char} (h : ∀ c ∈ pre, c = ' ' ∨ c = '\t') :
    ∀ c ∈ pre, isBlank c = true := by
  intro c hc
  rcases h c hc with rfl | rfl <;> rfl

theorem isBlank_unit (o : FormatOptions) : ∀ c ∈ o.unit, isBlank c = true :=
  isBlank_of_indent fun _ => mem_unit

theorem isBlank_repeated_unit (o : FormatOptions) (n : Nat) :
    ∀ c ∈ repeated n o.unit, isBlank c = true :=
  isBlank_of_indent fun _ => mem_repeated_unit

/-- Indentation is made of blanks, and a line that continues a template has none. -/
theorem exists_indentLine (o : FormatOptions) (depth : Int) (line : SnippetLine) :
    ∃ pre, (∀ c ∈ pre, c = ' ' ∨ c = '\t') ∧ indentLine o depth line = pre ++ line.text ∧
      (line.opensIn = .template → pre = []) := by
  unfold indentLine
  split
  · exact ⟨[], by simp, rfl, fun _ => rfl⟩
  · next hmode =>
    split
    · next hempty => exact ⟨[], by simp, (List.isEmpty_iff.1 hempty).symm, fun _ => rfl⟩
    · refine ⟨_, List.forall_mem_append.2 ⟨fun _ => mem_repeated_unit, fun c hc => ?_⟩, rfl,
        by simp [hmode]⟩
      split at hc
      · exact Or.inl (List.mem_singleton.1 hc)
      · cases hc
  · next hmode =>
    split
    · next hempty => exact ⟨[], by simp, (List.isEmpty_iff.1 hempty).symm, fun _ => rfl⟩
    · exact ⟨_, fun _ => mem_repeated_unit, rfl, by simp [hmode]⟩

theorem trim_indentLine (o : FormatOptions) (depth : Int) (line : SnippetLine) :
    trim (indentLine o depth line) = trim line.text := by
  obtain ⟨pre, hpre, hline, -⟩ := exists_indentLine o depth line
  rw [hline, trim_append_of_blank (isBlank_of_indent hpre)]

end

/-! ## Widths -/

theorem displayWidth_append (s t : List Char) :
    displayWidth (s ++ t) = displayWidth s + displayWidth t := by
  induction s with
  | nil => exact (Nat.zero_add _).symm
  | cons c s ih => exact (congrArg (columns c + ·) ih).trans (Nat.add_assoc _ _ _).symm

/-- A tab is as wide as two spaces. -/
theorem displayWidth_unit (o : FormatOptions) : displayWidth o.unit = 2 := by
  unfold FormatOptions.unit
  split <;> rfl

/-! ## Alike indentations -/

/-- Indentations that differ in their units alone, those of two settings. -/
inductive Indents (o o' : FormatOptions) : List Char → List Char → Prop
  | nil : Indents o o' [] []
  | unit {i j : List Char} (h : Indents o o' i j) : Indents o o' (i ++ o.unit) (j ++ o'.unit)
  | blank {i j : List Char} {c : Char} (h : Indents o o' i j) (hc : isBlank c = true) :
      Indents o o' (i ++ [c]) (j ++ [c])

/-- Lines that differ in the units of their indentation alone. -/
structure Reindented (o o' : FormatOptions) (line line' : List Char) : Prop where
  indent : Indents o o' (line.takeWhile isBlank) (line'.takeWhile isBlank)
  text_eq : trimStart line = trimStart line'

variable {o o' : FormatOptions} {i j b line line' p : List Char} {c : Char}

namespace Indents

theorem isBlank_left (h : Indents o o' i j) : ∀ c ∈ i, isBlank c = true := by
  induction h with
  | nil => exact List.forall_mem_nil _
  | unit h ih => exact List.forall_mem_append.2 ⟨ih, isBlank_unit o⟩
  | blank h hc ih => exact List.forall_mem_append.2 ⟨ih, List.forall_mem_singleton.2 hc⟩

theorem isBlank_right (h : Indents o o' i j) : ∀ c ∈ j, isBlank c = true := by
  induction h with
  | nil => exact List.forall_mem_nil _
  | unit h ih => exact List.forall_mem_append.2 ⟨ih, isBlank_unit o'⟩
  | blank h hc ih => exact List.forall_mem_append.2 ⟨ih, List.forall_mem_singleton.2 hc⟩

theorem displayWidth_eq (h : Indents o o' i j) : displayWidth i = displayWidth j := by
  induction h with
  | nil => rfl
  | unit h ih =>
    rw [displayWidth_append, displayWidth_append, ih, displayWidth_unit, displayWidth_unit]
  | blank h hc ih => rw [displayWidth_append, displayWidth_append, ih]

theorem append (h : Indents o o' i j) (hb : ∀ c ∈ b, isBlank c = true) :
    Indents o o' (i ++ b) (j ++ b) := by
  induction b using List.reverseRecOn with
  | nil => rwa [List.append_nil, List.append_nil]
  | append_singleton b c ih =>
    obtain ⟨hb, hc⟩ := List.forall_mem_append.1 hb
    rw [← List.append_assoc, ← List.append_assoc]
    exact (ih hb).blank (hc c (List.mem_singleton_self c))

theorem units (o o' : FormatOptions) (n : Nat) :
    Indents o o' (repeated n o.unit) (repeated n o'.unit) := by
  induction n with
  | zero => exact .nil
  | succ n ih =>
    rw [repeated_succ, repeated_succ]
    exact ih.unit

/-- A text behind the one and behind the other. -/
theorem reindented (h : Indents o o' i j) (t : List Char) :
    Reindented o o' (i ++ t) (j ++ t) := by
  refine ⟨?_, ?_⟩
  · rw [List.takeWhile_append_of_pos h.isBlank_left, List.takeWhile_append_of_pos h.isBlank_right]
    exact h.append fun _ hc => List.mem_takeWhile_imp hc
  · rw [trimStart, trimStart, List.dropWhile_append_of_pos h.isBlank_left,
      List.dropWhile_append_of_pos h.isBlank_right]

end Indents

namespace Reindented

/-- A text that does not start with a blank stands behind both indentations. -/
theorem exists_eq (h : Reindented o o' line line') : ∃ i j t, Indents o o' i j ∧
    line = i ++ t ∧ line' = j ++ t ∧ ∀ c ∈ t.head?, isBlank c = false := by
  refine ⟨_, _, trimStart line, h.indent, List.takeWhile_append_dropWhile.symm, ?_,
    trimStart_eq_self_iff.1 (trimStart_trimStart line)⟩
  rw [h.text_eq]
  exact List.takeWhile_append_dropWhile.symm

theorem displayWidth_eq (h : Reindented o o' line line') :
    displayWidth line = displayWidth line' := by
  obtain ⟨i, j, t, hindent, rfl, rfl, -⟩ := h.exists_eq
  rw [displayWidth_append, displayWidth_append, hindent.displayWidth_eq]

theorem trim_eq (h : Reindented o o' line line') : trim line = trim line' := by
  rw [trim, trim, h.text_eq]

theorem infix_iff (h : Reindented o o' line line') (hp : ∀ c ∈ p, isBlank c = false) :
    p <:+: line ↔ p <:+: line' := by
  rw [← infix_trimStart_iff hp, h.text_eq, infix_trimStart_iff hp]

theorem suffix_iff (h : Reindented o o' line line') (hp : ∀ c ∈ p, isBlank c = false) :
    p <:+ line ↔ p <:+ line' := by
  rw [← suffix_trimStart_iff hp, h.text_eq, suffix_trimStart_iff hp]

theorem append (h : Reindented o o' line line') (t : List Char) :
    Reindented o o' (line ++ t) (line' ++ t) := by
  obtain ⟨i, j, text, hindent, rfl, rfl, -⟩ := h.exists_eq
  rw [List.append_assoc, List.append_assoc]
  exact hindent.reindented (text ++ t)

theorem trimEnd (h : Reindented o o' line line') :
    Reindented o o' (trimEnd line) (ReferencePages.trimEnd line') := by
  obtain ⟨i, j, t, hindent, rfl, rfl, hhead⟩ := h.exists_eq
  rcases t with _ | ⟨c, t⟩
  · have hblank {i : List Char} (hi : ∀ c ∈ i, isBlank c = true) :
        ReferencePages.trimEnd (i ++ []) = [] := by
      rw [List.append_nil]
      exact List.rdropWhile_eq_nil_iff.2 hi
    rw [hblank hindent.isBlank_left, hblank hindent.isBlank_right]
    exact Indents.nil.reindented []
  · have hc : isBlank c = false := hhead c rfl
    rw [ReferencePages.trimEnd, ReferencePages.trimEnd, dropEndWhile_append_cons hc,
      dropEndWhile_append_cons hc]
    exact hindent.reindented _

/-- A character that is not blank is taken from the text of a line. -/
theorem dropLast (h : Reindented o o' line line') (hlast : line.getLast? = some c)
    (hc : isBlank c = false) : Reindented o o' line.dropLast line'.dropLast := by
  obtain ⟨i, j, t, hindent, rfl, rfl, -⟩ := h.exists_eq
  have hne : t ≠ [] := by
    rintro rfl
    rw [List.append_nil] at hlast
    exact nomatch hc.symm.trans (hindent.isBlank_left c (List.mem_of_getLast? hlast))
  rw [List.dropLast_append_of_ne_nil hne, List.dropLast_append_of_ne_nil hne]
  exact hindent.reindented t.dropLast

end Reindented

end ReferencePages
