import ReferencePages.DocComment.Basic
import ReferencePages.Proofs.DocComment.TypeMarker

/-!
# The mark of what is private

A member is private if its description says `private api`, in any case of the letters
(`SaysPrivate`). This is asked of the description as it is written, while what is shown is the
normalized description.

What normalizing writes begins and ends in characters that the phrase does not hold, such as
slashes, braces and tabs. So the phrase cannot go over an end of it: it would stand within what is
written, where it does not, or within what is kept (`SaysPrivate.of_normalizeExample`).
-/

namespace ReferencePages

variable {f : List Char → List Char} {marker value s x a b : List Char} {c : Char}

/-- The phrase that makes a member private. -/
def privateMark : List Char := "private api".toList

/-- A text says that something is private, in any case of the letters. -/
def SaysPrivate (s : List Char) : Prop := privateMark <:+: s.map toAsciiLower

instance (s : List Char) : Decidable (SaysPrivate s) :=
  inferInstanceAs (Decidable (_ <:+: _))

theorem DocComment.isPrivateApi_iff {doc : DocComment} :
    doc.isPrivateApi = true ↔ SaysPrivate doc.description.toList :=
  contains_iff

namespace SaysPrivate

theorem mono (h : SaysPrivate a) (hab : a <:+: b) : SaysPrivate b :=
  h.trans (hab.map toAsciiLower)

/-- The phrase stands on one side of a character that it does not hold. -/
theorem of_append_cons (hc : toAsciiLower c ∉ privateMark) (h : SaysPrivate (a ++ c :: b)) :
    SaysPrivate a ∨ SaysPrivate b := by
  rw [SaysPrivate, List.map_append, List.map_cons] at h
  exact infix_append_cons hc h

/-- A function that works line by line does not write the phrase if it does not write it on a
line. -/
theorem of_linewise (hf : Linewise f)
    (hline : ∀ x, '\n' ∉ x → SaysPrivate (f x) → SaysPrivate x) (h : SaysPrivate (f s)) :
    SaysPrivate s := by
  have hfeed : toAsciiLower '\n' ∉ privateMark := by decide
  induction s using lineInduction with
  | last s hs => exact hline s hs h
  | line x s hx ih =>
    rw [hf.line x s hx] at h
    rcases of_append_cons hfeed h with h | h
    · exact (hline x hx h).mono (List.prefix_append x _).isInfix
    · exact (ih h).mono ⟨x ++ ['\n'], [], by simp⟩

/-! ## The passes -/

/-- A pass over marked lines does not write the phrase if what it writes for a marker and a value,
behind any text, holds it only where the text or the marked value does. -/
theorem of_replaceMatches (hlines : Linewise (replaceMatches (restOfLine marker) f))
    (hf : ∀ a value, SaysPrivate (a ++ f value) → SaysPrivate a ∨ SaysPrivate (marker ++ value))
    (h : SaysPrivate (replaceMatches (restOfLine marker) f s)) : SaysPrivate s := by
  refine of_linewise hlines (fun x hx h => ?_) h
  rw [replaceMatches_restOfLine hx] at h
  cases hcut : splitAtFirst? marker x with
  | none => rwa [hcut] at h
  | some cut =>
    obtain ⟨before, value⟩ := cut
    have heq := append_of_splitAtFirst? hcut
    simp only [hcut] at h
    split at h
    · exact h
    · rcases hf before value h with h | h
      · exact h.mono ⟨[], marker ++ value, by simp [heq]⟩
      · exact h.mono ⟨before, [], by simp [heq]⟩

theorem of_typeComment (h : SaysPrivate (a ++ typeComment value)) :
    SaysPrivate a ∨ SaysPrivate (typeMarker ++ value) := by
  obtain ⟨inner, hinner, htype⟩ := exists_writtenPayload_eq (trimEnd value)
  have hwithin : inner <:+: trimEnd value := by
    rcases htype with rfl | htype
    · exact List.infix_rfl
    · exact htype ▸ List.infix_append ['{'] inner ['}']
  have hvalue : trimEnd value <:+: typeMarker ++ value :=
    (isPrefix_trimEnd value).isInfix.trans (List.suffix_append typeMarker value).isInfix
  have hslash : commentOpening = '/' :: commentOpening.tail := by decide
  have hparts : a ++ typeComment value =
      a ++ '/' :: (commentOpening.tail ++ '{' :: (inner ++ '}' :: commentClosing)) := by
    rw [typeComment_eq, hinner, hslash, inBraces]
    simp
  rw [hparts] at h
  refine (of_append_cons (by decide) h).imp_right fun h => ?_
  have hopening : ¬SaysPrivate commentOpening.tail := by decide
  have hclosing : ¬SaysPrivate commentClosing := by decide
  have hrest := (of_append_cons (by decide) h).resolve_left hopening
  exact ((of_append_cons (by decide) hrest).resolve_right hclosing).mono (hwithin.trans hvalue)

/-- The comment for errors and the marker have the same characters from the colon on. -/
theorem of_errorsComment (h : SaysPrivate (a ++ errorsComment value)) :
    SaysPrivate a ∨ SaysPrivate (errorsMarker ++ value) := by
  obtain ⟨opening, hopening, hnone⟩ : ∃ opening, errorsOpening = '/' :: opening ++ [':', ' '] ∧
      ¬SaysPrivate opening := ⟨"/ @errors".toList, by decide, by decide⟩
  obtain ⟨marker, hmarker⟩ : ∃ marker, errorsMarker = marker ++ [':', ' '] :=
    ⟨"/// errors".toList, by decide⟩
  have hparts : a ++ errorsComment value = a ++ '/' :: (opening ++ ':' :: ' ' :: value) := by
    rw [errorsComment_eq, hopening]
    simp
  rw [hparts] at h
  refine (of_append_cons (by decide) h).imp_right fun h => ?_
  have hrest := (of_append_cons (by decide) h).resolve_left hnone
  exact hrest.mono ⟨marker ++ [':'], [], by simp [hmarker]⟩

theorem of_markTypes (h : SaysPrivate (markTypes s)) : SaysPrivate s :=
  of_replaceMatches linewise_markTypes (fun _ _ => of_typeComment) h

theorem of_markErrors (h : SaysPrivate (markErrors s)) : SaysPrivate s :=
  of_replaceMatches linewise_markErrors (fun _ _ => of_errorsComment) h

theorem of_tabIndent (h : SaysPrivate (tabIndent x)) : SaysPrivate x := by
  fun_induction tabIndent x with
  | case1 s ih =>
    have hnone : ¬SaysPrivate [] := by decide
    have hrest := (of_append_cons (a := []) (by decide) h).resolve_left hnone
    exact (ih hrest).mono ⟨[' ', ' '], [], by simp⟩
  | case2 => exact h

theorem of_indentByTabs (h : SaysPrivate (indentByTabs s)) : SaysPrivate s := by
  refine of_linewise linewise_indentByTabs (fun x hx h => ?_) h
  rw [indentByTabs_line hx] at h
  exact of_tabIndent h

/-- Normalizing a description does not make it private. -/
theorem of_normalizeExample (h : SaysPrivate (normalizeExample s)) : SaysPrivate s := by
  rw [normalizeExample_eq] at h
  exact of_markTypes (of_markErrors (of_indentByTabs h))

end SaysPrivate

end ReferencePages
