import ReferencePages.Proofs.Snippet.Conservation

/-!
# The print width

Lines are set without a look at the print width or at tabs (`spaceLines_setting`), and laid out
without a look at the width (`layoutLines_printWidth`). Breaking them loses nothing but blanks and
bars, unless a comma is put behind the last item. So snippets that are formatted for two widths
differ in blanks and bars alone (`solid_formatSnippet`).
-/

namespace ReferencePages

/-- The characters of a text that are neither blanks nor bars. -/
def solid (s : List Char) : List Char := s.filter fun c => !(isBlank c || c == '|')

section

variable (o : FormatOptions) (width : Nat) (tabs : Bool)

/-! ## What setting a line depends on -/

theorem Row.place_setting (r : Row) (l : Lexeme) (next : Option Char) :
    r.place { o with printWidth := width, useTabs := tabs } l next = r.place o l next := by
  cases l <;> rfl

theorem Row.placeAll_setting (r : Row) (ls : List Lexeme) :
    r.placeAll { o with printWidth := width, useTabs := tabs } ls = r.placeAll o ls := by
  induction ls generalizing r with
  | nil => rfl
  | cons l ls ih => rw [placeAll, placeAll, Row.place_setting, ih]

/-- Lines are set the same way whatever the width is and tabs are used or not. -/
theorem spaceLines_setting (m : Mode) (ls : List (List Char)) :
    spaceLines { o with printWidth := width, useTabs := tabs } m ls = spaceLines o m ls := by
  induction ls generalizing m with
  | nil => rfl
  | cons line ls ih =>
    rw [spaceLines, spaceLines, ih, spaceLine, spaceLine, Row.placeAll_setting]

/-! ## Laid out lines -/

theorem indentLines_printWidth (depth : Int) (ls : List SnippetLine) :
    indentLines { o with printWidth := width } depth ls = indentLines o depth ls := by
  induction ls generalizing depth with
  | nil => rfl
  | cons line ls ih =>
    rw [indentLines, indentLines, ih]
    rfl

/-- Lines are laid out the same way whatever the width is. -/
theorem layoutLines_printWidth (source : List Char) :
    layoutLines { o with printWidth := width } source = layoutLines o source := by
  rw [layoutLines, layoutLines, indentLines_printWidth,
    spaceLines_setting o width o.useTabs .code (lines source)]

end

/-! ## Formatted snippets -/

/-- Without commas behind the last items, a formatted snippet is its laid out lines up to blanks and
bars. -/
theorem solid_formatSnippet_eq {o : FormatOptions} (h : o.trailingComma = false)
    (source : String) : solid (formatSnippet o source).toList =
      (layoutLines o source.toList).flatMap solid := by
  have hblank : ∀ c, isBlank c = true → (!(isBlank c || c == '|')) = false := fun c hc => by
    rw [hc]
    rfl
  have hcomma : (lastComma o).filter (fun c => !(isBlank c || c == '|')) = [] := by
    rw [lastComma, if_neg (Bool.eq_false_iff.1 h), List.filter_nil]
  rw [formatSnippet, String.toList_ofList, solid, joinLines, filter_joinWith rfl, formatLines,
    List.flatMap_assoc, funext (flatMap_filter_breakLine hblank rfl hcomma)]
  rfl

/-- Formatted for another width, a snippet has the same characters but for blanks and bars. -/
theorem solid_formatSnippet (o : FormatOptions) (width : Nat) (source : String)
    (h : o.trailingComma = false) :
    solid (formatSnippet { o with printWidth := width } source).toList =
      solid (formatSnippet o source).toList := by
  have hwidth : ({ o with printWidth := width } : FormatOptions).trailingComma = false := h
  rw [solid_formatSnippet_eq h, solid_formatSnippet_eq hwidth, layoutLines_printWidth]

/-- A union with an empty member and the parameters of a function are broken for one width only. -/
theorem solid_formatSnippet_narrow :
    let source := "type Mode = | 'on' | 'off' | string\ndeclare function set(mode: Mode, at?: Date)"
    ({} : FormatOptions).trailingComma = false ∧
      solid (formatSnippet { printWidth := 20 } source).toList =
        solid (formatSnippet {} source).toList ∧
      formatSnippet { printWidth := 20 } source ≠ formatSnippet {} source :=
  ⟨rfl, solid_formatSnippet {} 20 _ rfl, by decide +kernel⟩

end ReferencePages
