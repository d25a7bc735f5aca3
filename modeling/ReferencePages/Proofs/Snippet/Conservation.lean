import ReferencePages.Proofs.Snippet.Breaking
import ReferencePages.Proofs.Snippet.Indentation
import ReferencePages.Proofs.Snippet.Spacing
import ReferencePages.Snippet.Format

/-!
# Formatting conserves code

Every step of formatting keeps the significant characters of its lines in order: indenting,
dropping commas and empty lines, and breaking a line, which drops a separator between two parts
and puts them on lines of their own. Only ending the statement adds one, a semicolon behind the
last line. So a formatted snippet is its source up to fillers and that semicolon
(`significant_formatSnippet`).
-/

namespace ReferencePages

variable {o : FormatOptions}

/-! ## Indentation, commas and empty lines -/

theorem significant_indentLine (depth : Int) (line : SnippetLine) :
    significant (indentLine o depth line) = significant line.text := by
  obtain ⟨pre, hpre, hline, -⟩ := exists_indentLine o depth line
  have hnone : significant pre = [] :=
    filter_eq_nil_of_blank isSignificant_of_isBlank (isBlank_of_indent hpre)
  rw [hline, significant_append, hnone, List.nil_append]

theorem flatMap_significant_indentLines (depth : Int) (ls : List SnippetLine) :
    (indentLines o depth ls).flatMap (fun line => significant line.text) =
      ls.flatMap fun line => significant line.text := by
  induction ls generalizing depth with
  | nil => rfl
  | cons line rest ih =>
    rw [indentLines, List.flatMap_cons, List.flatMap_cons, ih, significant_indentLine]

theorem flatMap_significant_dropDanglingCommas (ls : List SnippetLine) :
    (dropDanglingCommas ls).flatMap (fun line => significant line.text) =
      ls.flatMap fun line => significant line.text := by
  induction ls with
  | nil => rfl
  | cons line rest ih =>
    rw [dropDanglingCommas, List.flatMap_cons, List.flatMap_cons, ih]
    congr 1
    split
    · next h =>
      obtain ⟨-, hcomma, -⟩ := h
      refine significant_dropLast fun c hc => ?_
      rw [hcomma, Option.some.injEq] at hc
      subst hc
      rfl
    · rfl

theorem flatMap_significant_collapseBlanks (seen gap : Bool) (ls : List (List Char)) :
    (collapseBlanks seen gap ls).flatMap significant = ls.flatMap significant := by
  induction ls generalizing seen gap with
  | nil => rfl
  | cons line rest ih =>
    rw [collapseBlanks, List.flatMap_cons]
    split
    · next h => rw [ih, significant_eq_nil_of_trim h, List.nil_append]
    · cases gap <;> simp [ih]

/-! ## The end of the statement -/

/-- Ending a statement adds a semicolon at most. -/
theorem flatMap_significant_terminate (ls : List (List Char)) :
    (terminate ls).flatMap significant = ls.flatMap significant ∨
      (terminate ls).flatMap significant = ls.flatMap significant ++ [';'] := by
  unfold terminate
  split
  · next first last hfirst hlast =>
    split
    · refine Or.inr ?_
      conv => rhs; rw [← List.dropLast_append_getLast? last hlast]
      simp only [List.flatMap_append, List.flatMap_singleton, significant_append,
        List.append_assoc]
      rfl
    · exact Or.inl rfl
  · exact Or.inl rfl

/-! ## Breaking lines -/

section

variable {p : Char → Bool} {indent body pre stop : List Char} {ls : List (List Char)}

/-- Items that are put on lines of their own, with something behind each one. -/
theorem flatMap_filter_items {items : List (List Char)} {last : List Char}
    {line : List Char → List Char → List Char} (hne : items ≠ [])
    (hline : ∀ item stop, (line item stop).filter p = item.filter p ++ stop.filter p) :
    (items.dropLast.map (line · stop) ++ items.getLast?.toList.map (line · last)).flatMap
      (List.filter p) = (joinWith stop items).filter p ++ last.filter p := by
  induction items with
  | nil => exact absurd rfl hne
  | cons item items ih =>
    cases items with
    | nil => simp [joinWith, hline]
    | cons item' items =>
      rw [List.dropLast_cons_cons, List.getLast?_cons_cons, List.map_cons, List.cons_append,
        List.flatMap_cons, ih (List.cons_ne_nil item' items), hline, joinWith_cons_cons,
        List.filter_append, List.filter_append, List.append_assoc (_ ++ _)]

variable (hp : ∀ c, isBlank c = true → p c = false)
include hp

theorem flatMap_filter_itemLines (hpre : pre.filter p = []) {items : List (List Char)}
    (hne : items ≠ []) : (itemLines o pre items).flatMap (List.filter p) =
      (joinWith [','] items).filter p ++ (lastComma o).filter p := by
  have hline (item stop : List Char) :
      (pre ++ trim item ++ stop).filter p = item.filter p ++ stop.filter p := by
    rw [List.filter_append, List.filter_append, hpre, filter_trim hp, List.nil_append]
  exact flatMap_filter_items hne hline

theorem filter_splitStop (s : List Char) :
    (splitStop s).1.filter p ++ (splitStop s).2.filter p = s.filter p := by
  unfold splitStop
  split
  · next right hright =>
    rw [filter_trimEnd hp, ← List.filter_append, ← dropSuffix?_eq_some_iff.1 hright]
  · exact List.append_nil _

/-- Breaking a line around its parentheses loses nothing but blanks, and adds the last comma. -/
theorem flatMap_filter_breakParens (h : breakParens o indent body = some ls)
    (hindent : indent.filter p = []) (hcomma : (lastComma o).filter p = []) :
    ls.flatMap (List.filter p) = body.filter p := by
  obtain ⟨left, inside, close, -, -, rfl, rfl⟩ := exists_of_breakParens_eq_some h
  have hpre : (indent ++ o.unit).filter p = [] := by
    rw [List.filter_append, hindent, filter_eq_nil_of_blank hp (isBlank_unit o), List.nil_append]
  rw [List.flatMap_cons, List.flatMap_append, List.flatMap_singleton,
    flatMap_filter_itemLines hp hpre (splitTop_ne_nil _ _ _), joinWith_splitTop, hcomma,
    filter_trim hp, List.append_cons left]
  simp only [List.filter_append, hindent, List.nil_append, List.append_nil, List.append_assoc]

variable (hbar : p '|' = false)
include hbar

theorem flatMap_filter_memberLines (hpre : pre.filter p = []) {members : List (List Char)}
    (hne : members ≠ []) : (memberLines pre members stop).flatMap (List.filter p) =
      members.flatMap (List.filter p) ++ stop.filter p := by
  have hmark : ['|', ' '].filter p = [] := by simp [hbar, hp ' ' rfl]
  have hnone : ([] : List Char).filter p = [] := rfl
  have hline (member stop : List Char) :
      (pre ++ ['|', ' '] ++ member ++ stop).filter p = member.filter p ++ stop.filter p := by
    rw [List.filter_append, List.filter_append, List.filter_append, hpre, hmark, List.nil_append,
      List.nil_append]
  rw [← filter_joinWith hnone members]
  exact flatMap_filter_items hne hline

/-- The members of a union are what stands between bars, less blanks. -/
theorem flatMap_filter_members (side : List Char) :
    (((unionParts side).map trim).filter (!·.isEmpty)).flatMap (List.filter p) =
      (splitStop (trim side)).1.filter p := by
  have hnonempty (parts : List (List Char)) :
      (parts.filter (!·.isEmpty)).flatMap (List.filter p) = parts.flatMap (List.filter p) := by
    induction parts with
    | nil => rfl
    | cons part parts ih => cases part <;> simp [ih]
  have hjoin := joinWith_splitTop '|' {} (splitStop (trim side)).1
  conv => rhs; rw [← hjoin, filter_joinWith (by simp [hbar])]
  rw [hnonempty, List.flatMap_map, funext (filter_trim hp), unionParts]

/-- Breaking a union loses nothing but blanks and bars. -/
theorem flatMap_filter_breakUnion (h : breakUnion o indent body = some ls)
    (hindent : indent.filter p = []) : ls.flatMap (List.filter p) = body.filter p := by
  obtain ⟨left, side, -, rfl, hlength, rfl⟩ := exists_of_breakUnion_eq_some h
  have hpre : (indent ++ o.unit).filter p = [] := by
    rw [List.filter_append, hindent, filter_eq_nil_of_blank hp (isBlank_unit o), List.nil_append]
  have hne := List.ne_nil_of_length_pos (Nat.lt_of_lt_of_le Nat.two_pos hlength)
  rw [List.flatMap_cons, flatMap_filter_memberLines hp hbar hpre hne,
    flatMap_filter_members hp hbar, filter_splitStop hp, filter_trim hp, List.append_cons left]
  have hequals : [' ', '='].filter p = ['='].filter p :=
    List.filter_cons_of_neg (Bool.eq_false_iff.1 (hp ' ' rfl))
  simp only [List.filter_append, hindent, hequals, filter_trimEnd hp, List.nil_append]

/-- Breaking a line loses nothing but blanks and bars, and adds the last comma. -/
theorem flatMap_filter_breakLine (hcomma : (lastComma o).filter p = []) (line : List Char) :
    (breakLine o line).flatMap (List.filter p) = line.filter p := by
  have hindent := filter_takeWhile_isBlank hp line
  rcases breakLine_cases o line with hsame | hunion | ⟨-, hparens⟩
  · rw [hsame, List.flatMap_singleton]
  · exact (flatMap_filter_breakUnion hp hbar hunion hindent).trans (filter_trimStart hp line)
  · exact (flatMap_filter_breakParens hp hparens hindent hcomma).trans (filter_trimStart hp line)

end

/-- Breaking a line loses nothing. -/
theorem flatMap_significant_breakLine (line : List Char) :
    (breakLine o line).flatMap significant = significant line := by
  refine flatMap_filter_breakLine isSignificant_of_isBlank rfl ?_ line
  unfold lastComma
  split <;> rfl

/-! ## The whole snippet -/

theorem flatMap_significant_layoutLines (source : List Char) :
    (layoutLines o source).flatMap significant = significant source ∨
      (layoutLines o source).flatMap significant = significant source ++ [';'] := by
  have hindented : (indentLines o 0 (spaceLines o .code (lines source))).flatMap
      (fun line => significant line.text) = significant source := by
    rw [flatMap_significant_indentLines, flatMap_significant_spaceLines, flatMap_significant_lines]
  unfold layoutLines
  dsimp only
  generalize indentLines o 0 (spaceLines o .code (lines source)) = indented at hindented ⊢
  have hkept : ((if o.trailingComma then indented else dropDanglingCommas indented).map
      SnippetLine.text).flatMap significant = significant source := by
    rw [List.flatMap_map]
    split
    · exact hindented
    · exact (flatMap_significant_dropDanglingCommas indented).trans hindented
  have hcollapsed := (flatMap_significant_collapseBlanks false false _).trans hkept
  exact hcollapsed ▸ flatMap_significant_terminate _

/-- A formatted snippet has the significant characters of its source in their order, possibly
followed by a semicolon. -/
theorem significant_formatSnippet (o : FormatOptions) (source : String) :
    significant (formatSnippet o source).toList = significant source.toList ∨
      significant (formatSnippet o source).toList = significant source.toList ++ [';'] := by
  have hbroken : significant (formatSnippet o source).toList =
      (layoutLines o source.toList).flatMap significant := by
    rw [formatSnippet, String.toList_ofList, significant_joinLines, formatLines,
      List.flatMap_assoc, funext flatMap_significant_breakLine]
  rw [hbroken]
  exact flatMap_significant_layoutLines source.toList

end ReferencePages
