import ReferencePages.Proofs.Snippet.Asides.Row
import ReferencePages.Proofs.Snippet.Broken
import ReferencePages.Snippet.Format

/-!
# The lines of a formatted snippet

The lines that are formatted hold no line feeds (`feed_formatLines`) and the last one is not empty
(`getLast?_formatLines_ne`). So they are the lines of the formatted snippet, unless one ends with a
carriage return (`lines_formatSnippet`).
-/

namespace ReferencePages

variable {o : FormatOptions} {m : Mode} {line indent body piece : List Char}
  {ls : List (List Char)} {source : List Char}

/-! ## The characters of formatted lines -/

/-- Formatting puts no line feed into a line. -/
theorem feed_spaceLine (h : '\n' ∉ line) (m : Mode) : '\n' ∉ (spaceLine o m line).text := by
  intro hmem
  have hrow : '\n' ∈ (({} : Row).placeAll o (scan m (scannedText m line))).text := by
    rw [spaceLine] at hmem
    dsimp only at hmem
    split at hmem
    · exact hmem
    · exact (isPrefix_trimEnd _).subset hmem
  rcases mem_placeAll hrow with hline | hspace | hquote
  · exact h (scannedText_subset m line hline)
  · exact absurd hspace (by decide)
  · exact ne_quote o (by decide) hquote

theorem feed_indentLine {line : SnippetLine} (h : '\n' ∉ line.text) (depth : Int) :
    '\n' ∉ indentLine o depth line := by
  obtain ⟨pre, hpre, hline, -⟩ := exists_indentLine o depth line
  rw [hline]
  refine fun hmem => (List.mem_append.1 hmem).elim (fun hmem => ?_) h
  rcases hpre _ hmem with heq | heq <;> exact absurd heq (by decide)

theorem feed_keptLines (h : ∀ line ∈ ls, '\n' ∉ line) (m : Mode) (depth : Int) :
    ∀ line ∈ (keptLines o (indentLines o depth (spaceLines o m ls))).map SnippetLine.text,
      '\n' ∉ line := by
  induction ls generalizing m depth with
  | nil =>
    rw [spaceLines, indentLines, keptLines_nil]
    exact List.forall_mem_nil _
  | cons line rest ih =>
    obtain ⟨hline, hrest⟩ := List.forall_mem_cons.1 h
    have hindent := feed_indentLine (o := o) (feed_spaceLine (o := o) hline m) depth
    rw [spaceLines, indentLines, keptLines_cons, List.map_cons]
    refine List.forall_mem_cons.2 ⟨?_, ih hrest _ _⟩
    split
    · exact fun hmem => hindent (List.dropLast_subset _ hmem)
    · exact hindent

theorem feed_collapseBlanks (h : ∀ line ∈ ls, '\n' ∉ line) (seen gap : Bool) :
    ∀ line ∈ collapseBlanks seen gap ls, '\n' ∉ line := by
  induction ls generalizing seen gap with
  | nil => exact fun line hline => nomatch hline
  | cons line rest ih =>
    obtain ⟨hline, hrest⟩ := List.forall_mem_cons.1 h
    by_cases hblank : trim line = []
    · rw [collapseBlanks_cons_of_blank hblank]
      exact ih hrest seen seen
    · rw [collapseBlanks_cons_of_ne_nil hblank]
      refine List.forall_mem_append.2
        ⟨fun line hmem => ?_, List.forall_mem_cons.2 ⟨hline, ih hrest true false⟩⟩
      cases gap with
      | false => cases hmem
      | true => exact List.mem_singleton.1 hmem ▸ List.not_mem_nil

theorem feed_terminate (h : ∀ line ∈ ls, '\n' ∉ line) : ∀ line ∈ terminate ls, '\n' ∉ line := by
  rcases terminate_cases ls with ⟨hsame, -⟩ | ⟨init, last, rfl, hlines, -⟩
  · rwa [hsame]
  · obtain ⟨hinit, hlast⟩ := List.forall_mem_append.1 h
    rw [hlines]
    refine List.forall_mem_append.2 ⟨hinit, List.forall_mem_singleton.2 ?_⟩
    simp [hlast last (List.mem_singleton_self last)]

theorem mem_of_mem_splitTop {sep c : Char} {n : Nesting} {s part : List Char}
    (hpart : part ∈ splitTop sep n s) (hc : c ∈ part) : c ∈ s := by
  induction s generalizing n part with
  | nil =>
    obtain rfl := List.mem_singleton.1 hpart
    exact hc
  | cons d s ih =>
    unfold splitTop at hpart
    split at hpart
    · rcases List.mem_cons.1 hpart with rfl | hpart
      · cases hc
      · exact List.mem_cons_of_mem d (ih hpart hc)
    · obtain ⟨first, parts, hparts⟩ :=
        List.exists_cons_of_ne_nil (splitTop_ne_nil sep (n.step true d) s)
      rw [hparts, List.modifyHead_cons] at hpart
      rcases List.mem_cons.1 hpart with rfl | hpart
      · rcases List.mem_cons.1 hc with rfl | hc
        · exact List.mem_cons_self
        · exact List.mem_cons_of_mem d (ih (hparts ▸ List.mem_cons_self) hc)
      · exact List.mem_cons_of_mem d (ih (hparts ▸ List.mem_cons_of_mem first hpart) hc)

theorem feed_unit (o : FormatOptions) : '\n' ∉ o.unit := fun hmem => by
  rcases mem_unit hmem with heq | heq <;> exact absurd heq (by decide)

theorem feed_breakParens (h : breakParens o indent body = some ls) (hindent : '\n' ∉ indent)
    (hbody : '\n' ∉ body) : ∀ piece ∈ ls, '\n' ∉ piece := by
  obtain ⟨left, inside, close, -, -, rfl, rfl⟩ := exists_of_breakParens_eq_some h
  simp only [List.mem_append, List.mem_cons, not_or] at hbody
  obtain ⟨hleft, -, hinside, hclose⟩ := hbody
  refine List.forall_mem_cons.2 ⟨by simp [hindent, hleft], List.forall_mem_append.2
    ⟨fun piece hpiece => ?_, List.forall_mem_singleton.2 (by simp [hindent, hclose])⟩⟩
  obtain ⟨item, hitem, stop, hstop, rfl⟩ := exists_of_mem_itemLines hpiece
  have hitem : '\n' ∉ trim item := fun hmem =>
    hinside (trim_subset _ (mem_of_mem_splitTop hitem (trim_subset _ hmem)))
  have hstop : '\n' ∉ stop := fun hmem => absurd (hstop _ hmem) (by decide)
  simp [hindent, feed_unit o, hitem, hstop]

theorem splitStop_subset (s : List Char) : (splitStop s).1 ⊆ s ∧ (splitStop s).2 ⊆ [';'] := by
  unfold splitStop
  split
  · next right hright =>
    rw [dropSuffix?_eq_some_iff.1 hright]
    exact ⟨List.Subset.trans (isPrefix_trimEnd _).subset
      (List.subset_append_left right _), List.Subset.refl _⟩
  · exact ⟨List.Subset.refl s, List.nil_subset _⟩

theorem feed_breakUnion (h : breakUnion o indent body = some ls) (hindent : '\n' ∉ indent)
    (hbody : '\n' ∉ body) : ∀ piece ∈ ls, '\n' ∉ piece := by
  obtain ⟨left, side, -, rfl, -, rfl⟩ := exists_of_breakUnion_eq_some h
  simp only [List.mem_append, List.mem_cons, not_or] at hbody
  obtain ⟨hleft, -, hside⟩ := hbody
  have hleft : '\n' ∉ trimEnd left := fun hmem =>
    hleft ((isPrefix_trimEnd _).subset hmem)
  refine List.forall_mem_cons.2 ⟨by simp [hindent, hleft], fun piece hpiece => ?_⟩
  obtain ⟨member, hmember, stop, hstop, rfl⟩ := exists_of_mem_memberLines hpiece
  obtain ⟨part, hpart, rfl⟩ := List.mem_map.1 (List.mem_filter.1 hmember).1
  obtain ⟨hright, hstopSubset⟩ := splitStop_subset (trim side)
  have hpart : '\n' ∉ trim part := fun hmem =>
    hside (trim_subset _ (hright (mem_of_mem_splitTop hpart (trim_subset _ hmem))))
  have hstop : '\n' ∉ stop := by
    rcases hstop with rfl | rfl
    · exact List.not_mem_nil
    · exact fun hmem => absurd (hstopSubset hmem) (by decide)
  simp [hindent, feed_unit o, hpart, hstop]

theorem feed_breakLine (h : '\n' ∉ line) : ∀ piece ∈ breakLine o line, '\n' ∉ piece := by
  have hindent : '\n' ∉ line.takeWhile isBlank := fun hmem =>
    h ((List.takeWhile_prefix isBlank).subset hmem)
  have hbody : '\n' ∉ trimStart line := fun hmem =>
    h ((isSuffix_trimStart line).subset hmem)
  rcases breakLine_cases o line with hsame | hunion | ⟨-, hparens⟩
  · rw [hsame]
    exact List.forall_mem_singleton.2 h
  · exact feed_breakUnion hunion hindent hbody
  · exact feed_breakParens hparens hindent hbody

/-- Formatted lines hold no line feeds. -/
theorem feed_formatLines (o : FormatOptions) (source : List Char) :
    ∀ line ∈ formatLines o source, '\n' ∉ line := by
  intro piece hpiece
  obtain ⟨line, hline, hmem⟩ := List.mem_flatMap.1 hpiece
  refine feed_breakLine ?_ piece hmem
  exact feed_terminate (feed_collapseBlanks
    (feed_keptLines (not_mem_of_mem_lines source) .code 0) false false) line hline

/-! ## The last line -/

theorem exists_getLast?_breakLine (h : line ≠ []) :
    ∃ last ∈ (breakLine o line).getLast?, last ≠ [] := by
  rcases breakLine_cases o line with hsame | hunion | ⟨-, hparens⟩
  · rw [hsame]
    exact ⟨line, rfl, h⟩
  · obtain ⟨left, side, -, -, hlength, hlines⟩ := exists_of_breakUnion_eq_some hunion
    generalize ((unionParts side).map trim).filter (!·.isEmpty) = members at hlength hlines
    rcases List.eq_nil_or_concat' members with rfl | ⟨init, member, rfl⟩
    · cases hlength
    · rw [hlines, memberLines, List.getLast?_concat, ← List.cons_append, Option.toList_some,
        List.map_singleton]
      exact ⟨_, List.getLast?_concat, by simp⟩
  · obtain ⟨left, inside, close, -, hcutClose, -, hlines⟩ := exists_of_breakParens_eq_some hparens
    obtain ⟨c, t, rfl, -⟩ := cutClose?_closer hcutClose
    rw [hlines, ← List.cons_append]
    exact ⟨_, List.getLast?_concat, by simp⟩

theorem getLast?_terminate_ne (h : ∀ line ∈ ls.getLast?, line ≠ []) :
    ∀ line ∈ (terminate ls).getLast?, line ≠ [] := by
  rcases terminate_cases ls with ⟨hsame, -⟩ | ⟨init, last, rfl, hlines, -⟩
  · rwa [hsame]
  · rw [hlines, List.getLast?_concat]
    exact fun line hline => Option.some.inj hline ▸ List.append_ne_nil_of_right_ne_nil _ (by simp)

theorem getLast?_formatLines_ne (o : FormatOptions) (source : List Char) :
    (formatLines o source).getLast? ≠ some [] := by
  have hlast : ∀ line ∈ (layoutLines o source).getLast?, line ≠ [] :=
    getLast?_terminate_ne fun line hline hnil =>
      trim_getLast?_collapseBlanks false false _ line hline (by rw [hnil]; rfl)
  unfold formatLines
  rcases List.eq_nil_or_concat' (layoutLines o source) with hnil | ⟨init, line, hlines⟩
  · rw [hnil]
    exact nofun
  · rw [hlines] at hlast ⊢
    obtain ⟨last, hmem, hne⟩ := exists_getLast?_breakLine (o := o) (hlast line List.getLast?_concat)
    rw [List.flatMap_append, List.flatMap_singleton, List.getLast?_append, hmem]
    exact fun heq => hne (Option.some.inj heq)

/-- The formatted lines are those of the formatted snippet. -/
theorem lines_formatSnippet {source : String}
    (h : ∀ line ∈ formatLines o source.toList, line.getLast? ≠ some '\r') :
    lines (formatSnippet o source).toList = formatLines o source.toList := by
  rw [formatSnippet, String.toList_ofList]
  exact lines_joinLines (feed_formatLines o _) h (getLast?_formatLines_ne o _)

end ReferencePages
