import ReferencePages.Proofs.Snippet.Broken
import ReferencePages.Snippet.Format

/-!
# Formatting a formatted snippet

Formatting is not idempotent (`formatSnippet_union`): the members of a union that is broken are
indented by one level, but no bracket is open there, so they lose their indentation the next time.
It is idempotent where each line can be set for good and no line is broken but around balanced items
(`formatSnippet_formatSnippet`). The formatted lines are then laid out, collapsed, terminated and
narrow enough (`Formatted`), and each of these passes leaves them as they are.
-/

namespace ReferencePages

/-! ## Formatted lines -/

/-- Lines that no pass of the formatter changes. -/
structure Formatted (o : FormatOptions) (ls : List (List Char)) : Prop where
  laid : Laid o .code 0 ls
  collapsed : collapseBlanks false false ls = ls
  ended : Ended ls
  unbroken : ∀ line ∈ ls, breakLine o line = [line]

/-- Lines that are left as they are, or broken around their first parentheses for good. -/
def SteadyBreaks (o : FormatOptions) (m : Mode) (depth : Int) : List (List Char) → Prop
  | [] => True
  | line :: rest =>
    SteadyBreak o m depth line ∧
      SteadyBreaks o (modeAfterAll m (scan m (scannedText m line)))
        (depth + (spaceLine o m line).delta) rest

instance decidableSteadyBreaks (o : FormatOptions) :
    ∀ (m : Mode) (depth : Int) (ls : List (List Char)), Decidable (SteadyBreaks o m depth ls)
  | _, _, [] => isTrue trivial
  | m, depth, line :: rest =>
    have := decidableSteadyBreaks o (modeAfterAll m (scan m (scannedText m line)))
      (depth + (spaceLine o m line).delta) rest
    inferInstanceAs (Decidable (_ ∧ _))

/-- A snippet whose formatted lines are set and broken for good. -/
structure Steady (o : FormatOptions) (source : List Char) : Prop where
  lines : SteadyLines o .code (ReferencePages.lines source)
  breaks : SteadyBreaks o .code 0 (layoutLines o source)
  /-- The semicolon at the end does not stand behind an opening brace. -/
  last : ∀ last ∈ (layoutLines o source).getLast?, endsWith ['\x7b', ';'] last = false

instance (o : FormatOptions) (source : List Char) : Decidable (Steady o source) :=
  decidable_of_iff
    (SteadyLines o .code (lines source) ∧ SteadyBreaks o .code 0 (layoutLines o source) ∧
      ∀ last ∈ (layoutLines o source).getLast?, endsWith ['\x7b', ';'] last = false)
    ⟨fun ⟨h₁, h₂, h₃⟩ => ⟨h₁, h₂, h₃⟩, fun ⟨h₁, h₂, h₃⟩ => ⟨h₁, h₂, h₃⟩⟩

section

variable {o : FormatOptions} {m : Mode} {depth : Int} {ls : List (List Char)}
  {source : List Char}

theorem Laid.of_mem (h : Laid o m depth ls) :
    ∀ line ∈ ls, '\n' ∉ line ∧ line.getLast? ≠ some '\r' := by
  induction h with
  | nil => exact fun line hline => nomatch hline
  | @cons m depth rest st hline hcomma hrest ih =>
    refine List.forall_mem_cons.2 ⟨⟨?_, ?_⟩, ih⟩
    · exact hline.feed_indentLine depth
    · exact hline.carriage_indentLine depth

/-- Formatted lines are formatted to themselves. -/
theorem Formatted.formatLines_joinLines (h : Formatted o ls) :
    formatLines o (joinLines ls) = ls := by
  have hlast : ls.getLast? ≠ some [] := by
    rw [← h.collapsed]
    exact fun hnil => trim_getLast?_collapseBlanks false false ls [] hnil rfl
  have hlines : lines (joinLines ls) = ls :=
    lines_joinLines (fun line hline => (h.laid.of_mem line hline).1)
      (fun line hline => (h.laid.of_mem line hline).2) hlast
  have hlayout : layoutLines o (joinLines ls) = ls := by
    have hkept := h.laid.keptLines_eq
    unfold layoutLines
    rw [hlines]
    show terminate (collapseBlanks false false
      ((keptLines o (indentLines o 0 (spaceLines o .code ls))).map SnippetLine.text)) = ls
    rw [hkept, h.collapsed, h.ended.terminate_eq]
  rw [formatLines, hlayout]
  calc ls.flatMap (breakLine o) = ls.flatMap fun line => [line] :=
        List.flatMap_congr h.unbroken
    _ = ls := List.flatMap_singleton' ls

/-! ## The lines before long ones are broken -/

/-- Collapsed lines stay collapsed when the last one is changed. -/
theorem collapseBlanks_concat {init : List (List Char)} {line line' : List Char}
    (h : collapseBlanks false false (init ++ [line]) = init ++ [line]) (hline : trim line ≠ [])
    (hline' : trim line' ≠ []) :
    collapseBlanks false false (init ++ [line']) = init ++ [line'] := by
  obtain ⟨seen, gap, happend⟩ := exists_collapseBlanks_append false false init
  rw [happend, collapseBlanks_cons_of_ne_nil hline, ← List.append_assoc] at h
  have hinit := (List.append_inj' h rfl).1
  rw [happend, collapseBlanks_cons_of_ne_nil hline', ← List.append_assoc, hinit]
  rfl

/-- Lines that are laid out and collapsed stay so when they are terminated. -/
theorem Laid.laid_terminate (h : Laid o .code 0 ls)
    (hcollapsed : collapseBlanks false false ls = ls)
    (hsolid : ∀ line ∈ ls.getLast?, trim line ≠ [])
    (hlast : ∀ last ∈ (terminate ls).getLast?, endsWith ['\x7b', ';'] last = false) :
    Laid o .code 0 (terminate ls) ∧
      collapseBlanks false false (terminate ls) = terminate ls := by
  rcases terminate_cases ls with ⟨hsame, -⟩ | ⟨init, line, rfl, hlines, word, hneeds⟩
  · rw [hsame]
    exact ⟨h, hcollapsed⟩
  · rw [hlines] at hlast ⊢
    have hline : trim line ≠ [] := hsolid line List.getLast?_concat
    have hslashes := contains_slashes_of_needsSemicolon hneeds
    have hbrace : line.getLast? ≠ some '\x7b' := by
      intro hend
      obtain ⟨before, rfl⟩ := List.getLast?_eq_some_iff.1 hend
      have hends : endsWith ['\x7b', ';'] (before ++ ['\x7b'] ++ [';']) = true :=
        endsWith_iff.2 ⟨before, by simp⟩
      exact nomatch (hlast _ List.getLast?_concat).symm.trans hends
    have hline' : trim (line ++ [';']) ≠ [] :=
      trim_ne_nil_of_mem (List.mem_append_right line (List.mem_singleton_self ';')) rfl
    exact ⟨h.concat_semicolon hline hslashes hbrace, collapseBlanks_concat hcollapsed hline hline'⟩

/-- The layout of a steady snippet is laid out, collapsed and terminated. -/
theorem Steady.laid_layoutLines (h : Steady o source) :
    Laid o .code 0 (layoutLines o source) ∧
      collapseBlanks false false (layoutLines o source) =
        layoutLines o source ∧
      Ended (layoutLines o source) := by
  obtain ⟨hlaid, -⟩ : Laid o .code 0 _ ∧ _ := h.lines.laid (not_mem_of_mem_lines source)
  have hlast := h.last
  have hlayout : layoutLines o source = terminate (collapseBlanks false false
      ((keptLines o (indentLines o 0 (spaceLines o .code (ReferencePages.lines source)))).map
        SnippetLine.text)) := rfl
  rw [hlayout] at hlast ⊢
  obtain ⟨hterminated, hcollapsed⟩ := (hlaid.laid_collapseBlanks false false).laid_terminate
    (collapseBlanks_collapseBlanks Bool.false_ne_true.elim _)
    (trim_getLast?_collapseBlanks false false _) hlast
  exact ⟨hterminated, hcollapsed, ended_terminate _⟩

/-! ## Broken lines -/

/-- What the lines that a line is broken into have in common with it. -/
structure BreaksWell (o : FormatOptions) (line : List Char) : Prop where
  unbroken : ∀ piece ∈ breakLine o line, breakLine o piece = [piece]
  solid : trim line ≠ [] → breakLine o line ≠ [] ∧ ∀ piece ∈ breakLine o line, trim piece ≠ []
  keyword : ∀ first ∈ (breakLine o line).head?, keyword first = ReferencePages.keyword line
  ended : ∀ word, needsSemicolon word line = false →
    ∀ last ∈ (breakLine o line).getLast?, needsSemicolon word last = false

theorem breaksWell_of_eq {line : List Char} (h : breakLine o line = [line]) :
    BreaksWell o line where
  unbroken := by
    rw [h]
    exact List.forall_mem_singleton.2 h
  solid hline := by
    rw [h]
    exact ⟨List.cons_ne_nil _ _, List.forall_mem_singleton.2 hline⟩
  keyword first hfirst := by
    rw [h] at hfirst
    rw [Option.some.inj hfirst]
  ended word hword last hlast := by
    rw [h] at hlast
    exact Option.some.inj hlast ▸ hword

/-- Laid out lines that are broken for good are laid out. -/
theorem Laid.flatMap_breakLine (h : Laid o m depth ls) (hbreaks : SteadyBreaks o m depth ls) :
    Laid o m depth (ls.flatMap (breakLine o)) ∧
      leadChar (ls.flatMap (breakLine o)) = leadChar ls ∧ ∀ line ∈ ls, BreaksWell o line := by
  induction h with
  | nil => exact ⟨.nil, rfl, fun line hline => nomatch hline⟩
  | @cons m depth rest st hline hcomma hrest ih =>
    have hscanned := hline.scannedText_indentLine depth
    obtain ⟨hbreak, hbreaksRest⟩ := hbreaks
    rw [hline.spaceLine_eq hscanned, hline.modeAfterAll_scan hscanned] at hbreaksRest
    obtain ⟨hlaid, hlead, hwell⟩ := ih hbreaksRest
    rw [List.flatMap_cons]
    by_cases hsame : breakLine o (indentLine o depth (lineOf m st)) =
        [indentLine o depth (lineOf m st)]
    · rw [hsame]
      refine ⟨.cons st hline (fun ht hm hdangles => hcomma ht hm ?_) hlaid, ?_,
        List.forall_mem_cons.2 ⟨breaksWell_of_eq hsame, hwell⟩⟩
      · exact ⟨hdangles.1, hdangles.2.1, hlead ▸ hdangles.2.2⟩
      · rw [List.singleton_append, leadChar_cons, leadChar_cons, hlead]
    · obtain ⟨rfl, head, left, inside, close, hbroken⟩ := hbreak.exists_brokenInto hline hsame
      refine ⟨hbroken.laid (fun ht => hcomma ht rfl) hlaid hlead, hbroken.leadChar_append _ _,
        List.forall_mem_cons.2 ⟨⟨(hbreak.resolve_left hsame).2.2.2, fun _ => ?_,
          hbroken.keyword_head?, fun word => hbroken.needsSemicolon_getLast?⟩, hwell⟩⟩
      refine ⟨fun hnil => ?_, hbroken.trim_ne_nil⟩
      rw [hbroken.lines] at hnil
      cases hnil

/-- A statement that has ended has ended when its lines are broken. -/
theorem Ended.flatMap_breakLine (h : Ended ls) (hwell : ∀ line ∈ ls, BreaksWell o line)
    (hne : ∀ line ∈ ls, breakLine o line ≠ []) : Ended (ls.flatMap (breakLine o)) := by
  intro first hfirst last hlast
  rcases ls with _ | ⟨line, rest⟩
  · cases hfirst
  · have hline : line ∈ line :: rest := List.mem_cons_self
    rw [List.flatMap_cons, List.head?_append_of_ne_nil _ (hne line hline)] at hfirst
    rw [(hwell line hline).keyword first hfirst]
    rcases List.eq_nil_or_concat' (line :: rest) with hnil | ⟨init, line', hconcat⟩
    · cases hnil
    · have hline' : line' ∈ line :: rest := by simp [hconcat]
      rw [hconcat, List.flatMap_append, List.flatMap_singleton,
        List.getLast?_append_of_ne_nil _ (hne line' hline')] at hlast
      exact (hwell line' hline').ended _
        (h line rfl line' (by rw [hconcat, List.getLast?_concat]; rfl)) last hlast

theorem breakLine_of_blank {line : List Char} (h : trim line = []) : breakLine o line = [line] := by
  have hstart : trimStart line = [] := List.dropWhile_eq_nil_iff.2 (trim_eq_nil_iff.1 h)
  have hcases := breakLine_cases o line
  rw [hstart] at hcases
  exact hcases.resolve_right fun hbroken => hbroken.elim (fun h => nomatch h) fun h => nomatch h.2

/-- The formatted lines of a steady snippet. -/
theorem Steady.formatted (h : Steady o source) : Formatted o (formatLines o source) := by
  obtain ⟨hlaid, hcollapsed, hended⟩ := h.laid_layoutLines
  obtain ⟨hlaid, -, hwell⟩ := hlaid.flatMap_breakLine h.breaks
  have hne : ∀ line ∈ layoutLines o source, breakLine o line ≠ [] := fun line hline => by
    by_cases hempty : trim line = []
    · rw [breakLine_of_blank hempty]
      exact List.cons_ne_nil _ _
    · exact ((hwell line hline).solid hempty).1
  refine ⟨hlaid, ?_, hended.flatMap_breakLine hwell hne, fun piece hpiece => ?_⟩
  · rw [formatLines, collapseBlanks_flatMap (fun _ => breakLine_of_blank)
      fun line hline => (hwell line hline).solid, hcollapsed]
  · obtain ⟨line, hline, hmem⟩ := List.mem_flatMap.1 hpiece
    exact (hwell line hline).unbroken piece hmem

end

/-! ## Idempotence -/

/-- Formatting a steady snippet again changes nothing. -/
theorem formatSnippet_formatSnippet {o : FormatOptions} {source : String}
    (h : Steady o source.toList) :
    formatSnippet o (formatSnippet o source) = formatSnippet o source := by
  rw [formatSnippet, formatSnippet, String.toList_ofList, h.formatted.formatLines_joinLines]

/-- A member of an interface is broken around its parameters, commas are dropped, quotes are changed
and empty lines collapse, all for good. -/
theorem formatSnippet_formatSnippet_loader :
    let source := "interface Loader\x7b\n/**\n* Loads.\n*/\n" ++
      "load(first_argument:string,options?:\x7bkind:\"x\",retries:number,\x7d):void,\n\n\n\x7d\n"
    Steady {} source.toList ∧
      formatSnippet {} (formatSnippet {} source) = formatSnippet {} source := by
  have h : Steady {} ("interface Loader\x7b\n/**\n* Loads.\n*/\n" ++
      "load(first_argument:string,options?:\x7bkind:\"x\",retries:number,\x7d):void,\n\n\n\x7d\n").toList :=
    by decide +kernel
  exact ⟨h, formatSnippet_formatSnippet h⟩

/-- The members of a broken union lose their indentation the next time. -/
theorem formatSnippet_union :
    let source := "type Thing = 'aaaaaaaaaa' | 'bbbbbbbbbbbb' | 'cccccccccccc' | 'ddddddddddd';"
    formatSnippet {} source =
        "type Thing =\n\t| 'aaaaaaaaaa'\n\t| 'bbbbbbbbbbbb'\n\t| 'cccccccccccc'\n\t| 'ddddddddddd';" ∧
      formatSnippet {} (formatSnippet {} source) ≠ formatSnippet {} source := by
  decide +kernel

end ReferencePages
